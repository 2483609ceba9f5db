import OpenApiManifest.CommandLine.FileTree
import OpenApiManifest.CommandLine.Generate
import OpenApiManifest.CommandLine.Listing
import OpenApiManifest.Text.Letters

/-!
# The program

What the program does with its arguments, how it reports a failure, and with which code it exits.
-/

namespace OpenApiManifest.CommandLine

def Invocation.script (invocation : Invocation) (surroundings : Surroundings) : Script Unit :=
  match invocation.command with
  | .listOperations input => listOperations input
  | .listModels input config allSchemas => listModels input config allSchemas
  | .generate command =>
    command.script (.ofModes surroundings invocation.color invocation.theme)

/-- A message whose further lines are moved to the right. -/
def hang (first further : String) (message : String) : String :=
  first ++ ("\n" ++ further).intercalate (message.splitOn "\n")

/-- The causes of a failure, numbered if there are several. -/
def causeLines : List String → List String
  | [] => []
  | [cause] => [hang "    " "    " cause]
  | causes =>
    causes.zipIdx.map fun (cause, i) =>
      let number := Nat.repr i
      hang (Table.blanks (5 - number.length) ++ number ++ ": ") "       " cause

/-- How a failure is shown, by its messages from the outermost to the first cause. -/
def failureText : List String → String
  | [] => "Error:"
  | outermost :: causes =>
    let first := "Error: " ++ outermost
    if causes.isEmpty then first
    else "\n".intercalate ([first, "", "Caused by:"] ++ causeLines causes)

def usage : String :=
  "Usage: apigen [--color <always|auto|never>] [--theme <dark|light|auto>] <COMMAND>\n"
    ++ "\n"
    ++ "Commands:\n"
    ++ "  list operations -i <FILE>\n"
    ++ "  list models -i <FILE> [-c <FILE>] [--all-schemas]\n"
    ++ "  generate -i <FILE>... -o <DIR> [-c <FILE>] [--all-schemas] [-v | -q]"

/-- The name and the version of the program. -/
def versionText : String := "apigen 0.4.0"

/-- What a run leaves: its exit code, the lines on its two outputs, and the files. -/
structure Ending where
  code : Nat
  printed : List String
  complained : List String
  files : FileTree
  deriving DecidableEq, Repr

/-- Runs the program on a tree of files. -/
def runProgram (surroundings : Surroundings) (clock : Clock) (arguments : List String)
    (files : FileTree) : Ending :=
  match Request.ofArguments arguments with
  | .help => ⟨0, [usage], [], files⟩
  | .version => ⟨0, [versionText], [], files⟩
  | .misuse => ⟨2, [], [usage], files⟩
  | .run invocation =>
    let played := (invocation.script surroundings).play clock files
    match played.outcome with
    | .ok () => ⟨0, played.printed, played.complained, played.files⟩
    | .error chain =>
      ⟨1, played.printed, played.complained ++ [failureText chain], played.files⟩

end OpenApiManifest.CommandLine
