import OpenApiManifest.Loading

/-!
# Scripts

What a program does to the world outside, as a value: the files that it reads and writes, the lines that
it prints, and how it ends.  A script can be played against a tree of files in memory or against a
real system; what it does is the same.
-/

namespace OpenApiManifest.CommandLine

/-- A time of the day. -/
structure Clock where
  hour : Nat
  minute : Nat
  second : Nat
  deriving DecidableEq, Repr

namespace Clock

def twoDigits (n : Nat) : String :=
  if n < 10 then "0" ++ Nat.repr n else Nat.repr n

def text (clock : Clock) : String :=
  "[" ++ twoDigits clock.hour ++ ":" ++ twoDigits clock.minute ++ ":" ++ twoDigits clock.second
    ++ "]"

end Clock

/-- A program that ends with a value, or with a chain of messages from the outermost to the first
cause. -/
inductive Script (α : Type) where
  | done (value : α)
  | fail (chain : List String)
  | readFile (path : String) (next : Except FileFault (List UInt8) → Script α)
  | createDirectory (path : String) (next : Except FileFault Unit → Script α)
  | writeFile (path : String) (text : String) (next : Except FileFault Unit → Script α)
  /-- Prints a line. -/
  | print (line : String) (next : Script α)
  /-- Prints a line to the error output. -/
  | complain (line : String) (next : Script α)
  | readClock (next : Clock → Script α)

namespace Script

variable {α β : Type}

/-- Goes on with the value of a script. -/
def bind : Script α → (α → Script β) → Script β
  | .done value, rest => rest value
  | .fail chain, _ => .fail chain
  | .readFile path next, rest => .readFile path fun bytes => bind (next bytes) rest
  | .createDirectory path next, rest => .createDirectory path fun made => bind (next made) rest
  | .writeFile path text next, rest => .writeFile path text fun made => bind (next made) rest
  | .print line next, rest => .print line (bind next rest)
  | .complain line next, rest => .complain line (bind next rest)
  | .readClock next, rest => .readClock fun clock => bind (next clock) rest

instance : Monad Script where
  pure := .done
  bind := bind

def say (line : String) : Script Unit := .print line (.done ())

def warn (line : String) : Script Unit := .complain line (.done ())

def clock : Script Clock := .readClock .done

/-- The value of an outcome; a fault ends the script. -/
def demand {ε : Type} (chain : ε → List String) : Except ε α → Script α
  | .ok value => .done value
  | .error fault => .fail (chain fault)

/-- The bytes of a file; a fault ends the script. -/
def bytes (path : String) (fault : FileFault → LoadFault) : Script (List UInt8) :=
  .readFile path (demand fun cause => (fault cause).chain)

/-- Opens and reads the document at a path. -/
def document (path : String) : Script Json := do
  let bytes ← bytes path (.notOpened path)
  demand LoadFault.chain (readDocument path bytes)

/-- The settings at a path, and the standard ones without a path. -/
def settings : Option String → Script Settings
  | none => .done .standard
  | some path => do
    let bytes ← bytes path (.settingsNotRead path)
    demand LoadFault.chain (readSettings path bytes)

end Script

end OpenApiManifest.CommandLine
