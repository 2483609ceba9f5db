import OpenApiManifest.Dependencies
import OpenApiManifest.Manifest.Builder
import OpenApiManifest.Registry.Walk
import OpenApiManifest.Settings

/-!
# Generation

The manifest of one version from its document, and the manifest of several versions.  Versions share
nothing but the settings, so they may be completed in any order; the manifest lists them in the order
in which they were given.
-/

namespace OpenApiManifest

/-- How manifests are generated. -/
structure Generator where
  settings : Settings
  /-- Whether all schemas of the components are models, or only those that operations reach. -/
  allSchemas : Bool

/-- A document tree, the version that it describes, and the path of the file that it comes from. -/
structure SpecInput where
  version : String
  path : String
  value : Json

/-- A manifest and what was counted while it was built. -/
structure Generated where
  manifest : Manifest
  statistics : Statistics

/-- Why a manifest of several versions cannot be generated. -/
inductive GenerationError where
  | repeatedVersion (version path : String)
  | failed (version path : String) (cause : Halt)
  deriving DecidableEq, Repr

/-- The messages of an error, from the outermost to its first cause. -/
def GenerationError.chain : GenerationError → List String
  | .repeatedVersion version path =>
    ["API version '" ++ version ++ "' is given more than once (second file: " ++ path ++ ")"]
  | .failed version path cause =>
    ["failed to generate " ++ version ++ " from " ++ path, cause.message]

namespace Generator

section Versions

variable [Spelling]

def collect (generator : Generator) (document : Document) : Walk Unit := do
  WalkRoot.paths.walk document .everything
  if generator.allSchemas then
    WalkRoot.components.walk document .everything

def version (generator : Generator) (name : String) (value : Json) :
    Except Halt (VersionManifest × Statistics) := do
  let document ← (Document.read ⟨0⟩ value).mapError Halt.error
  let listModels := generator.settings.listModelsOf name
  let visit := generator.collect document .empty
  visit.result
  let builder : Builder :=
    { version := name
      mapper := ⟨document, listModels⟩
      reserved := generator.settings.reserved }
  (builder.build (visit.registry.emitted listModels) (Dependencies.ofDocument document).cycles).result

end Versions

/-- The first input whose version was given before. -/
def repeated? : List String → List SpecInput → Option SpecInput
  | _, [] => none
  | seen, input :: rest =>
    if input.version ∈ seen then some input else repeated? (input.version :: seen) rest

/-- A version that is completed: its place among the inputs, and its outcome. -/
structure Completion where
  index : Nat
  version : String
  outcome : Except GenerationError (VersionManifest × Statistics)

def complete [Spelling] (generator : Generator) (index : Nat) (input : SpecInput) : Completion :=
  { index
    version := input.version
    outcome :=
      (generator.version input.version input.value).mapError (.failed input.version input.path) }

/-- Adds a completed version to what was generated before. -/
def addVersion (generated : Generated) (name : String)
    (version : VersionManifest × Statistics) : Generated :=
  { manifest := ⟨Entries.put name version.1 generated.manifest.versions⟩
    statistics := generated.statistics.merge version.2 }

/-- Puts versions together that were completed in any order. -/
def assemble (completions : List Completion) : Except GenerationError Generated := do
  let versions ← completions.mapM fun c => do return (c.index, c.version, ← c.outcome)
  let ordered := versions.mergeSort fun a b => decide (a.1 ≤ b.1)
  return ordered.foldl (fun generated (_, name, version) => addVersion generated name version)
    ⟨⟨[]⟩, .none⟩

/-- The manifest of several versions, which must differ from one another, from their completions in
any order. -/
def gather (inputs : List SpecInput) (completions : List Completion) :
    Except GenerationError Generated :=
  match repeated? [] inputs with
  | some input => .error (.repeatedVersion input.version input.path)
  | none => assemble completions

/-- The manifest of several versions, which are completed one after the other. -/
def all [Spelling] (generator : Generator) (inputs : List SpecInput) : Except GenerationError Generated :=
  gather inputs (inputs.mapIdx generator.complete)

end Generator

end OpenApiManifest
