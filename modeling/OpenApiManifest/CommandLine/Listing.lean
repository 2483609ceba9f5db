import OpenApiManifest.CommandLine.Script
import OpenApiManifest.CommandLine.Table
import OpenApiManifest.Generation

/-!
# Listing operations and models

The commands that show a document as a table: its operations by their first tag, or the models that
are generated for it.
-/

namespace OpenApiManifest.CommandLine

/-- A cell at the left side of its column. -/
def leftCell (text : String) : Cell := ⟨text, .left⟩

/-- The table of the operations of a document. -/
def operationTable (document : Document) : Table :=
  { header := ["TAG", "OPERATION ID", "METHOD", "PATH"]
    rows := document.operationGroups.flatMap fun (group, entries) =>
      entries.map fun entry =>
        [leftCell (groupName group), leftCell entry.operationId, ⟨entry.method.name, .right⟩,
          leftCell entry.path] }

/-- The table of the models of a manifest. -/
def modelTable (manifest : VersionManifest) : Table :=
  { header := ["MODEL", "KIND", "ORIGIN", "TYPE", "REFERENCES"]
    rows := manifest.models.map fun (name, model) =>
      [leftCell name, leftCell model.kind.key, leftCell model.origin.key, leftCell model.type.write,
        leftCell (", ".intercalate model.references)] }

/-- Lists the operations of the document at a path. -/
def listOperations (path : String) : Script Unit := do
  let value ← Script.document path
  let document ← Script.demand (fun error => [error.message]) (Document.read ⟨0⟩ value)
  Script.say (operationTable document).text

/-- Lists the models of the document at a path. -/
def listModels [Spelling] (path : String) (config : Option String) (allSchemas : Bool) : Script Unit := do
  let value ← Script.document path
  let settings ← Script.settings config
  let generator : Generator := ⟨settings, allSchemas⟩
  let version := (apiVersion? path).getD ""
  let (manifest, _) ← Script.demand (fun halt => [halt.message]) (generator.version version value)
  Script.say (modelTable manifest).text

end OpenApiManifest.CommandLine
