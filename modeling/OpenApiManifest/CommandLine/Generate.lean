import OpenApiManifest.CommandLine.Palette
import OpenApiManifest.CommandLine.Script
import OpenApiManifest.Generation
import OpenApiManifest.Json.Printer
import OpenApiManifest.Manifest.Printer

/-!
# Generating a manifest

The command that loads documents, builds their manifest and writes it to a file, with a report on the
way.  A quiet run reports nothing but errors.
-/

namespace OpenApiManifest.CommandLine

/-- The name of the file that a manifest is written to. -/
def manifestName : String := "manifest.json"

/-- A report on a run: how it looks and how much it tells. -/
structure Report where
  palette : Palette
  verbose : Bool
  quiet : Bool
  deriving DecidableEq, Repr

namespace Report

/-- A line with the time of the day in front. -/
def stamped (report : Report) (role : Role) (message : String) : Script Unit := do
  let clock ← Script.clock
  Script.say (report.palette.paint .timestamp clock.text ++ " " ++ report.palette.paint role message)

def step (report : Report) (message : String) : Script Unit := do
  if !report.quiet then report.stamped .primary message

/-- A number or another detail of the run. -/
def detail (report : Report) (label value : String) : Script Unit := do
  if !report.quiet then
    Script.say ("            " ++ report.palette.paint .label label ++ " "
      ++ report.palette.paint .value value)

def loading (report : Report) (version path : String) : Script Unit := do
  report.step ("Loading " ++ version ++ " from: " ++ path)
  if report.verbose then report.detail "Format:" (DocumentFormat.ofPath path).name

def building (report : Report) (versions : Nat) : Script Unit :=
  report.step
    (if versions = 1 then "Building the model..."
    else "Building the models of " ++ Nat.repr versions ++ " API versions...")

def cycles (report : Report) (s : Statistics) : Script Unit := do
  if s.cyclesDetected = 0 then return
  report.detail "Cycles:" (Nat.repr s.cyclesDetected)
  if report.verbose then
    s.cycles.zipIdx.forM fun (cycle, i) =>
      Script.say ("              "
        ++ report.palette.paint .accent ("Cycle " ++ Nat.repr (i + 1)) ++ ": "
        ++ report.palette.paint .info (" -> ".intercalate cycle))

/-- Tells of the warnings: what was left out, and the others only in a verbose run. -/
def warnings (report : Report) (warnings : List Warning) : Script Unit := do
  let told := warnings.filter fun warning => warning.isSkipped || report.verbose
  if told.isEmpty then return
  Script.say ""
  told.forM fun warning =>
    Script.warn (report.palette.paint .accent (if warning.isSkipped then "Skipped:" else "Warning:")
      ++ " " ++ report.palette.paint .primary warning.message)

def statistics (report : Report) (s : Statistics) : Script Unit := do
  if report.quiet then return
  report.detail "API versions:" (Nat.repr s.versions)
  report.detail "API groups:" (Nat.repr s.groups)
  report.detail "Operations:" (Nat.repr s.operations)
  report.detail "Models:" (Nat.repr s.models)
  report.detail "" (Nat.repr s.objects ++ " objects")
  report.detail "" (Nat.repr s.enums ++ " enums")
  report.detail "" (Nat.repr s.unions ++ " unions")
  if 0 < s.listWrappers then report.detail "" (Nat.repr s.listWrappers ++ " list wrappers")
  if !s.warnings.isEmpty then report.detail "Warnings:" (Nat.repr s.warnings.length)
  report.cycles s
  report.warnings s.warnings

def success (report : Report) : Script Unit := do
  if !report.quiet then
    Script.say ""
    report.stamped .success "Successfully generated the manifest"

end Report

namespace GenerateCommand

/-- The file that the manifest is written to. -/
def manifestPath (command : GenerateCommand) : String :=
  PathName.join command.output manifestName

def load (report : Report) (path : String) : Script SpecInput := do
  let version ← Script.demand LoadFault.chain (apiVersion path)
  let bytes ← Script.bytes path (.notOpened path)
  report.loading version path
  let value ← Script.demand LoadFault.chain (readDocument path bytes)
  return { version, path, value }

def write (command : GenerateCommand) (manifest : Manifest) : Script Unit := do
  .createDirectory command.output
    (Script.demand fun fault => ["failed to create " ++ command.output, fault.message])
  .writeFile command.manifestPath (manifest.toJson.pretty ++ "\n")
    (Script.demand fun fault => ["failed to write " ++ command.manifestPath, fault.message])

def script [Spelling] (command : GenerateCommand) (palette : Palette) : Script Unit := do
  let report : Report := ⟨palette, command.verbose, command.quiet⟩
  let settings ← Script.settings command.config
  let inputs ← command.inputs.mapM (load report)
  report.building inputs.length
  let generator : Generator := ⟨settings, command.allSchemas⟩
  let generated ← Script.demand GenerationError.chain (generator.all inputs)
  report.statistics generated.statistics
  report.step ("Writing to: " ++ command.manifestPath)
  command.write generated.manifest
  report.success

end GenerateCommand

end OpenApiManifest.CommandLine
