import OpenApiManifest.Generation
import OpenApiManifest.Proofs.Runs

/-!
# What is counted

Statistics count the parts of what was described (`Statistics.counting`).  Each step of building a
manifest counts what it adds, so the statistics of a version are those of its manifest
(`Generator.version_counting`), and merging counts adds the parts up (`Statistics.merge_counting`).
-/

namespace OpenApiManifest

/-- The statistics of some versions with all their groups, models and cycles, and the warnings about
them. -/
def Statistics.counting (versions : Nat) (apis : List ApiEntry) (models : List ModelEntry)
    (cycles : List (List String)) (warnings : List Warning) : Statistics where
  versions
  operations := (apis.flatMap ApiEntry.operations).length
  groups := apis.length
  models := models.length
  objects := models.countP fun model => model.kind = .object ∨ model.kind = .allOf
  enums := models.countP fun model => model.kind = .enum
  unions := models.countP fun model => model.kind = .oneOf
  listWrappers := models.countP fun model => model.kind = .array
  cyclesDetected := cycles.length
  cycles
  warnings

/-- The statistics of a manifest, with the warnings about it. -/
def Manifest.tally (manifest : Manifest) (warnings : List Warning) : Statistics :=
  .counting manifest.versions.length
    (manifest.versions.values.flatMap VersionManifest.apis)
    (manifest.versions.values.flatMap fun version => version.models.values)
    (manifest.versions.values.flatMap VersionManifest.cycles) warnings

namespace Statistics

variable {versions : Nat} {apis : List ApiEntry} {models : List ModelEntry}
  {cycles : List (List String)} {warnings : List Warning}

/-- A version without anything in it is counted as one version. -/
lemma countVersion_none : none.countVersion = counting 1 [] [] [] [] := rfl

/-- Warning adds to the warnings that are counted. -/
lemma warn_counting (more : List Warning) :
    (counting versions apis models cycles warnings).warn more =
      counting versions apis models cycles (warnings ++ more) := rfl

/-- Counting a group counts its operations. -/
lemma countGroup_counting (api : ApiEntry) :
    (counting versions apis models cycles warnings).countGroup api.operations.length =
      counting versions (apis ++ [api]) models cycles warnings := by
  simp [counting, countGroup]

/-- Counting a model counts it among those of its kind. -/
lemma countModel_counting (model : ModelEntry) :
    (counting versions apis models cycles warnings).countModel model.kind =
      counting versions apis (models ++ [model]) cycles warnings := by
  cases hk : model.kind <;> simp [counting, countModel, List.countP_append, hk]

/-- Adding cycles adds to the cycles that are counted. -/
lemma addCycles_counting (more : List (List String)) :
    (counting versions apis models cycles warnings).addCycles more =
      counting versions apis models (cycles ++ more) warnings := by
  simp [counting, addCycles]

/-- Merging the counts of some parts and of others counts all of them. -/
lemma merge_counting {versions' : Nat} {apis' : List ApiEntry} {models' : List ModelEntry}
    {cycles' : List (List String)} {warnings' : List Warning} :
    (counting versions apis models cycles warnings).merge
        (counting versions' apis' models' cycles' warnings') =
      counting (versions + versions') (apis ++ apis') (models ++ models') (cycles ++ cycles')
        (warnings ++ warnings') := by
  simp [counting, merge, List.countP_append]

end Statistics

variable [Spelling]

namespace Builder

variable {builder : Builder} {statistics after : Statistics}

/-- Describing the groups of a document counts them. -/
lemma apis_counting {apis : List ApiEntry}
    (h : (builder.apis Statistics.none.countVersion).result = .ok (apis, after)) :
    ∃ warnings, after = .counting 1 apis [] [] warnings := by
  refine Run.foldlM_keeps
    (fun described => ∃ warnings, described.2 = .counting 1 described.1 [] [] warnings) ?_ ?_ h
  · exact ⟨[], Statistics.countVersion_none⟩
  · rintro ⟨before, counted⟩ ⟨group, entries⟩ described - ⟨warnings, e⟩ h
    obtain ⟨⟨api, more⟩, -, h⟩ := Run.bind_result_eq_ok.1 h
    obtain rfl := pure_eq_ok.1 h
    dsimp only at e
    refine ⟨warnings ++ more, ?_⟩
    rw [e, Statistics.warn_counting, Statistics.countGroup_counting]

/-- Describing the models of a registry counts them. -/
lemma models_counting {registry : Registry} {apis : List ApiEntry} {warnings : List Warning}
    {models : Entries ModelEntry}
    (h : (builder.models registry (.counting 1 apis [] [] warnings)).result = .ok (models, after)) :
    ∃ more, after = .counting 1 apis models.values [] more := by
  refine Run.foldlM_keeps
    (fun described => ∃ more, described.2 = .counting 1 apis described.1.values [] more) ?_ ?_ h
  · exact ⟨warnings, rfl⟩
  · rintro ⟨before, counted⟩ ⟨name, registered⟩ described - ⟨earlier, e⟩ h
    obtain ⟨⟨model, more⟩, -, h⟩ := Run.bind_result_eq_ok.1 h
    obtain rfl := pure_eq_ok.1 h
    dsimp only at e
    have values : Entries.values (before ++ [(name, model)]) = before.values ++ [model] := by
      simp [Entries.values]
    refine ⟨earlier ++ more, ?_⟩
    rw [e, Statistics.countModel_counting, Statistics.warn_counting, values]

/-- A manifest is built if the groups of its document and then its models are described. -/
lemma build_eq_ok_iff {registry : Registry} {cycles : List (List String)} {manifest : VersionManifest} :
    (builder.build registry cycles).result = .ok (manifest, statistics) ↔
      ∃ counted after, (builder.apis Statistics.none.countVersion).result = .ok (manifest.apis, counted) ∧
        (builder.models registry counted).result = .ok (manifest.models, after) ∧
        (manifest.info = builder.document.info ∧ manifest.servers = builder.document.servers ∧
          manifest.cycles = cycles) ∧
        statistics = after.addCycles cycles := by
  constructor
  · intro h
    obtain ⟨⟨apis, counted⟩, ha, h⟩ := Run.bind_result_eq_ok.1 h
    obtain ⟨⟨models, after⟩, hm, h⟩ := Run.bind_result_eq_ok.1 h
    obtain ⟨rfl, rfl⟩ := Prod.mk.inj (pure_eq_ok.1 h)
    exact ⟨counted, after, ha, hm, ⟨rfl, rfl, rfl⟩, rfl⟩
  · obtain ⟨info, servers, apis, models, own⟩ := manifest
    rintro ⟨counted, after, ha, hm, ⟨rfl, rfl, rfl⟩, rfl⟩
    exact Run.bind_result_eq_ok.2 ⟨_, ha, Run.bind_result_eq_ok.2 ⟨_, hm, rfl⟩⟩

/-- The statistics of a build count what the manifest holds. -/
lemma build_counting {registry : Registry} {cycles : List (List String)} {manifest : VersionManifest}
    (h : (builder.build registry cycles).result = .ok (manifest, statistics)) :
    statistics =
      .counting 1 manifest.apis manifest.models.values manifest.cycles statistics.warnings := by
  obtain ⟨counted, after, ha, hm, ⟨-, -, rfl⟩, rfl⟩ := build_eq_ok_iff.1 h
  obtain ⟨warnings, rfl⟩ := apis_counting ha
  obtain ⟨more, rfl⟩ := models_counting hm
  rw [Statistics.addCycles_counting]
  rfl

end Builder

namespace Generator

/-- The builder for a version of a document. -/
def builder (generator : Generator) (name : String) (document : Document) : Builder :=
  ⟨name, ⟨document, generator.settings.listModelsOf name⟩, generator.settings.reserved⟩

/-- A version is generated if its document is read, its models are collected, and its manifest is built
from them. -/
lemma version_eq_ok_iff {generator : Generator} {name : String} {value : Json}
    {outcome : VersionManifest × Statistics} :
    generator.version name value = .ok outcome ↔
      ∃ document, Document.read ⟨0⟩ value = .ok document ∧
        (generator.collect document .empty).result = .ok () ∧
        ((generator.builder name document).build
          ((generator.collect document .empty).registry.emitted (generator.settings.listModelsOf name))
          (Dependencies.ofDocument document).cycles).result = .ok outcome := by
  simp only [version, builder, bind_eq_ok]
  cases Document.read ⟨0⟩ value with
  | error cause =>
    constructor
    · rintro ⟨_, read, -⟩
      cases read
    · rintro ⟨_, read, -⟩
      cases read
  | ok document =>
    constructor
    · rintro ⟨_, read, ⟨⟩, collected, built⟩
      cases read
      exact ⟨document, rfl, collected, built⟩
    · rintro ⟨_, read, collected, built⟩
      cases read
      exact ⟨document, rfl, (), collected, built⟩

/-- The statistics of a version count what its manifest holds. -/
lemma version_counting {generator : Generator} {name : String} {value : Json}
    {manifest : VersionManifest} {statistics : Statistics}
    (h : generator.version name value = .ok (manifest, statistics)) :
    statistics =
      .counting 1 manifest.apis manifest.models.values manifest.cycles statistics.warnings := by
  obtain ⟨document, -, -, built⟩ := version_eq_ok_iff.1 h
  exact Builder.build_counting built

end Generator

end OpenApiManifest
