import Mathlib.Data.List.Nodup
import Mathlib.Data.List.Perm.Basic
import OpenApiManifest.Proofs.Manifest.Tally
import OpenApiManifest.Proofs.Runs

/-!
# Versions in any order

Versions may be completed in any order.  What is gathered from them is the same in all orders: the
manifests that each version has on its own, in the order of the inputs, and the counts of what they hold
(`Generator.gather_of_perm`).
-/

namespace OpenApiManifest

/-- A list that is sorted by distinct keys is what sorting any permutation of it gives. -/
lemma mergeSort_of_perm {α : Type} (key : α → Nat) {values sorted : List α}
    (h : values.Perm sorted) (increasing : sorted.Pairwise fun a b => key a < key b) :
    values.mergeSort (fun a b => decide (key a ≤ key b)) = sorted := by
  have perm := (List.mergeSort_perm values fun a b => decide (key a ≤ key b)).trans h
  have ascending : (values.mergeSort fun a b => decide (key a ≤ key b)).Pairwise
      fun a b => key a ≤ key b := by
    refine (List.pairwise_mergeSort ?_ ?_ values).imp of_decide_eq_true
    · intro a b c hab hbc
      exact decide_eq_true (Nat.le_trans (of_decide_eq_true hab) (of_decide_eq_true hbc))
    · intro a b
      simpa using Nat.le_total (key a) (key b)
  refine List.Perm.eq_of_pairwise ?_ ascending (increasing.imp Nat.le_of_lt) perm
  -- Members with the same key are the same, as the keys of the sorted list are distinct.
  intro a b ha hb hab hba
  have injective : ∀ a ∈ sorted, ∀ b ∈ sorted, key a = key b → a = b :=
    List.inj_on_of_nodup_map (List.pairwise_map.2 (increasing.imp Nat.ne_of_lt))
  exact injective a (perm.mem_iff.1 ha) b hb (Nat.le_antisymm hab hba)

namespace Generator

/-- No version is repeated if the versions are distinct and none was seen before. -/
lemma repeated?_eq_none_iff {seen : List String} {inputs : List SpecInput} :
    repeated? seen inputs = none ↔
      (inputs.map SpecInput.version).Nodup ∧ ∀ input ∈ inputs, input.version ∉ seen := by
  induction inputs generalizing seen with
  | nil => simp [repeated?]
  | cons input rest ih =>
    have apart : (∀ other ∈ rest, other.version ∉ input.version :: seen) ↔
        input.version ∉ rest.map SpecInput.version ∧ ∀ other ∈ rest, other.version ∉ seen := by
      simp only [List.mem_cons, not_or, forall_and, List.mem_map, not_exists, not_and]
    rw [repeated?]
    split
    · rename_i known
      simp [known]
    · rename_i fresh
      rw [ih, apart, List.map_cons, List.nodup_cons, List.forall_mem_cons]
      tauto

/-- Versions are gathered if they are distinct and can be put together. -/
lemma gather_eq_ok_iff {inputs : List SpecInput} {completions : List Completion} {result : Generated} :
    gather inputs completions = .ok result ↔
      (inputs.map SpecInput.version).Nodup ∧ assemble completions = .ok result := by
  have distinct : repeated? [] inputs = none ↔ (inputs.map SpecInput.version).Nodup := by
    simp [repeated?_eq_none_iff]
  rw [← distinct, gather]
  cases repeated? [] inputs with
  | none => simp
  | some input => simp

/-- The place, the name and the outcome of a version that is completed. -/
def Completion.Gives (completion : Completion)
    (entry : Nat × String × VersionManifest × Statistics) : Prop :=
  entry.1 = completion.index ∧ entry.2.1 = completion.version ∧
    completion.outcome = .ok entry.2.2

/-- What is generated from some versions, in the order of the list. -/
def generated (versions : Entries (VersionManifest × Statistics)) : Generated :=
  versions.foldl (fun generated entry => addVersion generated entry.1 entry.2) ⟨⟨[]⟩, .none⟩

/-- Versions that are completed in any order are put together in the order of their places. -/
lemma assemble_eq_ok_iff {completions ordered : List Completion} (any : completions.Perm ordered)
    (increasing : ordered.Pairwise fun a b => a.index < b.index) {result : Generated} :
    assemble completions = .ok result ↔
      ∃ entries, List.Forall₂ Completion.Gives ordered entries ∧
        result = generated (entries.map Prod.snd) := by
  have gives : ∀ (completion : Completion) entry,
      (do return (completion.index, completion.version, ← completion.outcome)) = .ok entry ↔
        completion.Gives entry := by
    rintro completion ⟨index, name, outcome⟩
    simp only [bind_eq_ok, pure_eq_ok, Completion.Gives, Prod.mk.injEq]
    constructor
    · rintro ⟨_, h, rfl, rfl, rfl⟩
      exact ⟨rfl, rfl, h⟩
    · rintro ⟨rfl, rfl, h⟩
      exact ⟨_, h, rfl, rfl, rfl⟩
  -- Sorting undoes the order of arrival, since the places of the inputs are distinct.
  have sorted : ∀ {versions entries : List (Nat × String × VersionManifest × Statistics)},
      List.Forall₂ Completion.Gives ordered entries → versions.Perm entries →
        versions.mergeSort (fun a b => decide (a.1 ≤ b.1)) = entries := by
    intro versions entries h perm
    have places := map_eq_of_forall₂ Completion.index Prod.fst (fun _ _ gives => gives.1.symm) h
    refine mergeSort_of_perm Prod.fst perm (List.pairwise_map.1 ?_)
    rw [← places]
    exact List.pairwise_map.2 increasing
  constructor
  · intro h
    obtain ⟨versions, hv, h⟩ := bind_eq_ok.1 h
    have each := (mapM_eq_ok.1 hv).imp fun completion entry => (gives completion entry).1
    obtain ⟨entries, he, perm⟩ := List.perm_comp_forall₂ any.symm each
    refine ⟨entries, he, ?_⟩
    rw [← pure_eq_ok.1 h, sorted he perm.symm, generated, List.foldl_map]
  · rintro ⟨entries, he, rfl⟩
    obtain ⟨versions, each, perm⟩ := List.perm_comp_forall₂ any he
    have hv := mapM_eq_ok.2 (each.imp fun completion entry => (gives completion entry).2)
    refine bind_eq_ok.2 ⟨versions, hv, ?_⟩
    rw [sorted he perm, generated, List.foldl_map]
    rfl

/-- Adding a version under a new name adds its manifest at the end, and counts what it holds. -/
lemma addVersion_tally {before : Generated} {warnings : List Warning} {name : String}
    {version : VersionManifest × Statistics} (fresh : name ∉ before.manifest.versions.keys)
    (counted : before.statistics = before.manifest.tally warnings)
    (own : version.2 = .counting 1 version.1.apis version.1.models.values version.1.cycles
      version.2.warnings) :
    (addVersion before name version).manifest.versions =
        before.manifest.versions ++ [(name, version.1)] ∧
      (addVersion before name version).statistics =
        (addVersion before name version).manifest.tally (warnings ++ version.2.warnings) := by
  have versions : (addVersion before name version).manifest.versions =
      before.manifest.versions ++ [(name, version.1)] := Entries.put_of_not_mem fresh
  refine ⟨versions, ?_⟩
  calc (addVersion before name version).statistics
      = before.statistics.merge version.2 := rfl
    _ = (addVersion before name version).manifest.tally (warnings ++ version.2.warnings) := by
      rw [counted, own, Manifest.tally, Statistics.merge_counting, Manifest.tally, versions]
      simp [Entries.values, Statistics.counting]

/-- What is generated from versions with distinct names are their manifests in the same order, and the
counts of what they hold. -/
lemma generated_tally {versions : Entries (VersionManifest × Statistics)}
    (distinct : versions.keys.Nodup)
    (own : ∀ entry ∈ versions, entry.2.2 = .counting 1 entry.2.1.apis entry.2.1.models.values
      entry.2.1.cycles entry.2.2.warnings) :
    (generated versions).manifest.versions = versions.map (fun entry => (entry.1, entry.2.1)) ∧
      (generated versions).statistics = (generated versions).manifest.tally
        (versions.flatMap fun entry => entry.2.2.warnings) := by
  induction versions using List.reverseRecOn with
  | nil => exact ⟨rfl, rfl⟩
  | append_singleton rest entry ih =>
    obtain ⟨name, version⟩ := entry
    rw [Entries.keys, List.map_append, List.nodup_append] at distinct
    obtain ⟨nodup, -, apart⟩ := distinct
    obtain ⟨before, counted⟩ := ih nodup fun entry he => own entry (List.mem_append_left _ he)
    have fresh : name ∉ (generated rest).manifest.versions.keys := by
      rw [before, Entries.keys, List.map_map]
      exact fun h => apart name h name (List.mem_singleton_self name) rfl
    have last := own (name, version) (List.mem_append_right _ (List.mem_singleton_self _))
    have step := addVersion_tally fresh counted last
    have e : generated (rest ++ [(name, version)]) = addVersion (generated rest) name version := by
      rw [generated, List.foldl_append]
      rfl
    rw [e, step.1, step.2, before]
    simp

section Spelled

variable [Spelling]

section Inputs

variable {generator : Generator} {inputs : List SpecInput}

/-- The outcome of a completed version is the one that the version has on its own. -/
lemma complete_gives {index : Nat} {input : SpecInput}
    {entry : Nat × String × VersionManifest × Statistics} :
    (generator.complete index input).Gives entry ↔ entry.1 = index ∧ entry.2.1 = input.version ∧
      generator.version input.version input.value = .ok entry.2.2 := by
  have outcome : (generator.complete index input).outcome = .ok entry.2.2 ↔
      generator.version input.version input.value = .ok entry.2.2 := by
    rw [complete]
    cases generator.version input.version input.value with
    | error halt => exact ⟨nofun, nofun⟩
    | ok own => exact ⟨fun h => by cases h; rfl, fun h => by cases h; rfl⟩
  rw [Completion.Gives, outcome]
  rfl

/-- The inputs have their places in the order in which they are given. -/
lemma complete_increasing : (inputs.mapIdx generator.complete).Pairwise fun a b => a.index < b.index := by
  have places : (inputs.mapIdx generator.complete).map Completion.index =
      List.range' 0 inputs.length := by
    rw [List.mapIdx_eq_zipIdx_map, List.map_map, ← List.zipIdx_map_snd]
    rfl
  refine List.pairwise_map.1 ?_
  rw [places]
  exact List.pairwise_lt_range' 1

/-- What the completed versions give are the names and the outcomes of the inputs. -/
lemma forall₂_of_complete {entries : List (Nat × String × VersionManifest × Statistics)}
    (h : List.Forall₂ Completion.Gives (inputs.mapIdx generator.complete) entries) :
    List.Forall₂ (fun input entry => entry.1 = input.version ∧
      generator.version input.version input.value = .ok entry.2) inputs (entries.map Prod.snd) := by
  rw [List.mapIdx_eq_zipIdx_map, List.forall₂_map_left_iff] at h
  rw [← List.zipIdx_map_fst 0 inputs, List.forall₂_map_left_iff, List.forall₂_map_right_iff]
  exact h.imp fun _ _ gives => (complete_gives.1 gives).2

/-- There is something to gather exactly if the versions are distinct and each is generated. -/
lemma exists_gather_iff {completions : List Completion}
    (any : completions.Perm (inputs.mapIdx generator.complete)) :
    (∃ result, gather inputs completions = .ok result) ↔
      (inputs.map SpecInput.version).Nodup ∧
        ∀ input ∈ inputs, ∃ outcome, generator.version input.version input.value = .ok outcome := by
  have assembled : (∃ result, assemble completions = .ok result) ↔
      ∀ input ∈ inputs, ∃ outcome, generator.version input.version input.value = .ok outcome := by
    simp only [assemble_eq_ok_iff any complete_increasing]
    constructor
    · rintro ⟨_, entries, h, rfl⟩ input hi
      obtain ⟨entry, -, ok⟩ := exists_forall₂_iff.1 ⟨_, forall₂_of_complete h⟩ input hi
      exact ⟨entry.2, ok⟩
    · intro each
      have gives : ∀ completion ∈ inputs.mapIdx generator.complete, ∃ entry,
          completion.Gives entry := by
        intro completion hm
        obtain ⟨index, hi, rfl⟩ := List.mem_mapIdx.1 hm
        obtain ⟨outcome, ok⟩ := each _ (List.getElem_mem hi)
        exact ⟨(index, _, outcome), complete_gives.2 ⟨rfl, rfl, ok⟩⟩
      obtain ⟨entries, h⟩ := exists_forall₂_iff.2 gives
      exact ⟨_, entries, h, rfl⟩
  rw [← assembled]
  constructor
  · rintro ⟨result, h⟩
    obtain ⟨distinct, h⟩ := gather_eq_ok_iff.1 h
    exact ⟨distinct, result, h⟩
  · rintro ⟨distinct, result, h⟩
    exact ⟨result, gather_eq_ok_iff.2 ⟨distinct, h⟩⟩

/-- What is gathered is generated from versions with the distinct names and the outcomes of the
inputs. -/
lemma exists_versions_of_gather {completions : List Completion} {result : Generated}
    (any : completions.Perm (inputs.mapIdx generator.complete))
    (h : gather inputs completions = .ok result) :
    ∃ versions : Entries (VersionManifest × Statistics), versions.keys.Nodup ∧
      List.Forall₂ (fun input entry => entry.1 = input.version ∧
        generator.version input.version input.value = .ok entry.2) inputs versions ∧
      result = generated versions := by
  obtain ⟨distinct, h⟩ := gather_eq_ok_iff.1 h
  obtain ⟨entries, gives, rfl⟩ := (assemble_eq_ok_iff any complete_increasing).1 h
  have each := forall₂_of_complete gives
  have names : inputs.map SpecInput.version = Entries.keys (entries.map Prod.snd) :=
    map_eq_of_forall₂ _ _ (fun _ _ own => own.1.symm) each
  exact ⟨entries.map Prod.snd, names ▸ distinct, each, rfl⟩

end Inputs

/-- Several versions are generated, in whatever order they are completed, exactly if they are distinct
and each of them is generated on its own.  The manifest then lists them in the order of the inputs, each
with the manifest that it has on its own.  The warnings and the cycles of all versions stand in that
order, and the statistics count what the manifest holds. -/
theorem gather_of_perm (generator : Generator) (inputs : List SpecInput)
    {completions : List Completion} (any : completions.Perm (inputs.mapIdx generator.complete)) :
    ((∃ result, gather inputs completions = .ok result) ↔
        (inputs.map SpecInput.version).Nodup ∧
          ∀ input ∈ inputs, ∃ outcome, generator.version input.version input.value = .ok outcome) ∧
      ∀ result, gather inputs completions = .ok result →
        ∃ versions : Entries (VersionManifest × Statistics),
          List.Forall₂ (fun input entry => entry.1 = input.version ∧
            generator.version input.version input.value = .ok entry.2) inputs versions ∧
          result.manifest.versions = versions.map (fun entry => (entry.1, entry.2.1)) ∧
          result.statistics = result.manifest.tally (versions.flatMap fun entry => entry.2.2.warnings) ∧
          result.statistics.cycles = versions.flatMap fun entry => entry.2.2.cycles := by
  refine ⟨exists_gather_iff any, fun result h => ?_⟩
  obtain ⟨versions, distinct, each, rfl⟩ := exists_versions_of_gather any h
  -- What is counted for a version is counted again in its manifest.
  have counted : ∀ entry ∈ versions, entry.2.2 = .counting 1 entry.2.1.apis
      entry.2.1.models.values entry.2.1.cycles entry.2.2.warnings := by
    intro entry hm
    obtain ⟨input, -, ok⟩ := exists_forall₂_iff.1 ⟨inputs, each.flip⟩ entry hm
    exact version_counting ok
  obtain ⟨manifests, tallied⟩ := generated_tally distinct counted
  refine ⟨versions, each, manifests, tallied, ?_⟩
  calc (generated versions).statistics.cycles
      = (generated versions).manifest.versions.values.flatMap VersionManifest.cycles := by
        rw [tallied]
        rfl
    _ = versions.flatMap fun entry => entry.2.1.cycles := by
        rw [manifests, Entries.values, List.map_map, List.flatMap_map]
        rfl
    _ = versions.flatMap fun entry => entry.2.2.cycles :=
        List.flatMap_congr fun entry hm => (congrArg Statistics.cycles (counted entry hm)).symm

end Spelled

attribute [local instance] Spelling.german

/-- A description of one operation that answers with an object, which holds itself. -/
def chainTree (title : String) : Json :=
  .obj [
    ("openapi", .str "3.0.0"),
    ("info", .obj [("title", .str title), ("version", .str "1")]),
    ("paths", .obj [("/first", .obj [("get", .obj [("responses", .obj [("200",
      .obj [("content", .obj [("application/json", .obj [("schema",
        .obj [("$ref", .str "#/components/schemas/Link")])])])])])])])]),
    ("components", .obj [("schemas", .obj [
      ("Link", .obj [("properties", .obj [("next",
        .obj [("$ref", .str "#/components/schemas/Link")])])])])])]

/-- Two descriptions, as they are given. -/
def chainInputs : List SpecInput :=
  [⟨"v2", "v2.json", chainTree "second"⟩, ⟨"v1", "v1.json", chainTree "first"⟩]

/-- Two versions that are completed the other way round are listed in the order of the inputs. -/
theorem gather_of_perm_reversed :
    (chainInputs.mapIdx (complete ⟨.standard, false⟩)).reverse.Perm
        (chainInputs.mapIdx (complete ⟨.standard, false⟩)) ∧
      ∃ result, gather chainInputs (chainInputs.mapIdx (complete ⟨.standard, false⟩)).reverse =
          .ok result ∧
        result.manifest.versions.map (fun entry => (entry.1, entry.2.info.title)) =
          [("v2", "second"), ("v1", "first")] ∧
        result.statistics.cycles = [["Link"], ["Link"]] := by
  have second : (Generator.version ⟨.standard, false⟩ "v2" (chainTree "second")).toOption.map
      (fun outcome => (outcome.1.info.title, outcome.2.cycles)) = some ("second", [["Link"]]) := by
    decide +kernel
  have first : (Generator.version ⟨.standard, false⟩ "v1" (chainTree "first")).toOption.map
      (fun outcome => (outcome.1.info.title, outcome.2.cycles)) = some ("first", [["Link"]]) := by
    decide +kernel
  obtain ⟨outcome₂, found₂, own₂⟩ := Option.map_eq_some_iff.1 second
  obtain ⟨outcome₁, found₁, own₁⟩ := Option.map_eq_some_iff.1 first
  have ok₂ := toOption_eq_some.1 found₂
  have ok₁ := toOption_eq_some.1 found₁
  have any := List.reverse_perm (chainInputs.mapIdx (complete ⟨.standard, false⟩))
  obtain ⟨succeeds, gathered⟩ := gather_of_perm ⟨.standard, false⟩ chainInputs any
  have each : ∀ input ∈ chainInputs, ∃ outcome,
      Generator.version ⟨.standard, false⟩ input.version input.value = .ok outcome :=
    List.forall_mem_cons.2 ⟨⟨outcome₂, ok₂⟩, List.forall_mem_cons.2 ⟨⟨outcome₁, ok₁⟩, nofun⟩⟩
  obtain ⟨result, ok⟩ := succeeds.2 ⟨by decide, each⟩
  obtain ⟨versions, outcomes, manifests, -, cycles⟩ := gathered result ok
  refine ⟨any, result, ok, ?_⟩
  rw [manifests, cycles]
  obtain ⟨⟨_, _⟩, others, ⟨rfl, ok₂'⟩, later, rfl⟩ := List.forall₂_cons_left_iff.1 outcomes
  obtain ⟨⟨_, _⟩, nothing, ⟨rfl, ok₁'⟩, last, rfl⟩ := List.forall₂_cons_left_iff.1 later
  obtain rfl := List.forall₂_nil_left_iff.1 last
  obtain rfl := Except.ok.inj (ok₂.symm.trans ok₂')
  obtain rfl := Except.ok.inj (ok₁.symm.trans ok₁')
  obtain ⟨title₂, cycles₂⟩ := Prod.mk.inj own₂
  obtain ⟨title₁, cycles₁⟩ := Prod.mk.inj own₁
  simp [title₂, cycles₂, title₁, cycles₁]

end Generator

end OpenApiManifest
