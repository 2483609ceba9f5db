import Mathlib.Data.List.Nodup
import Mathlib.Data.List.Perm.Basic
import OpenApiManifest.Manifest.Builder
import OpenApiManifest.Proofs.Runs

/-!
# Groups of operations

The operations of a document are told apart by their first tags: a group has all operations with its tag,
in their order, and the groups stand in the order in which their tags are first met
(`Document.operationGroups_eq`).  So each operation is in one group (`Document.operationGroups_perm`), and
the groups are described one after the other (`Builder.exists_groups_of_apis`).
-/

namespace OpenApiManifest

section Lists

variable {α β : Type}

/-- A value that is added at the end stays there if it is new. -/
lemma eraseDups_concat [BEq β] [LawfulBEq β] (values : List β) (value : β) :
    (values ++ [value]).eraseDups =
      if value ∈ values.eraseDups then values.eraseDups else values.eraseDups ++ [value] := by
  rw [List.eraseDups_append]
  by_cases known : value ∈ values
  · simp [List.removeAll, known]
  · simp [List.removeAll, known, List.eraseDups_cons]

/-- Nothing is repeated once repetitions are dropped. -/
lemma nodup_eraseDups [BEq β] [LawfulBEq β] (values : List β) : values.eraseDups.Nodup := by
  induction values using List.reverseRecOn with
  | nil => exact List.nodup_nil
  | append_singleton rest value ih =>
    rw [eraseDups_concat]
    split
    case isTrue => exact ih
    case isFalse fresh =>
      refine List.nodup_append.2 ⟨ih, List.nodup_singleton value, ?_⟩
      rintro other ho _ hv rfl
      exact fresh (List.mem_singleton.1 hv ▸ ho)

/-- Values that are told apart by their keys are all there, each under its own key. -/
lemma flatMap_filter_perm [DecidableEq β] (key : α → β) {keys : List β} (distinct : keys.Nodup) {values : List α}
    (covered : ∀ value ∈ values, key value ∈ keys) :
    (keys.flatMap fun own => values.filter fun value => decide (key value = own)).Perm values := by
  induction keys generalizing values with
  | nil =>
    cases values with
    | nil => exact .nil
    | cons value rest => cases covered value List.mem_cons_self
  | cons first others ih =>
    obtain ⟨absent, distinct⟩ := List.nodup_cons.1 distinct
    have rest : ∀ value ∈ values.filter fun value => !decide (key value = first), key value ∈ others := by
      intro value hv
      obtain ⟨hv, ne⟩ := List.mem_filter.1 hv
      exact List.mem_of_ne_of_mem (by simpa using ne) (covered value hv)
    have same : ∀ own ∈ others,
        ((values.filter fun value => !decide (key value = first)).filter fun value =>
          decide (key value = own)) = values.filter fun value => decide (key value = own) := by
      intro own ho
      rw [List.filter_filter]
      refine List.filter_congr fun value _ => ?_
      by_cases e : key value = own
      · have ne : key value ≠ first := fun e' => absent (e'.symm.trans e ▸ ho)
        simp [e, e ▸ ne]
      · simp [e]
    rw [List.flatMap_cons, ← List.flatMap_congr same]
    exact ((ih distinct rest).append_left _).trans (List.filter_append_perm _ values)

end Lists

namespace Document

/-- Some operations by tag: under each tag, in the order in which tags are first met, those that have
it. -/
def grouped (entries : List OperationEntry) : List (Option String × List OperationEntry) :=
  (entries.map OperationEntry.group).eraseDups.map fun tag =>
    (tag, entries.filter fun entry => decide (entry.group = tag))

/-- An operation is added to the group of its tag, or starts one at the end. -/
lemma addToGroup_map {entry : OperationEntry} {tags : List (Option String)} (distinct : tags.Nodup)
    (members : Option String → List OperationEntry)
    (fresh : entry.group ∉ tags → members entry.group = []) :
    addToGroup entry (tags.map fun tag => (tag, members tag)) =
      (if entry.group ∈ tags then tags else tags ++ [entry.group]).map fun tag =>
        (tag, if entry.group = tag then members tag ++ [entry] else members tag) := by
  induction tags with
  | nil => simp [addToGroup, fresh List.not_mem_nil]
  | cons tag rest ih =>
    obtain ⟨absent, distinct⟩ := List.nodup_cons.1 distinct
    rw [List.map_cons, addToGroup]
    by_cases own : tag = entry.group
    · subst own
      have others : ∀ other ∈ rest, entry.group ≠ other := fun other ho e => absent (e ▸ ho)
      rw [if_pos rfl, if_pos List.mem_cons_self, List.map_cons, if_pos rfl]
      exact congrArg _ (List.map_congr_left fun other ho => by rw [if_neg (others other ho)])
    · have ne : entry.group ≠ tag := Ne.symm own
      have known : entry.group ∈ tag :: rest ↔ entry.group ∈ rest := by simp [ne]
      rw [if_neg own, ih distinct fun h => fresh (known.not.2 h)]
      by_cases h : entry.group ∈ rest <;> simp [h, ne]

/-- The groups of a document are its operations by tag. -/
theorem operationGroups_eq (document : Document) :
    document.operationGroups = grouped document.operations := by
  unfold operationGroups
  induction document.operations using List.reverseRecOn with
  | nil => rfl
  | append_singleton entries entry ih =>
    have fresh : entry.group ∉ (entries.map OperationEntry.group).eraseDups →
        (entries.filter fun other => decide (other.group = entry.group)) = [] := by
      intro absent
      rw [List.filter_eq_nil_iff]
      intro other ho same
      exact absent (List.mem_eraseDups.2 (List.mem_map.2 ⟨other, ho, of_decide_eq_true same⟩))
    rw [List.foldl_append, List.foldl_cons, List.foldl_nil, ih, grouped,
      addToGroup_map (nodup_eraseDups _) _ fresh, grouped, List.map_append, List.map_singleton,
      eraseDups_concat]
    refine List.map_congr_left fun tag _ => ?_
    by_cases own : entry.group = tag <;> simp [own]

/-- Each operation is in one group. -/
theorem operationGroups_perm (document : Document) :
    (document.operationGroups.flatMap Prod.snd).Perm document.operations := by
  rw [operationGroups_eq, grouped, List.flatMap_map]
  exact flatMap_filter_perm OperationEntry.group (nodup_eraseDups _) fun entry he =>
    List.mem_eraseDups.2 (List.mem_map_of_mem he)

/-- The operations of a group are operations of the document. -/
lemma mem_operations_of_group {document : Document} {tag : Option String}
    {entries : List OperationEntry} {entry : OperationEntry}
    (hg : (tag, entries) ∈ document.operationGroups) (he : entry ∈ entries) :
    entry ∈ document.operations :=
  document.operationGroups_perm.mem_iff.1 (List.mem_flatMap.2 ⟨_, hg, he⟩)

end Document

namespace Builder

variable {builder : Builder}

variable [Spelling]

/-- An operation is described with the parameters that a call takes, what it accepts and what it returns.
Warnings are about parameters without a schema, and about accepting anything. -/
structure DescribesOperation (builder : Builder) (entry : OperationEntry) (own : MethodEntry)
    (warnings : List Warning) : Prop where
  endpoint : own.path = entry.path ∧ own.method = entry.method
  operationId : own.operationId = entry.operationId
  parameters : ∃ parameters, (entry.effectiveParameters builder.document).result = .ok parameters ∧
    (parameters.mapM builder.parameter).result = .ok own.parameters
  accept : (entry.operation.accepted builder.document).result = .ok own.accept
  returns : ∀ type, own.returnType = some type → ∃ slot,
    (entry.operation.returned builder.document).result = .ok (some slot) ∧
      (builder.mapper.slotType slot none).result = .ok type
  warned : ∃ missing, (builder.parameterWarnings entry.operationId
      (entry.item.parameters ++ entry.operation.parameters)).result = .ok missing ∧
    warnings = missing ++
      if own.accept = ["*/*"] then [.acceptsAnything builder.version entry.operationId] else []

/-- An operation that the builder gives is described by what is computed for the operation of the document.
-/
theorem describes_of_operation {entry : OperationEntry} {own : MethodEntry} {warnings : List Warning}
    (h : (builder.operation entry).result = .ok (own, warnings)) :
    builder.DescribesOperation entry own warnings := by
  obtain ⟨missing, hw, h⟩ := Run.bind_result_eq_ok.1 h
  obtain ⟨effective, he, h⟩ := Run.bind_result_eq_ok.1 h
  obtain ⟨parameters, hp, h⟩ := Run.bind_result_eq_ok.1 h
  obtain ⟨accept, ha, h⟩ := Run.bind_result_eq_ok.1 h
  obtain ⟨slot?, hs, h⟩ := Run.bind_result_eq_ok.1 h
  cases slot? with
  | none =>
    obtain ⟨returned, hr, h⟩ := Run.bind_result_eq_ok.1 h
    cases hr
    cases h
    exact ⟨⟨rfl, rfl⟩, rfl, ⟨effective, he, hp⟩, ha, nofun, missing, hw, rfl⟩
  | some slot =>
    obtain ⟨returned, hr, h⟩ := Run.bind_result_eq_ok.1 h
    cases h
    refine ⟨⟨rfl, rfl⟩, rfl, ⟨effective, he, hp⟩, ha, fun type ht => ⟨slot, hs, ?_⟩, missing, hw, rfl⟩
    obtain ⟨spelled, hv, rfl⟩ := Run.map_result_eq_ok.1 hr
    cases ht
    exact hv

/-- A group is described by its operations, each with the warnings about it. -/
structure DescribesGroup (builder : Builder) (group : Option String × List OperationEntry)
    (own : ApiEntry × List (MethodEntry × List Warning)) : Prop where
  tag : own.1.tag = group.1
  operations : own.1.operations = own.2.map Prod.fst
  each : List.Forall₂ (fun entry described => (builder.operation entry).result = .ok described)
    group.2 own.2

/-- A group that the builder gives is described operation by operation, with the warnings of all of them. -/
lemma exists_describesGroup_of_api {tag : Option String} {entries : List OperationEntry} {api : ApiEntry}
    {warnings : List Warning} (h : (builder.api tag entries).result = .ok (api, warnings)) :
    ∃ described, builder.DescribesGroup (tag, entries) (api, described) ∧
      warnings = described.flatMap Prod.snd := by
  obtain ⟨described, hd, h⟩ := Run.bind_result_eq_ok.1 h
  cases h
  exact ⟨described, ⟨rfl, rfl, Run.mapM_eq_ok.1 hd⟩, rfl⟩

/-- The groups of a document are described one after the other, with the warnings about them. -/
theorem exists_groups_of_apis {statistics after : Statistics} {apis : List ApiEntry}
    (h : (builder.apis statistics).result = .ok (apis, after)) :
    ∃ groups, List.Forall₂ builder.DescribesGroup builder.document.operationGroups groups ∧
      apis = groups.map Prod.fst ∧
      after.warnings = statistics.warnings ++ groups.flatMap fun own => own.2.flatMap Prod.snd := by
  refine Run.exists_of_foldlM builder.DescribesGroup (fun groups (state : List ApiEntry × Statistics) =>
    state.1 = groups.map Prod.fst ∧
      state.2.warnings = statistics.warnings ++ groups.flatMap fun own => own.2.flatMap Prod.snd)
    ⟨rfl, (List.append_nil _).symm⟩ ?_ h
  rintro groups ⟨before, counted⟩ ⟨tag, entries⟩ state ⟨rfl, warned⟩ step
  obtain ⟨⟨api, warnings⟩, ha, step⟩ := Run.bind_result_eq_ok.1 step
  obtain rfl := pure_eq_ok.1 step
  obtain ⟨described, hd, rfl⟩ := exists_describesGroup_of_api ha
  refine ⟨(api, described), hd, ?_, ?_⟩
  · rw [List.map_append, List.map_singleton]
  · rw [List.flatMap_append, List.flatMap_singleton, ← List.append_assoc, ← warned]
    rfl

/-- The operations that are described are those of the document, with the warnings about them. -/
theorem exists_described_of_apis {statistics after : Statistics} {apis : List ApiEntry}
    (h : (builder.apis statistics).result = .ok (apis, after)) :
    ∃ described : List (MethodEntry × List Warning),
      apis.flatMap ApiEntry.operations = described.map Prod.fst ∧
      after.warnings = statistics.warnings ++ described.flatMap Prod.snd ∧
      ∀ own ∈ described, ∃ entry ∈ builder.document.operations,
        (builder.operation entry).result = .ok own := by
  obtain ⟨groups, each, rfl, warned⟩ := exists_groups_of_apis h
  have operations : ∀ own ∈ groups, own.1.operations = own.2.map Prod.fst := by
    intro own ho
    obtain ⟨group, -, describes⟩ := exists_of_forall₂_right each ho
    exact describes.operations
  refine ⟨groups.flatMap Prod.snd, ?_, ?_, fun own ho => ?_⟩
  · rw [List.flatMap_map, List.map_flatMap]
    exact List.flatMap_congr operations
  · rw [warned, List.flatMap_assoc]
  · obtain ⟨api, ha, ho⟩ := List.mem_flatMap.1 ho
    obtain ⟨group, hg, describes⟩ := exists_of_forall₂_right each ha
    obtain ⟨entry, he, made⟩ := exists_of_forall₂_right describes.each ho
    exact ⟨entry, Document.mem_operations_of_group hg he, made⟩

end Builder

end OpenApiManifest
