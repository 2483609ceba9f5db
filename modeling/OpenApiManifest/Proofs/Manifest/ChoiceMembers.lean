import OpenApiManifest.Proofs.Manifest.Choices

/-!
# The members of the choices inside a model

A search covers what it has left (`ChoiceSearch.Covers`): it knows the name of a schema with one, and of a
nameless schema it has the members and has covered all that it goes on to.  Names are known of schemas
that are complete only, so in the end every schema is complete to which the search comes
(`ChoiceSearch.completes_of_enter`).  The members of the choices inside a model are therefore those that
these choices contribute (`Schema.choiceMembers_exact`).
-/

namespace OpenApiManifest

namespace Mapper

variable (mapper : Mapper)

/-- What a member of a choice contributes: its own name if it is a model of the choice, and else that of
its items. -/
inductive MemberContributes (member : Schema) (name : String) : Prop
  | own : mapper.memberModel? member = some name → MemberContributes member name
  | items {items : SchemaSlot} {inner : Schema} :
    mapper.memberModel? member = none → member.items? = some items →
      (items.resolve mapper.document).result = .ok inner → inner.name? = some name →
      MemberContributes member name

/-- A choice contributes what its members contribute. -/
def Contributes (choice : Schema) (name : String) : Prop :=
  ∃ members, choice.kind = .oneOf members ∧ ∃ slot ∈ members, ∃ member,
    (slot.resolve mapper.document).result = .ok member ∧ mapper.MemberContributes member name

variable {mapper} {member : Schema} {name : String}

/-- A member is a model if it has a name, and is an object by its type or is listed. -/
lemma memberModel?_eq_some_iff :
    mapper.memberModel? member = some name ↔
      member.name? = some name ∧ (member.type?.getD .object = .object ∨ name ∈ mapper.listModels) := by
  unfold memberModel?
  cases member.name? with
  | none => exact ⟨nofun, nofun⟩
  | some own =>
    dsimp only
    split
    · rename_i model
      constructor
      · rintro ⟨⟩
        exact ⟨rfl, model⟩
      · rintro ⟨h, -⟩
        exact h
    · rename_i other
      constructor
      · nofun
      · rintro ⟨⟨⟩, model⟩
        exact absurd model other

end Mapper

namespace ChoiceSearch

variable {mapper : Mapper} {search before after found : ChoiceSearch} {schema : Schema}

/-- A member contributes a name exactly if the search takes it, where arrays are declared. -/
lemma memberContributes_iff {slot : SchemaSlot} {name? : Option String} {member : Schema}
    (h : (contribution mapper.document mapper.listModels slot).result = .ok name?)
    (hm : (slot.resolve mapper.document).result = .ok member)
    (array : ∀ items, member.items? = some items → member.type? = some .array) {name : String} :
    mapper.MemberContributes member name ↔ name? = some name := by
  obtain ⟨found, hf, h⟩ := Run.bind_result_eq_ok.1 h
  obtain rfl : found = member := Except.ok.inj (hf.symm.trans hm)
  -- What contributes is the member itself, if it is a model, and else the schema of its items.
  dsimp only at h
  split at h
  · rename_i model
    obtain rfl : found.name? = name? := Except.ok.inj h
    have named : ∀ own, found.name? = some own → mapper.memberModel? found = some own := by
      intro own ho
      refine Mapper.memberModel?_eq_some_iff.2 ⟨ho, ?_⟩
      simpa [ho] using model
    constructor
    · rintro (own | ⟨none, hi, -, -⟩)
      · exact (Mapper.memberModel?_eq_some_iff.1 own).1
      · -- What has items is no object, so that it is listed, and has a name.
        obtain ⟨own, ho, -⟩ : ∃ own, found.name? = some own ∧ own ∈ mapper.listModels := by
          simpa [array _ hi, Option.any_eq_true] using model
        cases none.symm.trans (named own ho)
    · exact fun own => .own (named name own)
  · rename_i other
    have none : mapper.memberModel? found = none := by
      by_contra some
      obtain ⟨own, ho⟩ := Option.ne_none_iff_exists'.1 some
      obtain ⟨ho, model⟩ := Mapper.memberModel?_eq_some_iff.1 ho
      exact other (by simpa [ho] using model)
    split at h
    · rename_i items hi
      obtain ⟨inner, hr, h⟩ := Run.bind_result_eq_ok.1 h
      obtain rfl : inner.name? = name? := Except.ok.inj h
      constructor
      · rintro (own | ⟨-, hi', hr', named⟩)
        · cases none.symm.trans own
        · cases hi.symm.trans hi'
          cases hr.symm.trans hr'
          exact named
      · exact fun named => .items none hi hr named
    · rename_i bare
      cases h
      constructor
      · rintro (own | ⟨-, hi, -, -⟩)
        · cases none.symm.trans own
        · cases bare.symm.trans hi
      · nofun

variable (mapper) in
/-- What a search knows of a schema that it has left: the name, or else all that the schema contributes,
and so of what it goes on to. -/
inductive Covers (search : ChoiceSearch) : Schema → Prop
  | entered {schema : Schema} {name : String} :
    schema.name? = some name → name ∈ search.entered → Covers search schema
  | nameless {schema : Schema} :
    schema.name? = none → (∀ name, mapper.Contributes schema name → name ∈ search.members) →
      (∀ inner, schema.Branches mapper.document inner → Covers search inner) → Covers search schema

variable (mapper) in
/-- A search has all that a schema contributes, and covers what it goes on to. -/
structure Completes (search : ChoiceSearch) (schema : Schema) : Prop where
  members : ∀ name, mapper.Contributes schema name → name ∈ search.members
  branches : ∀ inner, schema.Branches mapper.document inner → Covers mapper search inner

variable (mapper) in
/-- A search goes on: what is added to the names are those of schemas that are complete. -/
structure Grows (before after : ChoiceSearch) : Prop where
  entered : before.entered ⊆ after.entered
  members : before.members ⊆ after.members
  distinct : before.members.Nodup → after.members.Nodup
  completes : ∀ name ∈ after.entered, name ∉ before.entered →
    ∃ schema, mapper.document.Contains (.owned schema) ∧ schema.name? = some name ∧
      Completes mapper after schema

/-- What is covered stays covered when more is entered and more members are found. -/
lemma Covers.mono (h : Covers mapper before schema) (entered : before.entered ⊆ after.entered)
    (members : before.members ⊆ after.members) : Covers mapper after schema := by
  induction h with
  | entered named mem => exact .entered named (entered mem)
  | nameless none contributed _ ih =>
    exact .nameless none (fun name hn => members (contributed name hn)) ih

/-- What is complete stays complete when more is entered and more members are found. -/
lemma Completes.mono (h : Completes mapper before schema) (entered : before.entered ⊆ after.entered)
    (members : before.members ⊆ after.members) : Completes mapper after schema where
  members name hn := members (h.members name hn)
  branches inner hi := (h.branches inner hi).mono entered members

namespace Grows

/-- A search goes on even where it does nothing. -/
lemma refl (search : ChoiceSearch) : Grows mapper search search where
  entered := List.Subset.refl _
  members := List.Subset.refl _
  distinct := id
  completes _ mem other := absurd mem other

/-- A search goes on where it enters nothing and finds more members, each once. -/
lemma of_members (entered : after.entered = before.entered) (members : before.members ⊆ after.members)
    (distinct : before.members.Nodup → after.members.Nodup) : Grows mapper before after where
  entered := entered ▸ List.Subset.refl _
  members := members
  distinct := distinct
  completes _ mem other := absurd (entered ▸ mem) other

/-- A search that goes on twice goes on. -/
lemma trans {middle : ChoiceSearch} (first : Grows mapper before middle)
    (second : Grows mapper middle after) : Grows mapper before after where
  entered := List.Subset.trans first.entered second.entered
  members := List.Subset.trans first.members second.members
  distinct h := second.distinct (first.distinct h)
  completes name mem other := by
    by_cases early : name ∈ middle.entered
    · obtain ⟨schema, contains, named, complete⟩ := first.completes name early other
      exact ⟨schema, contains, named, complete.mono second.entered second.members⟩
    · exact second.completes name mem early

/-- What is covered stays covered when a search goes on. -/
lemma covers (h : Grows mapper before after) (covers : Covers mapper before schema) :
    Covers mapper after schema :=
  covers.mono h.entered h.members

end Grows

section Read

variable {id : DocumentId} {tree : Json} (read : Document.read id tree = .ok mapper.document)
  (distinct : tree.keysDistinct = true) (contains : mapper.document.Contains (.owned schema))
include read distinct contains

/-- Where members stand in a document, a member contributes a name exactly if the search takes it. -/
lemma memberContributes_iff_of_contains {slot : SchemaSlot} {name? : Option String} {member : Schema}
    (hs : slot ∈ schema.slots)
    (h : (contribution mapper.document mapper.listModels slot).result = .ok name?)
    (hm : (slot.resolve mapper.document).result = .ok member) {name : String} :
    mapper.MemberContributes member name ↔ name? = some name := by
  have there : mapper.document.Contains (.owned member) := .resolve (.inside contains hs) hm
  obtain ⟨path, at_, -⟩ := there.at_path read distinct
  exact memberContributes_iff h hm fun items hi => at_.type?_of_items? hi

/-- What a schema contributes is added, and nothing but members. -/
lemma grows_of_addMembers
    (h : (addMembers mapper.document mapper.listModels schema search).result = .ok found) :
    found.entered = search.entered ∧ Grows mapper search found ∧
      ∀ name, mapper.Contributes schema name → name ∈ found.members := by
  unfold addMembers at h
  split at h
  · rename_i members hk
    -- Each member adds its name or nothing, and what was added is never taken back.
    obtain ⟨⟨entered, grows⟩, achieved⟩ := Run.foldlM_achieves
      (fun (before after : ChoiceSearch) => after.entered = before.entered ∧ Grows mapper before after)
      (fun (slot : SchemaSlot) after => ∀ member name, (slot.resolve mapper.document).result = .ok member →
        mapper.MemberContributes member name → name ∈ after.members)
      (fun search => ⟨rfl, .refl search⟩)
      (fun _ _ _ first second => ⟨second.1.trans first.1, first.2.trans second.2⟩)
      (fun _ _ _ grows achieved member name hr hm => grows.2.members (achieved member name hr hm))
      (fun before slot after hs step => by
        obtain ⟨name?, hc, step⟩ := Run.bind_result_eq_ok.1 step
        have inside : slot ∈ schema.slots := by rwa [Schema.slots, hk]
        cases name? with
        | none =>
          cases step
          refine ⟨⟨rfl, .refl before⟩, fun member name hr hm => ?_⟩
          cases (memberContributes_iff_of_contains read distinct contains inside hc hr).1 hm
        | some own =>
          cases step
          refine ⟨⟨rfl, .of_members rfl (fun name hn => OrderedSet.mem_add.2 (.inl hn))
            OrderedSet.nodup_add⟩, fun member name hr hm => ?_⟩
          cases (memberContributes_iff_of_contains read distinct contains inside hc hr).1 hm
          exact OrderedSet.mem_add.2 (.inr rfl)) h
    refine ⟨entered, grows, ?_⟩
    rintro name ⟨own, ho, slot, hs, member, hr, hm⟩
    cases hk.symm.trans ho
    exact achieved slot hs member name hr hm
  · rename_i other
    cases h
    refine ⟨rfl, .refl search, ?_⟩
    rintro name ⟨members, hk, -⟩
    exact absurd hk (other members)

end Read

section Folds

variable {steps : Nat}
  (enters : ∀ {schema : Schema} {search found : ChoiceSearch}, mapper.document.Contains (.owned schema) →
    (enter mapper.document mapper.listModels steps schema search).result = .ok found →
    Grows mapper search found ∧ Covers mapper found schema)
include enters

/-- A search covers what stands at the positions that it goes through. -/
lemma grows_of_contents {slots : List SchemaSlot}
    (contains : ∀ slot ∈ slots, mapper.document.Contains slot)
    (h : (slots.foldlM (enterSlot mapper.document mapper.listModels steps) search).result = .ok found) :
    Grows mapper search found ∧ ∀ slot ∈ slots, ∀ inner,
      (slot.resolve mapper.document).result = .ok inner → Covers mapper found inner := by
  refine Run.foldlM_achieves (Grows mapper)
    (fun (slot : SchemaSlot) after => ∀ inner, (slot.resolve mapper.document).result = .ok inner →
      Covers mapper after inner)
    Grows.refl (fun _ _ _ first second => first.trans second)
    (fun _ _ _ grows covers inner hi => grows.covers (covers inner hi)) ?_ h
  intro before slot after hs step
  obtain ⟨value, hv, step⟩ := Run.bind_result_eq_ok.1 step
  obtain ⟨grows, covers⟩ := enters ((contains slot hs).resolve hv) step
  refine ⟨grows, fun inner hi => ?_⟩
  obtain rfl := Except.ok.inj (hv.symm.trans hi)
  exact covers

/-- A search covers a property that it enters, and what the property contains. -/
lemma grows_of_enterProperty {slot : SchemaSlot} (contains : mapper.document.Contains slot)
    (h : (enterProperty mapper.document mapper.listModels steps search slot).result = .ok found) :
    Grows mapper search found ∧ ∀ property, (slot.resolve mapper.document).result = .ok property →
      ∀ inner, (inner = property ∨ ∃ content ∈ property.contents,
        (content.resolve mapper.document).result = .ok inner) → Covers mapper found inner := by
  obtain ⟨property, hr, h⟩ := Run.bind_result_eq_ok.1 h
  obtain ⟨middle, he, h⟩ := Run.bind_result_eq_ok.1 h
  have there := contains.resolve hr
  obtain ⟨first, own⟩ := enters there he
  obtain ⟨second, contents⟩ := grows_of_contents enters
    (fun content hc => .inside there (Schema.mem_slots_of_contents hc)) h
  refine ⟨first.trans second, fun other ho inner hi => ?_⟩
  obtain rfl := Except.ok.inj (hr.symm.trans ho)
  rcases hi with rfl | ⟨content, hc, hi⟩
  · exact second.covers own
  · exact contents content hc inner hi

/-- A search covers what it goes on to from an object whose properties it enters. -/
lemma grows_of_properties (contains : mapper.document.Contains (.owned schema))
    (h : ((schema.properties?.getD []).values.foldlM
      (enterProperty mapper.document mapper.listModels steps) search).result = .ok found) :
    Grows mapper search found ∧
      ∀ inner, schema.Branches mapper.document inner → Covers mapper found inner := by
  obtain ⟨grows, covered⟩ := Run.foldlM_achieves (Grows mapper)
    (fun (slot : SchemaSlot) after => ∀ property, (slot.resolve mapper.document).result = .ok property →
      ∀ inner, (inner = property ∨ ∃ content ∈ property.contents,
        (content.resolve mapper.document).result = .ok inner) → Covers mapper after inner)
    Grows.refl (fun _ _ _ first second => first.trans second)
    (fun _ _ _ grows covers property hr inner hi => grows.covers (covers property hr inner hi))
    (fun _ _ _ hs step =>
      grows_of_enterProperty enters (.inside contains (Schema.mem_slots_of_property? hs)) step) h
  refine ⟨grows, fun inner hi => ?_⟩
  obtain ⟨property, has, there⟩ := Schema.branches_iff.1 hi
  obtain ⟨slot, hs, hr⟩ := Schema.hasProperty_iff.1 has
  exact covered slot hs property hr inner there

end Folds

section Whole

variable {id : DocumentId} {tree : Json} (read : Document.read id tree = .ok mapper.document)
  (distinct : tree.keysDistinct = true) (contains : mapper.document.Contains (.owned schema))
include read distinct contains

/-- A search that enters a schema grows, and covers the schema. -/
lemma grows_of_enter (steps : Nat)
    (h : (enter mapper.document mapper.listModels steps schema search).result = .ok found) :
    Grows mapper search found ∧ Covers mapper found schema := by
  induction steps generalizing schema search found with
  | zero => cases h
  | succ steps ih =>
    rw [enter_succ] at h
    split at h
    · rename_i known
      cases h
      obtain ⟨name, named, mem⟩ := (Option.any_eq_true _ _).1 known
      exact ⟨.refl search, .entered named (of_decide_eq_true mem)⟩
    · obtain ⟨added, ha, h⟩ := Run.bind_result_eq_ok.1 h
      obtain ⟨entered, start, contributed⟩ := grows_of_addMembers read distinct contains ha
      obtain ⟨rest, branches⟩ := grows_of_properties ih contains h
      have complete : Completes mapper found schema :=
        ⟨fun name hn => rest.members (contributed name hn), branches⟩
      have kept : search.entered ++ schema.name?.toList ⊆ found.entered := by
        have kept := rest.entered
        rwa [entered] at kept
      constructor
      · refine ⟨fun name hn => kept (List.mem_append_left _ hn), List.Subset.trans start.members rest.members,
          fun h => rest.distinct (start.distinct h), fun name mem other => ?_⟩
        -- A name that is added is the name of the schema, or one that its properties add.
        by_cases own : schema.name? = some name
        · exact ⟨schema, contains, own, complete⟩
        · refine rest.completes name mem fun early => ?_
          rcases List.mem_append.1 (entered ▸ early) with old | here
          · exact other old
          · exact own (Option.mem_toList.1 here)
      · cases hn : schema.name? with
        | none => exact .nameless hn complete.members complete.branches
        | some name =>
          refine .entered hn (kept (List.mem_append_right _ ?_))
          exact Option.mem_toList.2 hn

/-- A search that is begun with a schema covers and completes all schemas to which it comes. -/
theorem completes_of_enter {steps : Nat}
    (h : (enter mapper.document mapper.listModels steps schema ⟨[], []⟩).result = .ok found)
    {inner : Schema}
    (reached : Relation.ReflTransGen (Schema.Branches mapper.document) schema inner) :
    mapper.document.Contains (.owned inner) ∧ Covers mapper found inner ∧
      Completes mapper found inner := by
  have coherent := Document.coherent_of_read read distinct
  obtain ⟨grows, start⟩ := grows_of_enter read distinct contains steps h
  have complete : ∀ inner, mapper.document.Contains (.owned inner) → Covers mapper found inner →
      Completes mapper found inner := by
    intro inner there covers
    cases covers with
    | nameless none contributed covered => exact ⟨contributed, covered⟩
    | entered named mem =>
      -- The name was added for a complete schema, and that is this one.
      obtain ⟨other, there', named', complete⟩ := grows.completes _ mem List.not_mem_nil
      exact coherent.eq_of_name there' there named' named ▸ complete
  induction reached with
  | refl => exact ⟨contains, start, complete schema contains start⟩
  | tail _ branches ih =>
    obtain ⟨there, -, before⟩ := ih
    have onward := there.leads branches.leads
    have covers := before.branches _ branches
    exact ⟨onward, covers, complete _ onward covers⟩

/-- The members that a search finds are what the choices contribute to which it comes. -/
theorem mem_members_of_enter_iff {steps : Nat}
    (h : (enter mapper.document mapper.listModels steps schema ⟨[], []⟩).result = .ok found)
    {name : String} :
    name ∈ found.members ↔ ∃ choice,
      Relation.ReflTransGen (Schema.Branches mapper.document) schema choice ∧
        mapper.Contributes choice name := by
  have contributes : ∀ choice members slot name,
      Relation.ReflTransGen (Schema.Branches mapper.document) schema choice →
      choice.kind = .oneOf members → slot ∈ members →
      (contribution mapper.document mapper.listModels slot).result = .ok (some name) →
      ∃ choice, Relation.ReflTransGen (Schema.Branches mapper.document) schema choice ∧
        mapper.Contributes choice name := by
    intro choice members slot name reached hk hs hc
    have there := (completes_of_enter read distinct contains h reached).1
    have inside : slot ∈ choice.slots := by rwa [Schema.slots, hk]
    obtain ⟨member, hm, -⟩ := Run.bind_result_eq_ok.1 hc
    exact ⟨choice, reached, members, hk, slot, hs, member, hm,
      (memberContributes_iff_of_contains read distinct there inside hc hm).2 rfl⟩
  constructor
  · exact members_of_enter contributes .refl (fun _ none => absurd none List.not_mem_nil) steps
      (fun _ _ reached step => reached.tail step) h name
  · rintro ⟨choice, reached, contributes⟩
    exact (completes_of_enter read distinct contains h reached).2.2.members name contributes

end Whole

end ChoiceSearch

/-- The members of the choices inside a model are distinct: they are what those choices contribute to which
properties, items and values lead from the model, without the name of the model. -/
theorem Schema.choiceMembers_exact {id : DocumentId} {tree : Json} {document : Document}
    (read : Document.read id tree = .ok document) (distinct : tree.keysDistinct = true)
    {schema : Schema} (contains : document.Contains (.owned schema)) {listModels : List String}
    {name : String} {members : List String}
    (h : (schema.choiceMembers document listModels name).result = .ok members) :
    members.Nodup ∧ ∀ member, member ∈ members ↔ member ≠ name ∧
      ∃ choice, Relation.ReflTransGen (Branches document) schema choice ∧
        (⟨document, listModels⟩ : Mapper).Contributes choice member := by
  obtain ⟨found, he, h⟩ := Run.bind_result_eq_ok.1 h
  cases h
  let mapper : Mapper := ⟨document, listModels⟩
  have ofMapper : (ChoiceSearch.enter mapper.document mapper.listModels (document.steps schema.size)
      schema ⟨[], []⟩).result = .ok found := he
  obtain ⟨grows, -⟩ := ChoiceSearch.grows_of_enter read distinct contains _ ofMapper
  refine ⟨(grows.distinct List.nodup_nil).filter _, fun member => ?_⟩
  rw [OrderedSet.erase, List.mem_filter, decide_eq_true_eq, and_comm]
  exact and_congr_right fun _ =>
    ChoiceSearch.mem_members_of_enter_iff read distinct contains ofMapper

/-- A description of a zoo: what lives there is a choice, and the keepers, who look after animals and zoos,
are met twice. -/
def zooTree : Json :=
  let ref (name : String) : Json := .obj [("$ref", .str ("#/components/schemas/" ++ name))]
  let array (items : Json) : Json := .obj [("type", .str "array"), ("items", items)]
  .obj [
    ("openapi", .str "3.0.0"),
    ("info", .obj [("title", .str "Zoo"), ("version", .str "1")]),
    ("paths", .obj []),
    ("components", .obj [("schemas", .obj [
      ("Zoo", .obj [("properties", .obj [
        ("owner", ref "Keeper"),
        ("lives", .obj [("oneOf", .arr [ref "Cat", ref "Flock"])]),
        ("keepers", array (ref "Keeper"))])]),
      ("Keeper", .obj [("properties", .obj [
        ("charges", .obj [("type", .str "object"),
          ("additionalProperties", .obj [("oneOf", .arr [ref "Cat", ref "Zoo"])])])])]),
      ("Cat", .obj [("properties", .obj [("zoo", ref "Zoo")])]),
      ("Flock", array (ref "Bird")),
      ("Bird", .obj [("type", .str "string")])])])]

/-- The members of the choices inside a zoo are cats, and the birds of a flock. -/
theorem Schema.choiceMembers_exact_zoo :
    zooTree.keysDistinct = true ∧ ∃ document schema members,
      Document.read ⟨0⟩ zooTree = .ok document ∧ document.schema? "Zoo" = some (.owned schema) ∧
      (schema.choiceMembers document [] "Zoo").result = .ok members ∧ members = ["Cat", "Bird"] ∧
      ∀ member, member ∈ members ↔ member ≠ "Zoo" ∧
        ∃ choice, Relation.ReflTransGen (Branches document) schema choice ∧
          (⟨document, []⟩ : Mapper).Contributes choice member := by
  have distinct : zooTree.keysDistinct = true := by decide +kernel
  have run : ((Document.read ⟨0⟩ zooTree).toOption.map fun document =>
      ((document.schema? "Zoo").bind Slot.owned?).map fun schema =>
        (schema.choiceMembers document [] "Zoo").result.toOption) =
      some (some (some ["Cat", "Bird"])) := by decide +kernel
  obtain ⟨document, found, run⟩ := Option.map_eq_some_iff.1 run
  obtain ⟨schema, held, run⟩ := Option.map_eq_some_iff.1 run
  have read := toOption_eq_some.1 found
  have ok := toOption_eq_some.1 run
  obtain ⟨slot, hs, ho⟩ := Option.bind_eq_some_iff.1 held
  obtain rfl := Slot.owned?_eq_some_iff.1 ho
  have contains := Document.contains_of_schema? hs
  exact ⟨distinct, document, schema, _, read, hs, ok, rfl,
    (choiceMembers_exact read distinct contains ok).2⟩

end OpenApiManifest
