import OpenApiManifest.Proofs.Faultless
import OpenApiManifest.Proofs.Reading.Positions
import OpenApiManifest.Proofs.References
import OpenApiManifest.Proofs.Trails
import OpenApiManifest.Proofs.Types.Mentions
import OpenApiManifest.Registry.Polymorphic

/-!
# The search for choices

A search enters a schema, and then each of its properties and what the property contains
(`ChoiceSearch.enter_succ`).  It is faultless among safe positions, and the members that it finds are
those that the members of choices contribute (`ChoiceSearch.members_of_enter`).
-/

namespace OpenApiManifest

/-- The positions of the items and of the values of a schema. -/
def Schema.contents (schema : Schema) : List SchemaSlot :=
  schema.items?.toList ++ schema.additional?.toList

/-- The items and the values of a schema stand at positions directly inside it. -/
lemma Schema.mem_slots_of_contents {schema : Schema} {slot : SchemaSlot} (h : slot ∈ schema.contents) :
    slot ∈ schema.slots := by
  rcases List.mem_append.1 h with h | h
  · exact mem_slots_of_items? (Option.mem_toList.1 h)
  · exact mem_slots_of_additional? (Option.mem_toList.1 h)

/-- The properties of an object stand at positions directly inside it. -/
lemma Schema.mem_slots_of_property? {schema : Schema} {slot : SchemaSlot}
    (h : slot ∈ (schema.properties?.getD []).values) : slot ∈ schema.slots := by
  cases hp : schema.properties? with
  | none =>
    rw [hp] at h
    cases h
  | some properties =>
    rw [hp] at h
    exact mem_slots_of_properties? hp h

/-- A property of an object resolves to a schema. -/
inductive Schema.HasProperty (document : Document) (schema property : Schema) : Prop
  | intro {properties : Entries SchemaSlot} {slot : SchemaSlot} :
    schema.properties? = some properties → slot ∈ properties.values →
      (slot.resolve document).result = .ok property → HasProperty document schema property

/-- Where a search goes on from an object: at its properties, and at the items and the values of those. -/
inductive Schema.Branches (document : Document) (schema inner : Schema) : Prop
  | property : schema.HasProperty document inner → Branches document schema inner
  | items {property : Schema} {items : SchemaSlot} :
    schema.HasProperty document property → property.items? = some items →
      (items.resolve document).result = .ok inner → Branches document schema inner
  | values {property : Schema} {value : SchemaSlot} :
    schema.HasProperty document property → property.additional? = some value →
      (value.resolve document).result = .ok inner → Branches document schema inner

/-- The properties of an object are what the positions under its keys resolve to. -/
lemma Schema.hasProperty_iff {document : Document} {schema property : Schema} :
    schema.HasProperty document property ↔
      ∃ slot ∈ (schema.properties?.getD []).values, (slot.resolve document).result = .ok property := by
  constructor
  · rintro @⟨properties, slot, hp, hs, hr⟩
    exact ⟨slot, by rwa [hp], hr⟩
  · rintro ⟨slot, hs, hr⟩
    cases hp : schema.properties? with
    | none =>
      rw [hp] at hs
      cases hs
    | some properties =>
      rw [hp] at hs
      exact .intro hp hs hr

/-- A search goes on at the properties of an object and at what they contain. -/
lemma Schema.branches_iff {document : Document} {schema inner : Schema} :
    schema.Branches document inner ↔
      ∃ property, schema.HasProperty document property ∧
        (inner = property ∨
          ∃ slot ∈ property.contents, (slot.resolve document).result = .ok inner) := by
  constructor
  · rintro (hp | @⟨property, items, hp, hi, hr⟩ | @⟨property, value, hp, hv, hr⟩)
    · exact ⟨inner, hp, .inl rfl⟩
    · exact ⟨property, hp, .inr ⟨items, List.mem_append_left _ (Option.mem_toList.2 hi), hr⟩⟩
    · exact ⟨property, hp, .inr ⟨value, List.mem_append_right _ (Option.mem_toList.2 hv), hr⟩⟩
  · rintro ⟨property, hp, rfl | ⟨slot, hs, hr⟩⟩
    · exact .property hp
    · rcases List.mem_append.1 hs with hs | hs
      · exact .items hp (Option.mem_toList.1 hs) hr
      · exact .values hp (Option.mem_toList.1 hs) hr

/-- What a search goes on to is held by the object, or by a property of it. -/
lemma Schema.Branches.leads {document : Document} {schema inner : Schema}
    (h : schema.Branches document inner) : Relation.ReflTransGen (Schema.Holds document) schema inner := by
  obtain ⟨property, has, there⟩ := branches_iff.1 h
  obtain ⟨slot, hs, hr⟩ := hasProperty_iff.1 has
  have first : schema.Holds document property := ⟨slot, mem_slots_of_property? hs, hr⟩
  rcases there with rfl | ⟨content, hc, hi⟩
  · exact .single first
  · exact .tail (.single first) ⟨content, mem_slots_of_contents hc, hi⟩

namespace ChoiceSearch

variable {document : Document} {listModels : List String}

/-- Enters what stands at a position. -/
def enterSlot (document : Document) (listModels : List String) (steps : Nat) (search : ChoiceSearch)
    (slot : SchemaSlot) : Run ChoiceSearch := do
  enter document listModels steps (← slot.resolve document) search

/-- Enters a property, and then what the property contains. -/
def enterProperty (document : Document) (listModels : List String) (steps : Nat) (search : ChoiceSearch)
    (slot : SchemaSlot) : Run ChoiceSearch := do
  let property ← slot.resolve document
  let search ← enter document listModels steps property search
  property.contents.foldlM (enterSlot document listModels steps) search

/-- Entering a schema that was not entered before adds its members, and then enters its properties, each
with what it contains. -/
lemma enter_succ (steps : Nat) (schema : Schema) (search : ChoiceSearch) :
    enter document listModels (steps + 1) schema search =
      if schema.name?.any fun name => decide (name ∈ search.entered) then pure search
      else (do
        let search ← addMembers document listModels schema
          { search with entered := search.entered ++ schema.name?.toList }
        (schema.properties?.getD []).values.foldlM (enterProperty document listModels steps) search) := by
  rw [enter]
  dsimp only
  split
  · rfl
  · refine congrArg _ (funext fun search => ?_)
    cases schema.properties? with
    | none => rfl
    | some properties =>
      refine congrFun (congrArg₂ _ (funext fun search => funext fun slot => ?_) rfl) _
      refine congrArg _ (funext fun property => congrArg _ (funext fun search => ?_))
      unfold Schema.contents
      cases property.items? with
      | none => cases property.additional? <;> simp [enterSlot]
      | some items => cases property.additional? <;> simp [enterSlot]

section Contributions

variable {mapper : Mapper} {slot : SchemaSlot} {name : String}

/-- A member contributes its own name if the choice names it, and else that of its items. -/
lemma exists_of_contribution
    (h : (contribution mapper.document mapper.listModels slot).result = .ok (some name)) :
    ∃ member, (slot.resolve mapper.document).result = .ok member ∧
      (mapper.memberModel? member = some name ∨
        member.type?.getD .object ≠ .object ∧
          (∀ own, member.name? = some own → own ∉ mapper.listModels) ∧
          ∃ items inner, member.items? = some items ∧
            (items.resolve mapper.document).result = .ok inner ∧ inner.name? = some name) := by
  obtain ⟨member, hm, h⟩ := Run.bind_result_eq_ok.1 h
  refine ⟨member, hm, ?_⟩
  dsimp only at h
  split at h
  · rename_i named
    have own : member.name? = some name := Except.ok.inj h
    have model : member.type?.getD .object = .object ∨ name ∈ mapper.listModels := by
      simpa [own] using named
    refine .inl ?_
    rw [Mapper.memberModel?, own]
    exact if_pos model
  · rename_i other
    simp only [Bool.or_eq_true, decide_eq_true_eq, not_or, Option.any_eq_true, not_exists,
      not_and] at other
    refine .inr ⟨other.1, other.2, ?_⟩
    split at h
    · rename_i items hi
      obtain ⟨inner, hr, h⟩ := Run.bind_result_eq_ok.1 h
      exact ⟨items, inner, hi, hr, Except.ok.inj h⟩
    · cases h

end Contributions

section Faultless

variable {known : Found → Prop} {safe : SchemaSlot → Prop} (closed : document.Closed known safe)
include closed

/-- What a member at a safe position contributes is found out faultlessly. -/
lemma contribution_faultless {slot : SchemaSlot} (h : safe slot) :
    (contribution document listModels slot).Faultless known := by
  unfold contribution
  refine closed.bind h fun member inside => ?_
  dsimp only
  split
  · exact .pure _
  · split
    · rename_i items hi
      exact closed.bind (inside items (Schema.mem_slots_of_items? hi)) fun _ _ => .pure _
    · exact .pure _

/-- The members of a choice at safe positions are added faultlessly. -/
lemma addMembers_faultless {schema : Schema} {search : ChoiceSearch}
    (h : ∀ slot ∈ schema.slots, safe slot) :
    (addMembers document listModels schema search).Faultless known := by
  unfold addMembers
  split
  · rename_i members hk
    refine .foldlM fun before slot hs => ?_
    have mem : slot ∈ schema.slots := by rwa [Schema.slots, hk]
    refine (contribution_faultless closed (h slot mem)).bind fun name? _ => ?_
    cases name? with
    | some name => exact .pure _
    | none => exact .pure _
  · exact .pure _

/-- The choices inside a schema are searched faultlessly. -/
lemma enter_faultless (steps : Nat) {schema : Schema} {search : ChoiceSearch}
    (h : ∀ slot ∈ schema.slots, safe slot) :
    (enter document listModels steps schema search).Faultless known := by
  induction steps generalizing schema search with
  | zero => exact .outOfSteps
  | succ steps ih =>
    rw [enter_succ]
    split
    · exact .pure _
    · refine (addMembers_faultless closed h).bind fun found _ => .foldlM fun before slot hs => ?_
      refine closed.bind (h slot (Schema.mem_slots_of_property? hs)) fun property inside => ?_
      refine (ih inside).bind fun entered _ => .foldlM fun before slot hs => ?_
      exact closed.bind (inside slot (Schema.mem_slots_of_contents hs)) fun _ inner => ih inner

end Faultless

section Members

variable {reached : Schema → Prop} {contributed : String → Prop} {schema : Schema}
  {search found : ChoiceSearch}
  (contributes : ∀ choice members slot name, reached choice → choice.kind = .oneOf members →
    slot ∈ members → (contribution document listModels slot).result = .ok (some name) →
    contributed name)
  (own : reached schema) (before : ∀ name ∈ search.members, contributed name)
include contributes own before

/-- The members that a schema adds are those that its own members contribute. -/
lemma members_of_addMembers (h : (addMembers document listModels schema search).result = .ok found) :
    ∀ name ∈ found.members, contributed name := by
  unfold addMembers at h
  split at h
  · rename_i members hk
    refine Run.foldlM_keeps (fun search => ∀ name ∈ search.members, contributed name) before ?_ h
    intro search slot after hs before step
    obtain ⟨name?, hc, step⟩ := Run.bind_result_eq_ok.1 step
    cases name? with
    | none =>
      cases step
      exact before
    | some name =>
      cases step
      intro other ho
      rcases OrderedSet.mem_add.1 ho with ho | rfl
      · exact before other ho
      · exact contributes schema members slot other own hk hs hc
  · cases h
    exact before

/-- The members that a search finds are those that members of choices contribute to which it comes. -/
theorem members_of_enter (steps : Nat)
    (onward : ∀ schema inner, reached schema → schema.Branches document inner → reached inner)
    (h : (enter document listModels steps schema search).result = .ok found) :
    ∀ name ∈ found.members, contributed name := by
  induction steps generalizing schema search found with
  | zero => cases h
  | succ steps ih =>
    rw [enter_succ] at h
    split at h
    · cases h
      exact before
    · obtain ⟨added, ha, h⟩ := Run.bind_result_eq_ok.1 h
      have kept : ∀ name ∈ ({ search with
          entered := search.entered ++ schema.name?.toList } : ChoiceSearch).members,
          contributed name := before
      have start := members_of_addMembers contributes own kept ha
      -- The search enters the property, and then what the property contains.
      refine Run.foldlM_keeps (fun search => ∀ name ∈ search.members, contributed name) start ?_ h
      intro search slot after hs before step
      obtain ⟨property, hr, step⟩ := Run.bind_result_eq_ok.1 step
      obtain ⟨entered, he, step⟩ := Run.bind_result_eq_ok.1 step
      have has := Schema.hasProperty_iff.2 ⟨slot, hs, hr⟩
      refine Run.foldlM_keeps (fun search => ∀ name ∈ search.members, contributed name)
        (ih (onward schema property own (.property has)) before he) ?_ step
      intro search content after hc before step
      obtain ⟨value, hv, step⟩ := Run.bind_result_eq_ok.1 step
      have branches := Schema.branches_iff.2 ⟨property, has, .inr ⟨content, hc, hv⟩⟩
      exact ih (onward schema value own branches) before step

end Members

end ChoiceSearch

/-- The members of the choices inside a schema with safe positions are found faultlessly. -/
lemma Schema.choiceMembers_faultless {document : Document} {listModels : List String}
    {known : Found → Prop} {safe : SchemaSlot → Prop} (closed : document.Closed known safe)
    {schema : Schema} {name : String}
    (h : ∀ slot ∈ schema.slots, safe slot) :
    (schema.choiceMembers document listModels name).Faultless known :=
  (ChoiceSearch.enter_faultless closed _ h).bind fun _ _ => .pure _

end OpenApiManifest
