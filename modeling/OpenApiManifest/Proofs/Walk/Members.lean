import OpenApiManifest.Proofs.Reading.Pointers
import OpenApiManifest.Proofs.Walk.Safety

/-!
# Nameless members of choices

The name that a walk has for a nameless schema comes from a schema around it that is no choice
(`Call.Reached.offered`).  A nameless schema stands at one position only, so the nameless members of choices
are never registered (`Registry.Walked.name?_of_member`); those with names are
(`Registry.Walked.registered_of_member`).
-/

namespace OpenApiManifest

/-- A position inside a schema that is no choice. -/
def Document.OutsideChoices (document : Document) (slot : SchemaSlot) : Prop :=
  ∃ outer, document.Contains (.owned outer) ∧ outer.tag ≠ .oneOf ∧ slot ∈ outer.slots

/-- A call that has a name for a nameless schema has it for a position outside of choices. -/
def Call.Offered (document : Document) : Call → Prop
  | .child slot (some _) _ => document.OutsideChoices slot
  | .nameless schema (some _) _ => document.OutsideChoices (.owned schema)
  | .child _ none _ | .nameless _ none _ | .inside .. | .member .. => True

variable [Spelling]

namespace Call

variable {document : Document} {options : WalkOptions} {call later : Call}

/-- A child that a nameless schema is left for does not stand in a choice. -/
lemma outsideChoices_of_plan_nameless {schema : Schema} {candidate owner : Option String}
    {only : SchemaSlot} (contains : document.Contains (.owned schema)) (one : schema.slots = [only])
    (h : ((nameless schema candidate owner).plan document options).result =
      .ok ⟨none, [.child only candidate owner]⟩) : document.OutsideChoices only := by
  refine ⟨schema, contains, fun choice => ?_, one ▸ List.mem_singleton_self only⟩
  have planned := Except.ok.inj ((plan_nameless_of_tag (.inr (.inl choice))).symm.trans h)
  rcases @forNameless_cases options schema candidate with ⟨name, -, -, e⟩ | e
  · cases e.symm.trans planned
  · have next : options.onward [.inside schema candidate] = [.child only candidate owner] :=
      congrArg Plan.next (e.symm.trans planned)
    have mem : Call.child only candidate owner ∈ options.onward [.inside schema candidate] :=
      next ▸ List.mem_singleton_self _
    cases List.mem_singleton.1 (options.mem_of_mem_onward mem)

/-- A call has names for positions outside of choices only, if the call before it has. -/
lemma Offered.next (coherent : document.Coherent) (offered : call.Offered document)
    (within : call.Within document) (h : call.Next document options later) :
    later.Offered document := by
  obtain ⟨plan, planned, hl⟩ := h
  cases call with
  | child slot candidate owner =>
    obtain ⟨schema, hs, ⟨name, -, rfl⟩ | ⟨nameless, rfl⟩⟩ := exists_of_plan_child planned
    · obtain rfl := Plan.eq_inside_of_mem_register hl
      trivial
    · obtain rfl := List.mem_singleton.1 hl
      obtain rfl := coherent.eq_owned hs nameless
      cases candidate with
      | none => trivial
      | some name => exact offered
  | nameless schema candidate owner =>
    rcases plan_nameless_cases planned with ⟨-, rfl⟩ | ⟨only, one, rfl⟩ | ⟨name, -, -, rfl⟩ | rfl
    · cases hl
    · obtain rfl := List.mem_singleton.1 hl
      cases candidate with
      | none => trivial
      | some name => exact outsideChoices_of_plan_nameless within.1 one planned
    · obtain rfl := Plan.eq_inside_of_mem_register hl
      trivial
    · obtain rfl := List.mem_singleton.1 (options.mem_of_mem_onward hl)
      trivial
  | inside schema context =>
    cases planned
    obtain ⟨slot, hs, e⟩ := Schema.exists_slot_of_mem_calls hl
    cases later with
    | child own candidate owner =>
      cases e
      cases candidate with
      | none => trivial
      | some name =>
        refine ⟨schema, within, fun choice => ?_, hs⟩
        -- A choice has members, and no children.
        rw [Schema.calls, Schema.kind_of_tag_oneOf choice] at hl
        obtain ⟨_, -, e⟩ := List.mem_map.1 hl
        cases e
    | nameless => cases e
    | inside => trivial
    | member => trivial
  | member slot context =>
    obtain ⟨schema, -, ⟨name, -, rfl⟩ | ⟨-, ⟨-, rfl⟩ | ⟨items, -, rfl⟩ | rfl⟩⟩ :=
      exists_of_plan_member planned
    · obtain rfl := Plan.eq_inside_of_mem_register hl
      trivial
    · cases hl
    · obtain rfl := List.mem_singleton.1 (options.mem_of_mem_onward hl)
      trivial
    · obtain rfl := List.mem_singleton.1 (options.mem_of_mem_onward hl)
      trivial

/-- Calls have names for positions outside of choices only, if the first ones have. -/
lemma Reached.offered {first : Call → Prop} (coherent : document.Coherent)
    (start : ∀ call, first call → call.Within document ∧ call.Offered document)
    (reached : call.Reached document options first) : call.Offered document := by
  induction reached with
  | first h => exact (start _ h).2
  | next before hn ih =>
    exact ih.next coherent (before.within fun call h => (start call h).1) hn

/-- A nameless schema is registered where it does not stand in a choice. -/
lemma Registers.outsideChoices {name : String} {schema : Schema} (offered : call.Offered document)
    (h : call.Registers document options name ⟨schema, .synthetic⟩) :
    document.OutsideChoices (.owned schema) := by
  obtain ⟨-, owner, rfl⟩ := h.eq_nameless
  exact offered

end Call

namespace Schema

variable {schema : Schema} {steps : List String} {slot : SchemaSlot}

omit [Spelling] in
/-- A key that is not a number is not the index of a member. -/
lemma ne_of_key {key : String} (h : key.toList.all Char.isDigit = false) (path path' : List String)
    (i : Nat) : path ++ [key] ≠ path' ++ ["oneOf", Nat.repr i] := by
  intro same
  obtain rfl : key = Nat.repr i := by simpa using congrArg List.getLast? same
  rw [Nat.toList_repr, List.all_eq_false] at h
  obtain ⟨char, hc, other⟩ := h
  exact other (Nat.isDigit_of_mem_toDigits (by decide) (by decide) hc)

omit [Spelling] in
/-- The way to a position inside a schema that is no choice does not end like that to a member of one. -/
lemma ne_of_mem_sites (hk : schema.tag ≠ .oneOf) (h : (steps, slot) ∈ schema.sites) (path path' : List String)
    (i : Nat) : path ++ steps ≠ path' ++ ["oneOf", Nat.repr i] := by
  -- The last step but one tells the positions apart: it is the key of a choice only for the members of one.
  have apart : ∀ {key : String} (step : String), key ≠ "oneOf" →
      path ++ [key, step] ≠ path' ++ ["oneOf", Nat.repr i] := by
    intro key step other same
    exact other (List.cons.inj (List.append_inj' same rfl).2).1
  have members : ∀ {key : String} {members : List SchemaSlot}, key ≠ "oneOf" →
      (steps, slot) ∈ Sites.ofItems key Sites.here members →
        path ++ steps ≠ path' ++ ["oneOf", Nat.repr i] := by
    intro key members other h
    obtain ⟨j, own, rest, -, he, rfl⟩ := Sites.mem_ofItems.1 h
    obtain ⟨rfl, rfl⟩ := Sites.mem_here.1 he
    exact apart _ other
  unfold Schema.sites at h
  unfold Schema.tag at hk
  cases kind : schema.kind with
  | primitive type constraints =>
    rw [kind] at h
    cases h
  | enum values =>
    rw [kind] at h
    cases h
  | array items minItems maxItems =>
    rw [kind] at h
    obtain ⟨rest, he, rfl⟩ := Sites.mem_under.1 h
    obtain ⟨rfl, rfl⟩ := Sites.mem_here.1 he
    exact ne_of_key (by decide) path path' i
  | object properties required additional =>
    rw [kind] at h
    rcases List.mem_append.1 h with h | h
    · obtain ⟨key, own, rest, -, he, rfl⟩ := Sites.mem_ofEntries.1 h
      obtain ⟨rfl, rfl⟩ := Sites.mem_here.1 he
      exact apart _ (by decide)
    · obtain ⟨own, rest, -, he, rfl⟩ := Sites.mem_ofField.1 h
      obtain ⟨rfl, rfl⟩ := Sites.mem_here.1 he
      exact ne_of_key (by decide) path path' i
  | oneOf own => exact absurd (by rw [kind]) hk
  | allOf own =>
    rw [kind] at h
    exact members (by decide) h
  | anyOf own =>
    rw [kind] at h
    exact members (by decide) h

end Schema

omit [Spelling] in
/-- A nameless schema does not stand in a choice and outside of choices. -/
lemma Document.not_outsideChoices_of_member {id : DocumentId} {tree : Json} {document : Document}
    (read : Document.read id tree = .ok document) (distinct : tree.keysDistinct = true)
    {choice schema : Schema} (contains : document.Contains (.owned choice)) (hk : choice.tag = .oneOf)
    (hs : .owned schema ∈ choice.members) : ¬ document.OutsideChoices (.owned schema) := by
  rintro ⟨outer, there, apart, inside⟩
  obtain ⟨path, holds⟩ := contains_iff_holdsAt.1 there
  obtain ⟨path', holds'⟩ := contains_iff_holdsAt.1 contains
  rw [Schema.slots, ← SchemaKind.slots_sites, Sites.mem_slots] at inside
  obtain ⟨steps, site⟩ := inside
  have site' : ∃ i, (["oneOf", Nat.repr i], .owned schema) ∈ choice.sites := by
    obtain ⟨i, hi⟩ := List.mem_iff_getElem?.1 hs
    rw [Schema.sites, Schema.kind_of_tag_oneOf hk]
    exact ⟨i, Sites.mem_ofItems.2 ⟨i, _, [], hi, Sites.mem_here.2 ⟨rfl, rfl⟩, rfl⟩⟩
  obtain ⟨i, site'⟩ := site'
  have at_ := (HoldsAt.inside holds site).slotAt read distinct
  have at' := (HoldsAt.inside holds' site').slotAt read distinct
  exact Schema.ne_of_mem_sites apart site path path' i (at_.steps.symm.trans at'.steps)

/-- The members with names of a choice that is registered are registered, too. -/
lemma Registry.Walked.registered_of_member {document : Document} {first : Call → Prop} {registry : Registry}
    (walked : registry.Walked document .everything first) {own name : String} {model : Registered}
    (held : registry.get? own = some model) {slot : SchemaSlot} {member : Schema}
    (hs : slot ∈ model.schema.members) (resolved : (slot.resolve document).result = .ok member)
    (named : member.name? = some name) : registry.get? name = some ⟨member, .component⟩ := by
  obtain ⟨call, reached, at_⟩ := walked.visited_of_registered held slot (Schema.mem_slots_of_members hs)
  exact (walked.registered_of_name reached at_ resolved named).1

/-- A registered schema that is a member of a choice has its name. -/
theorem Registry.Walked.name?_of_member {id : DocumentId} {tree : Json} {document : Document}
    (read : Document.read id tree = .ok document) (distinct : tree.keysDistinct = true)
    {starts : SchemaSlot → Prop} {registry : Registry}
    (walked : registry.Walked document .everything (Call.From starts))
    (within : ∀ slot, starts slot → document.Contains slot) {choice member : Schema} {slot : SchemaSlot}
    (contains : document.Contains (.owned choice)) (hk : choice.tag = .oneOf)
    (hs : slot ∈ choice.members) {name : String} {origin : Origin}
    (resolved : (slot.resolve document).result = .ok member)
    (held : registry.get? name = some ⟨member, origin⟩) : member.name? = some name := by
  have coherent := Document.coherent_of_read read distinct
  have proper := (walked.proper.models name _ (Entries.mem_of_get? held)).name?
  cases origin with
  | component => exact proper
  | synthetic =>
    obtain rfl := coherent.eq_owned resolved proper
    obtain ⟨call, reached, registers⟩ := walked.entered held
    have offered : call.Offered document := by
      refine reached.offered coherent ?_
      rintro _ ⟨slot, hs, rfl⟩
      exact ⟨within slot hs, trivial⟩
    exact absurd (registers.outsideChoices offered)
      (Document.not_outsideChoices_of_member read distinct contains hk hs)

end OpenApiManifest
