import OpenApiManifest.Proofs.Walk.Collecting

/-!
# A walk visits every position

A walk of everything comes to every position inside the schemas that it comes to
(`Registry.Walked.exists_call_of_slot`), and the schemas with names at those positions are registered
(`Registry.Walked.registered_of_name`).
-/

namespace OpenApiManifest

/-- A call that is about a schema. -/
def Call.About (document : Document) (schema : Schema) : Call → Prop
  | .child slot _ _ | .member slot _ => (slot.resolve document).result = .ok schema
  | .nameless own _ _ | .inside own _ => own = schema

/-- A call for a position is about the schema to which the position resolves. -/
lemma Call.about_of_slot? {document : Document} {call : Call} {slot : SchemaSlot} {schema : Schema}
    (h : call.slot? = some slot) (hs : (slot.resolve document).result = .ok schema) :
    call.About document schema := by
  cases call with
  | child => cases h; exact hs
  | member => cases h; exact hs
  | nameless => cases h
  | inside => cases h

variable [Spelling]

/-- There is a call for every position directly inside a schema. -/
lemma Schema.exists_mem_calls {schema : Schema} {slot : SchemaSlot} (h : slot ∈ schema.slots)
    (context : Option String) : ∃ later ∈ schema.calls context, later.slot? = some slot := by
  have mem : some slot ∈ (schema.calls context).map Call.slot? := by
    rw [schema.map_slot?_calls context]
    exact List.mem_map.2 ⟨slot, h, rfl⟩
  exact List.mem_map.1 mem

/-- A walk comes to every position inside a schema that it goes into. -/
lemma Call.Reached.exists_call {document : Document} {options : WalkOptions} {first : Call → Prop}
    {schema : Schema} {context : Option String} {slot : SchemaSlot}
    (reached : (Call.inside schema context).Reached document options first)
    (h : slot ∈ schema.slots) :
    ∃ later : Call, later.Reached document options first ∧ later.slot? = some slot := by
  obtain ⟨later, hl, e⟩ := Schema.exists_mem_calls h context
  exact ⟨later, reached.of_plan rfl hl, e⟩

/-- A walk goes into a nameless object or choice, whether it becomes a model or not. -/
lemma Call.Reached.exists_inside_of_nameless {document : Document} {first : Call → Prop}
    {schema : Schema} {candidate owner : Option String}
    (reached : (Call.nameless schema candidate owner).Reached document .everything first)
    (hk : schema.tag = .object ∨ schema.tag = .oneOf) :
    ∃ context, (Call.inside schema context).Reached document .everything first := by
  have planned : ((Call.nameless schema candidate owner).plan document .everything).result =
      .ok (.forNameless .everything schema candidate) :=
    Call.plan_nameless_of_tag (hk.imp_right .inl)
  rcases Call.forNameless_cases schema candidate with ⟨name, -, -, e⟩ | e
  · have kind : schema.tag ≠ .enum := by rcases hk with hk | hk <;> rw [hk] <;> decide
    have mem : Call.inside schema (some name) ∈
        Registered.calls .everything name ⟨schema, .synthetic⟩ := by
      rw [Registered.calls_of_tag kind]
      exact List.mem_singleton_self _
    exact ⟨some name, reached.of_plan planned (by rw [e]; exact mem)⟩
  · exact ⟨candidate, reached.of_plan planned (by rw [e]; exact List.mem_singleton_self _)⟩

/-- A walk goes into a nameless member with positions inside, other than an array. -/
lemma Call.Reached.inside_of_member {document : Document} {first : Call → Prop} {schema : Schema}
    {slot : SchemaSlot} {context : Option String}
    (reached : (Call.member slot context).Reached document .everything first)
    (hs : (slot.resolve document).result = .ok schema) (hn : schema.name? = none)
    (hk : schema.tag = .object ∨ schema.tag = .oneOf ∨ schema.tag = .anyOf ∨ schema.tag = .allOf) :
    (Call.inside schema context).Reached document .everything first :=
  reached.of_plan (Call.plan_member_of_tag hs hn hk) (List.mem_singleton_self _)

/-- A walk goes into the nameless objects and choices to which it comes. -/
lemma Call.Reached.exists_inside {document : Document} {first : Call → Prop} {call : Call}
    {schema : Schema} (reached : call.Reached document .everything first)
    (about : call.About document schema) (hn : schema.name? = none)
    (hk : schema.tag = .object ∨ schema.tag = .oneOf) :
    ∃ context, (Call.inside schema context).Reached document .everything first := by
  cases call with
  | child slot candidate owner =>
    have going := reached.of_plan (Call.plan_child_of_nameless about hn) (List.mem_singleton_self _)
    exact going.exists_inside_of_nameless hk
  | nameless own candidate owner =>
    obtain rfl := about
    exact reached.exists_inside_of_nameless hk
  | inside own context =>
    obtain rfl := about
    exact ⟨context, reached⟩
  | member slot context => exact ⟨context, reached.inside_of_member about hn (hk.imp_right .inl)⟩

namespace Registry.Walked

variable {document : Document} {first : Call → Prop} {registry : Registry}
  (walked : registry.Walked document .everything first)
include walked

/-- The position of a call that is reached resolves. -/
lemma exists_schema {call : Call} {slot : SchemaSlot}
    (reached : call.Reached document .everything first) (h : call.slot? = some slot) :
    ∃ schema, (slot.resolve document).result = .ok schema := by
  obtain ⟨plan, planned⟩ := walked.planned reached
  cases call with
  | child own candidate owner =>
    cases h
    obtain ⟨schema, hs, -⟩ := Call.exists_of_plan_child planned
    exact ⟨schema, hs⟩
  | member own context =>
    cases h
    obtain ⟨schema, hs, -⟩ := Call.exists_of_plan_member planned
    exact ⟨schema, hs⟩
  | nameless => cases h
  | inside => cases h

/-- A schema with a name at the position of a call that is reached is registered, and the walk goes on
into it. -/
lemma registered_of_name {call : Call} {slot : SchemaSlot} {schema : Schema} {name : String}
    (reached : call.Reached document .everything first) (h : call.slot? = some slot)
    (hs : (slot.resolve document).result = .ok schema) (hn : schema.name? = some name) :
    registry.get? name = some ⟨schema, .component⟩ ∧
      (Call.inside schema (some name)).Reached document .everything first := by
  have planned : (call.plan document .everything).result =
      .ok (.register .everything name ⟨schema, .component⟩) := by
    cases call with
    | child => cases h; exact Call.plan_child_of_name hs hn
    | member => cases h; exact Call.plan_member_of_name hs hn
    | nameless => cases h
    | inside => cases h
  exact ⟨walked.kept reached ⟨_, planned, rfl⟩,
    reached.of_plan planned (List.mem_singleton_self _)⟩

/-- A walk goes into what is registered, other than enumerations. -/
lemma inside_of_registered {name : String} {model : Registered}
    (held : registry.get? name = some model) (hk : model.schema.tag ≠ .enum) :
    (Call.inside model.schema (some name)).Reached document .everything first := by
  obtain ⟨call, reached, plan, planned, hm⟩ := walked.entered held
  refine reached.of_plan planned ?_
  rw [Call.eq_register_of_model planned hm]
  change _ ∈ model.calls .everything name
  rw [Registered.calls_of_tag hk]
  exact List.mem_singleton_self _

/-- The walk comes to every position inside a nameless schema to which it comes. -/
lemma exists_call_of_nameless {schema : Schema} {candidate owner : Option String} {slot : SchemaSlot}
    (reached : (Call.nameless schema candidate owner).Reached document .everything first)
    (h : slot ∈ schema.slots) :
    ∃ later : Call, later.Reached document .everything first ∧ later.slot? = some slot := by
  obtain ⟨plan, planned⟩ := walked.planned reached
  rcases Call.plan_nameless_cases planned with
    ⟨none, rfl⟩ | ⟨only, one, rfl⟩ | ⟨name, -, -, rfl⟩ | rfl
  · rw [none] at h
    cases h
  · rw [one] at h
    obtain rfl := List.mem_singleton.1 h
    exact ⟨_, reached.of_plan planned (List.mem_singleton_self _), rfl⟩
  -- A model without calls is an enumeration, which has no positions inside.
  · cases hc : Registered.calls .everything name ⟨schema, .synthetic⟩ with
    | nil =>
      rw [Registered.slots_eq_nil_of_calls hc] at h
      cases h
    | cons later rest =>
      have mem : later ∈ Registered.calls .everything name ⟨schema, .synthetic⟩ :=
        hc ▸ List.mem_cons_self
      obtain rfl := Plan.eq_inside_of_mem_register mem
      exact (reached.of_plan planned mem).exists_call h
  · exact (reached.of_plan planned (List.mem_singleton_self _)).exists_call h

/-- The walk comes to every position inside a schema to which it comes. -/
theorem exists_call_of_slot {call : Call} {schema : Schema} {slot : SchemaSlot}
    (reached : call.Reached document .everything first) (about : call.About document schema)
    (h : slot ∈ schema.slots) :
    ∃ later : Call, later.Reached document .everything first ∧ later.slot? = some slot := by
  obtain ⟨plan, planned⟩ := walked.planned reached
  cases call with
  | child own candidate owner =>
    cases hn : schema.name? with
    | some name => exact (walked.registered_of_name reached rfl about hn).2.exists_call h
    | none =>
      have going := reached.of_plan (Call.plan_child_of_nameless about hn)
        (List.mem_singleton_self _)
      exact walked.exists_call_of_nameless going h
  | nameless own candidate owner =>
    obtain rfl := about
    exact walked.exists_call_of_nameless reached h
  | inside own context =>
    obtain rfl := about
    exact reached.exists_call h
  | member own context =>
    obtain ⟨found, hs, hp⟩ := Call.exists_of_plan_member planned
    obtain rfl : found = schema := Except.ok.inj (hs.symm.trans about)
    rcases hp with ⟨name, hn, rfl⟩ | ⟨-, ⟨none, rfl⟩ | ⟨items, one, rfl⟩ | rfl⟩
    · exact (walked.registered_of_name reached rfl about hn).2.exists_call h
    · rw [none] at h
      cases h
    · rw [one] at h
      obtain rfl := List.mem_singleton.1 h
      exact ⟨_, reached.of_plan planned (List.mem_singleton_self _), rfl⟩
    · exact (reached.of_plan planned (List.mem_singleton_self _)).exists_call h

end Registry.Walked

end OpenApiManifest
