import OpenApiManifest.Proofs.Types.Mentions
import OpenApiManifest.Proofs.Walk.Covering

/-!
# Types mention what a walk has registered

A walk and the types of schemas pass names down through the same positions.  A schema is tracked
(`Tracked`) if a walk came to it with the name that its type would take, and every model that the type
of a tracked schema mentions is mentioned directly by one that is tracked, too
(`Tracked.exists_direct`).  So these models are registered (`Tracked.registered`).
-/

namespace OpenApiManifest

variable [Spelling]

/-- A schema to which a walk came, and a name for it: it was registered under its own name, or the walk
came to it with the name, or there is none for it. -/
inductive Tracked (document : Document) (first : Call → Prop) (registry : Registry) :
    Schema → Option String → Prop
  | named {schema : Schema} {candidate : Option String} (name : String) :
    schema.name? = some name → registry.get? name = some ⟨schema, .component⟩ →
      (Call.inside schema (some name)).Reached document .everything first →
      Tracked document first registry schema candidate
  | nameless {schema : Schema} {candidate : Option String} (owner : Option String) :
    schema.name? = none → (Call.nameless schema candidate owner).Reached document .everything first →
      Tracked document first registry schema candidate
  | visited {schema : Schema} (call : Call) :
    schema.name? = none → call.Reached document .everything first → call.About document schema →
      Tracked document first registry schema none

/-- The type of a schema mentions a model itself: the schema is the model, or a choice that has the
model for a member. -/
inductive Mapper.Direct (mapper : Mapper) (schema : Schema) (candidate : Option String) (name : String) :
    Registered → Prop
  | model {model : Registered} : mapper.form schema candidate = .model name model →
    Direct mapper schema candidate name model
  | member {members : List SchemaSlot} {slot : SchemaSlot} {member : Schema} :
    mapper.form schema candidate = .union members → slot ∈ members →
      (slot.resolve mapper.document).result = .ok member → mapper.memberModel? member = some name →
      Direct mapper schema candidate name ⟨member, .component⟩

namespace Registry.Walked

variable {document : Document} {first : Call → Prop} {registry : Registry}
  (walked : registry.Walked document .everything first) {slot : SchemaSlot} {schema : Schema}
include walked

/-- The schema at a position to which a walk came is tracked with the name for the position. -/
lemma tracked_of_child {candidate owner : Option String}
    (reached : (Call.child slot candidate owner).Reached document .everything first)
    (hs : (slot.resolve document).result = .ok schema) :
    Tracked document first registry schema candidate := by
  cases hn : schema.name? with
  | some name =>
    obtain ⟨held, inside⟩ := walked.registered_of_name reached rfl hs hn
    exact .named name hn held inside
  | none =>
    have going := reached.of_plan (Call.plan_child_of_nameless hs hn) (List.mem_singleton_self _)
    exact .nameless owner hn going

/-- The schema at a position to which a walk came in any way is tracked without a name. -/
lemma tracked_of_slot {call : Call} (reached : call.Reached document .everything first)
    (h : call.slot? = some slot) (hs : (slot.resolve document).result = .ok schema) :
    Tracked document first registry schema none := by
  cases hn : schema.name? with
  | some name =>
    obtain ⟨held, inside⟩ := walked.registered_of_name reached h hs hn
    exact .named name hn held inside
  | none => exact .visited call hn reached (Call.about_of_slot? h hs)

end Registry.Walked

namespace Tracked

variable {document : Document} {first : Call → Prop} {registry : Registry} {schema : Schema}
  {candidate : Option String} {name : String}

/-- A walk goes into the tracked objects and choices. -/
lemma exists_inside (tracked : Tracked document first registry schema candidate)
    (hk : schema.tag = .object ∨ schema.tag = .oneOf) :
    ∃ context, (Call.inside schema context).Reached document .everything first := by
  cases tracked with
  | named name own held inside => exact ⟨_, inside⟩
  | nameless owner hn reached => exact reached.exists_inside_of_nameless hk
  | visited call hn reached about => exact reached.exists_inside about hn hk

/-- A walk comes to the members of a tracked choice. -/
lemma exists_member {slot : SchemaSlot} {members : List SchemaSlot}
    (tracked : Tracked document first registry schema candidate) (hk : schema.kind = .oneOf members)
    (hm : slot ∈ members) : (Call.member slot none).Reached document .everything first := by
  obtain ⟨context, inside⟩ := tracked.exists_inside (.inr (by rw [Schema.tag, hk]))
  have mem : Call.member slot none ∈ schema.calls context := by simp [Schema.calls, hk, hm]
  exact inside.of_plan rfl mem

variable (walked : registry.Walked document .everything first)
include walked

/-- A tracked schema that becomes a model under the name for it is registered under that name. -/
lemma registered_synthetic (tracked : Tracked document first registry schema (some name))
    (hn : schema.name? = none) (one : schema.onlyMember? = none) (wants : schema.wantsName = true) :
    registry.get? name = some ⟨schema, .synthetic⟩ := by
  cases tracked with
  | named _ own =>
    rw [hn] at own
    cases own
  | nameless owner _ reached =>
    have planned : ((Call.nameless schema (some name) owner).plan document .everything).result =
        .ok (.register .everything name ⟨schema, .synthetic⟩) := by
      cases hk : schema.kind with
      | enum values => simp [Call.plan, hk]
      | primitive => simp [Schema.wantsName, hk] at wants
      | array => simp [Schema.wantsName, hk] at wants
      | anyOf => simp [Schema.wantsName, hk] at wants
      | _ =>
        rw [Call.plan_nameless_of_tag (by simp [Schema.tag, hk, one]), Plan.forNameless]
        simp [wants]
    exact walked.kept reached ⟨_, planned, rfl⟩

/-- The only member of a tracked schema is tracked. -/
lemma only {member : Schema} {slot : SchemaSlot}
    (tracked : Tracked document first registry schema candidate) (hn : schema.name? = none)
    (hk : schema.kind = .allOf [slot]) (hs : (slot.resolve document).result = .ok member) :
    Tracked document first registry member candidate := by
  cases tracked with
  | named _ own =>
    rw [hn] at own
    cases own
  | nameless owner _ reached =>
    have planned : ((Call.nameless schema candidate owner).plan document .everything).result =
        .ok ⟨none, [.child slot candidate owner]⟩ := by
      simp [Call.plan, hk]
    exact walked.tracked_of_child (reached.of_plan planned (List.mem_singleton_self _)) hs
  | visited call _ reached about =>
    have mem : slot ∈ schema.slots := by
      rw [Schema.slots, hk]
      exact List.mem_singleton_self slot
    obtain ⟨later, going, h⟩ := walked.exists_call_of_slot reached about mem
    exact walked.tracked_of_slot going h hs

/-- The items of a tracked array are tracked with the name for them. -/
lemma items {items : Schema} {slot : SchemaSlot} {least most : Option Nat}
    (tracked : Tracked document first registry schema candidate)
    (hk : schema.kind = .array slot least most) (hs : (slot.resolve document).result = .ok items) :
    Tracked document first registry items ((schema.name?.map Naming.itemName).or candidate) := by
  cases tracked with
  | named name own held inside =>
    rw [own]
    have mem : Call.child slot (some (Naming.itemName name)) (some name) ∈ schema.calls (some name) := by
      simp [Schema.calls, hk]
    exact walked.tracked_of_child (inside.of_plan rfl mem) hs
  | nameless owner hn reached =>
    rw [hn]
    have planned : ((Call.nameless schema candidate owner).plan document .everything).result =
        .ok ⟨none, [.child slot candidate owner]⟩ := by
      simp [Call.plan, hk]
    exact walked.tracked_of_child (reached.of_plan planned (List.mem_singleton_self _)) hs
  | visited call hn reached about =>
    rw [hn]
    have mem : slot ∈ schema.slots := Schema.mem_slots_of_items? (by rw [Schema.items?, hk])
    obtain ⟨later, going, h⟩ := walked.exists_call_of_slot reached about mem
    exact walked.tracked_of_slot going h hs

/-- The values of a tracked object are tracked without a name. -/
lemma values {value : Schema} {slot : SchemaSlot} {properties : Entries SchemaSlot}
    {required : List String} {additional : AdditionalProperties SchemaSlot}
    (tracked : Tracked document first registry schema candidate)
    (hk : schema.kind = .object properties required additional) (hv : additional.slot? = some slot)
    (hs : (slot.resolve document).result = .ok value) :
    Tracked document first registry value none := by
  obtain ⟨context, inside⟩ := tracked.exists_inside (.inl (by rw [Schema.tag, hk]))
  have mem : Call.child slot none context ∈ schema.calls context := by simp [Schema.calls, hk, hv]
  exact walked.tracked_of_child (inside.of_plan rfl mem) hs

end Tracked

section Mentions

variable {mapper : Mapper} {first : Call → Prop} {registry : Registry} {schema : Schema}
  {candidate : Option String} {name : String} {model : Registered}
  (walked : registry.Walked mapper.document .everything first)
include walked

/-- A model that the type of a tracked schema mentions is mentioned directly by a tracked schema. -/
theorem Tracked.exists_direct (tracked : Tracked mapper.document first registry schema candidate)
    (h : mapper.Mentions schema candidate name model) :
    ∃ inside inner, Tracked mapper.document first registry inside inner ∧
      mapper.Direct inside inner name model := by
  induction h with
  | model hf => exact ⟨_, _, tracked, .model hf⟩
  | only hf hs _ ih =>
    obtain ⟨emitted, hk⟩ := Mapper.form_eq_only hf
    have hn := Mapper.name?_eq_none_of_not_emitted emitted fun name => by simp [Schema.isEmitted, hk]
    exact ih (tracked.only walked hn hk hs)
  | items hf hs _ ih =>
    obtain ⟨⟨least, most, hk⟩, rfl⟩ := Mapper.form_eq_list hf
    exact ih (tracked.items walked hk hs)
  | values hf hs _ ih =>
    obtain ⟨-, -, properties, required, additional, hk, hv⟩ := Mapper.form_eq_map hf
    exact ih (tracked.values walked hk hv hs)
  | memberModel hf hm hs hn => exact ⟨_, _, tracked, .member hf hm hs hn⟩
  | member hf hm hs _ _ ih =>
    obtain ⟨-, -, hk⟩ := Mapper.form_eq_union hf
    exact ih (walked.tracked_of_slot (tracked.exists_member hk hm) rfl hs)

/-- The models that the type of a tracked schema mentions are registered. -/
theorem Tracked.registered (tracked : Tracked mapper.document first registry schema candidate)
    (h : mapper.Mentions schema candidate name model) : registry.get? name = some model := by
  obtain ⟨inside, inner, tracked, direct⟩ := tracked.exists_direct walked h
  cases direct with
  | model hf =>
    rcases Mapper.form_eq_model hf with ⟨-, hn, rfl⟩ | ⟨one, hn, rfl, wants, rfl⟩
    -- A model under its own name was registered when the walk came to it.
    · cases tracked with
      | named _ own held _ =>
        rw [hn] at own
        cases own
        exact held
      | nameless _ own _ =>
        rw [hn] at own
        cases own
      | visited _ own _ _ =>
        rw [hn] at own
        cases own
    · exact tracked.registered_synthetic walked hn one wants
  | member hf hm hs hn =>
    obtain ⟨-, -, hk⟩ := Mapper.form_eq_union hf
    have reached := tracked.exists_member hk hm
    exact (walked.registered_of_name reached rfl hs (Mapper.name?_of_memberModel hn)).1

end Mentions

end OpenApiManifest
