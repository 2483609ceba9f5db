import OpenApiManifest.Proofs.Types.Agreement
import OpenApiManifest.Proofs.Walk.Safety

/-!
# Types name models that are emitted

A model that a type names is emitted if the schema that it stands for is one of those that are.  Only a
choice may name a member after itself that is not (`Mapper.Stray`): it takes a member for an object that
has no type, and for a model whatever is listed.
-/

namespace OpenApiManifest

/-- A member of a choice of the document that is a model in the type of that choice. -/
inductive Mapper.NamesMember (mapper : Mapper) (name : String) (member : Schema) : Prop
  | intro {choice : Schema} {members : List SchemaSlot} {slot : SchemaSlot} :
    mapper.document.Contains (.owned choice) → choice.kind = .oneOf members → slot ∈ members →
      (slot.resolve mapper.document).result = .ok member → mapper.memberModel? member = some name →
      NamesMember mapper name member

/-- The name of a member that is a model in the type of a choice, but is not emitted. -/
def Mapper.Stray (mapper : Mapper) (name : String) : Prop :=
  ∃ member, mapper.NamesMember name member ∧ member.isEmitted mapper.listModels name = false

/-- A name of a model that is emitted, or of a member that is not. -/
def Registry.Emits (registry : Registry) (mapper : Mapper) (name : String) : Prop :=
  name ∈ (registry.emitted mapper.listModels).names ∨ mapper.Stray name

/-- A schema that a call of a document is about stands in the document. -/
lemma Call.About.contains {document : Document} {call : Call} {schema : Schema}
    (about : call.About document schema) (within : call.Within document) :
    document.Contains (.owned schema) := by
  cases call with
  | child => exact Document.Contains.resolve within about
  | member => exact Document.Contains.resolve within about
  | nameless =>
    obtain rfl := about
    exact within.1
  | inside =>
    obtain rfl := about
    exact within

variable [Spelling]

/-- A position to which a walk comes is one of the document, if the walk started there. -/
lemma Document.Visited.contains {document : Document} {first : Call → Prop} {slot : SchemaSlot}
    (visited : document.Visited first slot) (start : ∀ call, first call → call.Within document) :
    document.Contains slot := by
  obtain ⟨call, reached, h⟩ := visited
  have within := reached.within start
  cases call with
  | child =>
    cases h
    exact within
  | member =>
    cases h
    exact within
  | nameless => cases h
  | inside => cases h

section Emission

variable {mapper : Mapper} {first : Call → Prop} {registry : Registry} {schema : Schema}
  {candidate : Option String} {name : String} {slot : SchemaSlot} {type : TypeRef}

omit [Spelling] in
/-- A model that is registered is emitted, unless it is a stray member. -/
lemma Registry.emits_of_registered {model : Registered} (held : registry.get? name = some model)
    (h : model.schema.isEmitted mapper.listModels name = true ∨
      mapper.NamesMember name model.schema) : registry.Emits mapper name := by
  cases emitted : model.schema.isEmitted mapper.listModels name with
  | true =>
    have mem : (name, model) ∈ (registry.emitted mapper.listModels).models :=
      List.mem_filter.2 ⟨Entries.mem_of_get? held, emitted⟩
    exact .inl (List.mem_map.2 ⟨_, mem, rfl⟩)
  | false =>
    rw [emitted] at h
    exact .inr ⟨model.schema, h.resolve_left nofun, emitted⟩

omit [Spelling] in
/-- A schema that wants a name is emitted under any. -/
lemma Schema.isEmitted_of_wantsName {listModels : List String} (wants : schema.wantsName = true) :
    schema.isEmitted listModels name = true := by
  unfold wantsName at wants
  unfold isEmitted
  cases hk : schema.kind with
  | primitive => simp [hk] at wants
  | array => simp [hk] at wants
  | anyOf => simp [hk] at wants
  | _ => rfl

/-- A tracked schema stands in the document, if the walk started there. -/
lemma Tracked.contains (tracked : Tracked mapper.document first registry schema candidate)
    (start : ∀ call, first call → call.Within mapper.document) :
    mapper.document.Contains (.owned schema) := by
  cases tracked with
  | named name own held inside => exact inside.within start
  | nameless owner hn reached => exact (reached.within start).1
  | visited call hn reached about => exact about.contains (reached.within start)

variable (walked : registry.Walked mapper.document .everything first)
  (start : ∀ call, first call → call.Within mapper.document)
include walked start

/-- A model that the type of a tracked schema mentions is emitted, or stray. -/
lemma Tracked.emits_of_mentions {model : Registered}
    (tracked : Tracked mapper.document first registry schema candidate)
    (h : mapper.Mentions schema candidate name model) : registry.Emits mapper name := by
  refine Registry.emits_of_registered (tracked.registered walked h) ?_
  obtain ⟨inside, inner, tracked, direct⟩ := tracked.exists_direct walked h
  cases direct with
  | model hf =>
    rcases Mapper.form_eq_model hf with ⟨emits, hn, rfl⟩ | ⟨-, -, -, wants, rfl⟩
    · rw [Mapper.emits, hn] at emits
      exact .inl emits
    · exact .inl (Schema.isEmitted_of_wantsName wants)
  | member hf hm hs hn =>
    obtain ⟨-, -, hk⟩ := Mapper.form_eq_union hf
    exact .inr (.intro (tracked.contains start) hk hm hs hn)

/-- A type that is computed for a tracked schema names models that are emitted, or stray. -/
lemma Tracked.emits {steps : Nat} (tracked : Tracked mapper.document first registry schema candidate)
    (h : (mapper.schemaType steps schema candidate).result = .ok type) :
    ∀ name ∈ type.models, registry.Emits mapper name := by
  intro name hn
  obtain ⟨model, mentions⟩ := (Mapper.mem_models_iff h).1 hn
  exact tracked.emits_of_mentions walked start mentions

namespace Registry.Walked

/-- The type at a position that a walk comes to names models that are emitted, or stray. -/
lemma emits_of_child {owner : Option String}
    (reached : (Call.child slot candidate owner).Reached mapper.document .everything first)
    (h : (mapper.slotType slot candidate).result = .ok type) :
    ∀ name ∈ type.models, registry.Emits mapper name := by
  obtain ⟨schema, hs, h⟩ := Run.bind_result_eq_ok.1 h
  exact (walked.tracked_of_child reached hs).emits walked start h

/-- The type at a position that a walk visits names models that are emitted, or stray. -/
lemma emits_of_visited (visited : mapper.document.Visited first slot)
    (h : (mapper.slotType slot none).result = .ok type) :
    ∀ name ∈ type.models, registry.Emits mapper name := by
  obtain ⟨call, reached, hc⟩ := visited
  obtain ⟨schema, hs, h⟩ := Run.bind_result_eq_ok.1 h
  exact (walked.tracked_of_slot reached hc hs).emits walked start h

omit start in
/-- A member of a choice that is a model is emitted, or stray. -/
lemma emits_of_memberModel {members : List SchemaSlot} {member : Schema}
    (contains : mapper.document.Contains (.owned schema)) (hk : schema.kind = .oneOf members)
    (hm : slot ∈ members) (visited : mapper.document.Visited first slot)
    (hs : (slot.resolve mapper.document).result = .ok member)
    (hn : mapper.memberModel? member = some name) : registry.Emits mapper name := by
  obtain ⟨call, reached, hc⟩ := visited
  have held := (walked.registered_of_name reached hc hs (Mapper.name?_of_memberModel hn)).1
  exact Registry.emits_of_registered held (.inr (.intro contains hk hm hs hn))

/-- The type of a member of a choice names models that are emitted, or stray. -/
lemma emits_of_unionMember {steps : Nat} {members : List SchemaSlot} {member : UnionMember}
    (contains : mapper.document.Contains (.owned schema)) (hk : schema.kind = .oneOf members)
    (hm : slot ∈ members) (visited : mapper.document.Visited first slot)
    (h : (mapper.unionMember steps slot).result = .ok member) :
    ∀ name ∈ member.type.models, registry.Emits mapper name := by
  obtain ⟨fewer, -, inside, hs, h⟩ := Mapper.exists_of_unionMember h
  cases hn : mapper.memberModel? inside with
  | some own =>
    rw [hn] at h
    rw [h]
    intro name he
    rw [List.mem_singleton.1 he]
    exact walked.emits_of_memberModel contains hk hm visited hs hn
  | none =>
    rw [hn] at h
    obtain ⟨call, reached, hc⟩ := visited
    exact (walked.tracked_of_slot reached hc hs).emits walked start h

omit start in
/-- What is registered is tracked with the name under which it is. -/
lemma tracked_of_registered {model : Registered} (held : registry.get? name = some model) :
    Tracked mapper.document first registry model.schema (some name) := by
  obtain ⟨call, reached, plan, planned, hm⟩ := walked.entered held
  cases call with
  | child slot candidate owner =>
    obtain ⟨schema, hs, ⟨own, hn, rfl⟩ | ⟨-, rfl⟩⟩ := Call.exists_of_plan_child planned
    · cases hm
      obtain ⟨held, inside⟩ := walked.registered_of_name reached rfl hs hn
      exact .named _ hn held inside
    · cases hm
  | nameless schema candidate owner =>
    rcases Call.plan_nameless_cases planned with
      ⟨-, rfl⟩ | ⟨slot, -, rfl⟩ | ⟨own, rfl, -, rfl⟩ | rfl
    · cases hm
    · cases hm
    · cases hm
      exact .nameless owner (walked.proper.models name _ (Entries.mem_of_get? held)).name? reached
    · cases hm
  | inside schema context =>
    cases planned
    cases hm
  | member slot context =>
    obtain ⟨schema, hs, ⟨own, hn, rfl⟩ | ⟨-, ⟨-, rfl⟩ | ⟨items, -, rfl⟩ | rfl⟩⟩ :=
      Call.exists_of_plan_member planned
    · cases hm
      obtain ⟨held, inside⟩ := walked.registered_of_name reached rfl hs hn
      exact .named _ hn held inside
    · cases hm
    · cases hm
    · cases hm

section Bodies

variable {model : Registered} (held : registry.get? name = some model)
include held

/-- The type of a registered model names models that are emitted, or stray. -/
lemma emits_of_modelType (h : (mapper.modelType name model.schema).result = .ok type) :
    ∀ name ∈ type.models, registry.Emits mapper name := by
  unfold Mapper.modelType at h
  split at h
  · rename_i items least most hk
    obtain ⟨list, hi, h⟩ := Run.bind_result_eq_ok.1 h
    cases h
    obtain ⟨fewer, -, inside, hs, spelled, ht, rfl⟩ := Mapper.exists_of_valueType hi
    rw [TypeRef.models, TypeRef.models_nullableIf]
    exact (walked.tracked_of_child (walked.reached_of_items held hk) hs).emits walked start ht
  · exact (walked.tracked_of_registered held).emits walked start h

/-- The types of the members of a registered choice name models that are emitted, or stray. -/
lemma emits_of_unionMembers (hk : model.schema.tag = .oneOf) {members : List UnionMember}
    (h : (mapper.unionMembers model.schema).result = .ok members) :
    ∀ type ∈ members.map UnionMember.type, ∀ name ∈ type.models, registry.Emits mapper name := by
  intro type ht
  obtain ⟨member, hm, rfl⟩ := List.mem_map.1 ht
  obtain ⟨slot, hs, hu⟩ := Run.exists_of_mem_mapM h hm
  have contains := (walked.proper.models name model (Entries.mem_of_get? held)).contains
  have visited := walked.visited_of_registered held slot (Schema.mem_slots_of_members hs)
  exact walked.emits_of_unionMember start contains (Schema.kind_of_tag_oneOf hk) hs visited hu

/-- The types of the parameters of a registered choice name models that are emitted, or stray. -/
lemma emits_of_unionParameters (hk : model.schema.tag = .oneOf) {parameters : Entries TypeRef}
    (h : (mapper.unionParameters model.schema).result = .ok parameters) :
    ∀ type ∈ parameters.values, ∀ name ∈ type.models, registry.Emits mapper name := by
  intro type ht
  obtain ⟨⟨property, _⟩, hp, rfl⟩ := List.mem_map.1 ht
  obtain ⟨slot, candidate, member, ht⟩ := Mapper.typesMembers_of_unionParameters h property _ hp
  have inside := walked.inside_of_registered held fun enum => by cases enum.symm.trans hk
  obtain ⟨owner, reached⟩ := walked.reached_of_memberProperty inside hk member
  exact walked.emits_of_child start reached ht

/-- The type of a flattened property of a registered model. -/
lemma emits_of_flattened {flattened : Flattened} {property : String}
    (hf : (model.schema.flatten mapper.document).result = .ok flattened)
    (hs : (property, slot) ∈ flattened.properties)
    (h : (mapper.propertyType ((flattened.declaring? property).getD name) property slot).result =
      .ok type) : ∀ name ∈ type.models, registry.Emits mapper name := by
  obtain ⟨owner, reached⟩ := walked.reached_of_flattened held hf hs
  exact walked.emits_of_child start reached h

/-- The types in the body of a registered model name models that are emitted, or stray. -/
lemma emits_of_bodyTypes {types : List TypeRef}
    (h : (mapper.bodyTypes name model.schema).result = .ok types) :
    ∀ type ∈ types, ∀ name ∈ type.models, registry.Emits mapper name := by
  have visited := walked.visited_of_registered held
  -- The types in the body of an object, a composition, a choice and an array come from different positions.
  unfold Mapper.bodyTypes at h
  split at h
  · rename_i properties required additional hk
    have hp : model.schema.properties? = some properties := by rw [Schema.properties?, hk]
    have inside := walked.inside_of_registered held fun enum => by simp [Schema.tag, hk] at enum
    obtain ⟨typed, ht, h⟩ := Run.bind_result_eq_ok.1 h
    have ofProperties : ∀ type ∈ typed, ∀ name ∈ type.models, registry.Emits mapper name := by
      intro type mem
      obtain ⟨⟨property, slot⟩, he, ht⟩ := Run.exists_of_mem_mapM ht mem
      exact walked.emits_of_child start (inside.of_property hp he) ht
    cases hv : additional.slot? with
    | none =>
      rw [hv] at h
      cases h
      exact ofProperties
    | some value =>
      rw [hv] at h
      obtain ⟨last, hl, h⟩ := Run.bind_result_eq_ok.1 h
      cases h
      have mem : value ∈ model.schema.slots :=
        Schema.mem_slots_of_additional? (by rw [Schema.additional?, hk]; exact hv)
      intro type ht
      rcases List.mem_append.1 ht with ht | ht
      · exact ofProperties type ht
      · rw [List.mem_singleton.1 ht]
        exact walked.emits_of_visited start (visited value mem) hl
  · obtain ⟨flattened, hf, h⟩ := Run.bind_result_eq_ok.1 h
    intro type mem
    obtain ⟨⟨property, slot⟩, he, ht⟩ := Run.exists_of_mem_mapM h mem
    exact walked.emits_of_flattened start held hf he ht
  · rename_i hk
    obtain ⟨members, hm, h⟩ := Run.bind_result_eq_ok.1 h
    cases h
    exact walked.emits_of_unionMembers start held (by rw [Schema.tag, hk]) hm
  · obtain ⟨own, ht, h⟩ := Run.bind_result_eq_ok.1 h
    cases h
    intro type mem
    rw [List.mem_singleton.1 mem]
    exact walked.emits_of_modelType start held ht
  all_goals
    cases h
    exact fun _ mem => absurd mem List.not_mem_nil

/-- The references of a registered model are emitted, or stray. -/
lemma emits_of_references {names : List String}
    (h : (mapper.references name model.schema).result = .ok names) :
    ∀ name ∈ names, registry.Emits mapper name := by
  obtain ⟨types, ht, h⟩ := Run.bind_result_eq_ok.1 h
  cases h
  intro name hn
  have mem := (OrderedSet.mem_ofList).1 (List.mem_filter.1 hn).1
  obtain ⟨type, hm, hn⟩ := TypeRef.mem_modelsOfAll.1 mem
  exact walked.emits_of_bodyTypes start held ht type hm name hn

end Bodies

end Registry.Walked

end Emission

end OpenApiManifest
