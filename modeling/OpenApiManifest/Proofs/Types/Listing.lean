import OpenApiManifest.Proofs.References
import OpenApiManifest.Proofs.Types.Faultless

/-!
# Lists of arrays that make no difference

Whether a schema is a model of its own hangs on the list of arrays for arrays, and for the members of choices
that have names and are no objects.  Lists that agree on the names of these give the same types
(`Document.ListsAlike`, `Document.ListsAlike.types_eq`).
-/

namespace OpenApiManifest

/-- Two lists of names that agree on the arrays in the components of a document, and on those members of its
choices that are no objects. -/
structure Document.ListsAlike (document : Document) (listed others : List String) : Prop where
  array : ∀ name schema, document.schema? name = some (.owned schema) → schema.tag = .array →
    (name ∈ listed ↔ name ∈ others)
  member : ∀ choice slot member name, document.Contains (.owned choice) → choice.tag = .oneOf →
    slot ∈ choice.members → (slot.resolve document).result = .ok member →
    member.name? = some name → member.type?.getD .object ≠ .object → (name ∈ listed ↔ name ∈ others)

/-- Lists are alike that differ in names of the components only that stand for objects, or for what has no
other type. -/
lemma Document.ListsAlike.of_objects {document : Document} (coherent : document.Coherent)
    {listed others : List String}
    (h : ∀ name, (name ∈ listed ↔ name ∈ others) ∨ ∀ schema, document.schema? name = some (.owned schema) →
      schema.tag ≠ .array ∧ schema.type?.getD .object = .object) : document.ListsAlike listed others where
  array name schema held tag := (h name).resolve_right fun objects => (objects schema held).1 tag
  member choice slot member name contains _ hs resolved named typed := by
    refine (h name).resolve_right fun objects => ?_
    have inside : document.Contains (.owned member) :=
      .resolve (.inside contains (Schema.mem_slots_of_members hs)) resolved
    exact typed (objects member ((coherent.name?_eq_some_iff inside).1 named)).2

namespace Document.ListsAlike

variable {document : Document} {listed others : List String} {schema : Schema} {slot : SchemaSlot}
  (alike : document.ListsAlike listed others)
include alike

/-- Whether a schema is emitted under its name is the same under lists that are alike. -/
lemma isEmitted_eq {name : String} (h : schema.tag = .array → document.schema? name = some (.owned schema)) :
    schema.isEmitted listed name = schema.isEmitted others name := by
  unfold Schema.isEmitted
  cases hk : schema.kind with
  | array items minItems maxItems =>
    have tag : schema.tag = .array := by rw [Schema.tag, hk]
    exact decide_eq_decide.2 (alike.array name schema (h tag) tag)
  | _ => rfl

variable (coherent : document.Coherent)

section Types

include coherent

/-- Whether a schema is a model of its own is the same under lists that are alike. -/
lemma emits_eq (contains : document.Contains (.owned schema)) :
    Mapper.emits ⟨document, listed⟩ schema = Mapper.emits ⟨document, others⟩ schema := by
  unfold Mapper.emits
  cases hn : schema.name? with
  | none => rfl
  | some name => exact alike.isEmitted_eq fun _ => (coherent.name?_eq_some_iff contains).1 hn

/-- The form of the type of a schema is the same under lists that are alike. -/
lemma form_eq (contains : document.Contains (.owned schema)) (candidate : Option String) :
    Mapper.form ⟨document, listed⟩ schema candidate = Mapper.form ⟨document, others⟩ schema candidate := by
  unfold Mapper.form
  rw [alike.emits_eq coherent contains]

omit coherent in
/-- Whether a member of a choice is a model is the same under lists that are alike. -/
lemma memberModel?_eq {choice member : Schema} (contains : document.Contains (.owned choice))
    (hk : choice.tag = .oneOf) (hs : slot ∈ choice.members)
    (resolved : (slot.resolve document).result = .ok member) :
    Mapper.memberModel? ⟨document, listed⟩ member = Mapper.memberModel? ⟨document, others⟩ member := by
  unfold Mapper.memberModel?
  cases hn : member.name? with
  | none => rfl
  | some name =>
    by_cases object : member.type?.getD .object = .object
    · simp [object]
    · simp [object, alike.member choice slot member name contains hk hs resolved hn object]

/-- Under lists that are alike the types of the schemas of a document are the same. -/
theorem types_eq (steps : Nat) :
    (∀ schema candidate, document.Contains (.owned schema) →
      Mapper.schemaType ⟨document, listed⟩ steps schema candidate =
        Mapper.schemaType ⟨document, others⟩ steps schema candidate) ∧
    (∀ slot candidate, document.Contains slot →
      Mapper.valueType ⟨document, listed⟩ steps slot candidate =
        Mapper.valueType ⟨document, others⟩ steps slot candidate) ∧
    (∀ choice slot, document.Contains (.owned choice) → choice.tag = .oneOf → slot ∈ choice.members →
      Mapper.unionMember ⟨document, listed⟩ steps slot =
        Mapper.unionMember ⟨document, others⟩ steps slot) := by
  -- The three call each other, so they are shown together.
  induction steps with
  | zero => exact ⟨fun _ _ _ => rfl, fun _ _ _ => rfl, fun _ _ _ _ _ => rfl⟩
  | succ steps ih =>
    obtain ⟨schemaType, valueType, unionMember⟩ := ih
    refine ⟨fun schema candidate contains => ?_, fun slot candidate contains => ?_,
      fun choice slot contains hk hs => ?_⟩
    · rw [Mapper.schemaType_succ, Mapper.schemaType_succ, alike.form_eq coherent contains]
      cases hf : Mapper.form ⟨document, others⟩ schema candidate with
      | model name model => rfl
      | plain type => rfl
      | only slot =>
        have mem : slot ∈ schema.slots := by
          rw [Schema.slots, (Mapper.form_eq_only hf).2]
          exact List.mem_singleton_self slot
        exact Run.bind_congr fun member hm =>
          schemaType member candidate (.resolve (.inside contains mem) hm)
      | list slot inner =>
        obtain ⟨⟨least, most, hk⟩, -⟩ := Mapper.form_eq_list hf
        have mem : slot ∈ schema.slots := Schema.mem_slots_of_items? (by rw [Schema.items?, hk])
        exact congrArg (· >>= _) (valueType slot inner (.inside contains mem))
      | map slot =>
        obtain ⟨-, -, properties, required, additional, hk, hv⟩ := Mapper.form_eq_map hf
        have mem : slot ∈ schema.slots :=
          Schema.mem_slots_of_additional? (by rw [Schema.additional?, hk]; exact hv)
        exact congrArg (· >>= _) (valueType slot none (.inside contains mem))
      | union members =>
        obtain ⟨-, -, hk⟩ := Mapper.form_eq_union hf
        have tag : schema.tag = .oneOf := by rw [Schema.tag, hk]
        refine congrArg (· >>= _) (Run.mapM_congr fun slot hs => ?_)
        exact unionMember schema slot contains tag (by rwa [Schema.members, hk])
    · rw [Mapper.valueType, Mapper.valueType]
      exact Run.bind_congr fun schema hs =>
        congrArg (· >>= _) (schemaType schema candidate (contains.resolve hs))
    · rw [Mapper.unionMember_succ, Mapper.unionMember_succ]
      refine Run.bind_congr fun member hm => ?_
      rw [alike.memberModel?_eq contains hk hs hm]
      have inside := Contains.resolve (.inside contains (Schema.mem_slots_of_members hs)) hm
      rw [schemaType member none inside]

/-- The type at a position is the same under lists that are alike. -/
lemma slotType_eq (contains : document.Contains slot) (candidate : Option String) :
    Mapper.slotType ⟨document, listed⟩ slot candidate = Mapper.slotType ⟨document, others⟩ slot candidate :=
  Run.bind_congr fun schema hs =>
    (alike.types_eq coherent _).1 schema candidate (contains.resolve hs)

variable (contains : document.Contains (.owned schema))
include contains

/-- The type of a model is the same under lists that are alike. -/
lemma modelType_eq (name : String) :
    Mapper.modelType ⟨document, listed⟩ name schema = Mapper.modelType ⟨document, others⟩ name schema := by
  unfold Mapper.modelType
  split
  · rename_i items least most hk
    have mem : items ∈ schema.slots := Schema.mem_slots_of_items? (by rw [Schema.items?, hk])
    exact congrArg (· >>= _) ((alike.types_eq coherent _).2.1 items _ (.inside contains mem))
  · exact (alike.types_eq coherent _).1 schema _ contains

/-- The members of a choice are described in the same way under lists that are alike. -/
lemma unionMembers_eq (hk : schema.tag = .oneOf) :
    Mapper.unionMembers ⟨document, listed⟩ schema = Mapper.unionMembers ⟨document, others⟩ schema :=
  Run.mapM_congr fun slot hs => (alike.types_eq coherent _).2.2 schema slot contains hk hs

variable [Spelling]

/-- The parameters of a choice are the same under lists that are alike. -/
lemma unionParameters_eq :
    Mapper.unionParameters ⟨document, listed⟩ schema = Mapper.unionParameters ⟨document, others⟩ schema := by
  refine Run.foldlM_congr fun parameters slot hs => Run.bind_congr fun member hm => ?_
  have inside := document.contains_inner slot member
    (.inside contains (Schema.mem_slots_of_members hs)) hm
  split
  · rename_i properties hp
    refine Run.foldlM_congr fun parameters entry he => ?_
    have mem := Schema.mem_slots_of_properties? hp (List.mem_map.2 ⟨entry, he, rfl⟩)
    dsimp only
    rw [alike.slotType_eq coherent (inside _ mem)]
  · rfl

/-- The types in the body of a model are the same under lists that are alike. -/
lemma bodyTypes_eq (name : String) :
    Mapper.bodyTypes ⟨document, listed⟩ name schema = Mapper.bodyTypes ⟨document, others⟩ name schema := by
  unfold Mapper.bodyTypes
  split
  · rename_i properties required additional hk
    have hp : schema.properties? = some properties := by rw [Schema.properties?, hk]
    have types := Run.mapM_congr fun (entry : String × SchemaSlot) (he : entry ∈ properties) => by
      have mem := Schema.mem_slots_of_properties? hp (List.mem_map.2 ⟨entry, he, rfl⟩)
      exact alike.slotType_eq coherent (.inside contains mem)
        (some (Naming.syntheticName name entry.1))
    refine (congrArg (· >>= _) types).trans (congrArg _ (funext fun types => ?_))
    split
    · rename_i value hv
      have mem : value ∈ schema.slots :=
        Schema.mem_slots_of_additional? (by rw [Schema.additional?, hk]; exact hv)
      rw [alike.slotType_eq coherent (.inside contains mem)]
    · rfl
  · refine Run.bind_congr fun flattened hf => Run.mapM_congr fun entry he => ?_
    exact alike.slotType_eq coherent
      (Flattened.safe_of_property document.contains_inner (fun _ mem => .inside contains mem) hf he) _
  · rename_i members hk
    exact congrArg (· >>= _) (alike.unionMembers_eq coherent contains (by rw [Schema.tag, hk]))
  · exact congrArg (· >>= _) (alike.modelType_eq coherent contains name)
  · rfl
  · rfl
  · rfl

/-- The references of a model are the same under lists that are alike. -/
lemma references_eq (name : String) :
    Mapper.references ⟨document, listed⟩ name schema = Mapper.references ⟨document, others⟩ name schema :=
  congrArg (· >>= _) (alike.bodyTypes_eq coherent contains name)

end Types

end Document.ListsAlike

end OpenApiManifest
