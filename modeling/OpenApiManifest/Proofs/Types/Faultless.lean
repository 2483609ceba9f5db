import OpenApiManifest.Proofs.Faultless
import OpenApiManifest.Proofs.Flattening
import OpenApiManifest.Proofs.Types.Mentions

/-!
# Types of safe positions

Where the positions of a document are safe to resolve, so is what is computed from them: flattened
schemas, the types of schemas, and the types in the bodies of models.
-/

namespace OpenApiManifest

section Flattening

variable {document : Document} {known : Found → Prop} {safe : SchemaSlot → Prop}

section Positions

variable (inner : ∀ slot schema, safe slot → (slot.resolve document).result = .ok schema →
  ∀ inside ∈ schema.slots, safe inside)
include inner

/-- The positions in what is merged into a schema are safe if those in the schema are. -/
lemma Schema.Merges.safe_of_mem {owner behalf : Option String} {schema object : Schema}
    (merges : schema.Merges document owner behalf object) (h : ∀ slot ∈ schema.slots, safe slot) :
    ∀ slot ∈ object.slots, safe slot := by
  induction merges with
  | itself => exact h
  | @member _ composed _ members slot _ hc hs hm ih =>
    have mem : slot ∈ composed.slots := by rwa [Schema.slots, hc]
    exact inner slot _ (ih slot mem) hm

variable {schema : Schema} {flattened : Flattened} {slot : SchemaSlot}

/-- The positions of flattened properties are safe. -/
lemma Flattened.safe_of_property {property : String} (h : ∀ slot ∈ schema.slots, safe slot)
    (hf : (schema.flatten document).result = .ok flattened)
    (hs : (property, slot) ∈ flattened.properties) : safe slot := by
  obtain ⟨object, properties, merges, ho, mem⟩ :=
    (Schema.madeOf_of_flatten hf).property property slot hs
  have inside := Schema.mem_slots_of_properties? ho (List.mem_map.2 ⟨_, mem, rfl⟩)
  exact merges.safe_of_mem inner h slot inside

/-- The position of the values of a flattened schema is safe. -/
lemma Flattened.safe_of_additional (h : ∀ slot ∈ schema.slots, safe slot)
    (hf : (schema.flatten document).result = .ok flattened)
    (hs : flattened.additional.bind AdditionalProperties.slot? = some slot) : safe slot := by
  obtain ⟨behalf, object, merges, ho⟩ := (Schema.madeOf_of_flatten hf).additional slot hs
  exact merges.safe_of_mem inner h slot (Schema.mem_slots_of_additional? ho)

end Positions

variable (closed : document.Closed known safe)
include closed

/-- A schema with safe positions is merged faultlessly. -/
lemma Flattened.merge_faultless (steps : Nat) {expanding : List String} {owner : Option String}
    {schema : Schema} {merged : Flattened} (h : ∀ slot ∈ schema.slots, safe slot) :
    (Flattened.merge document steps expanding owner schema merged).Faultless known := by
  induction steps generalizing expanding owner schema merged with
  | zero => exact .outOfSteps
  | succ steps ih =>
    unfold Flattened.merge
    cases hk : schema.kind with
    | allOf members =>
      refine .foldlM fun before slot hs => ?_
      have mem : slot ∈ schema.slots := by rwa [Schema.slots, hk]
      refine closed.bind (h slot mem) fun member inside => ?_
      cases member.name? with
      | none => exact ih inside
      | some name =>
        dsimp only
        split
        · exact .pure before
        · exact ih inside
    | object properties required additional => exact .pure _
    | _ => exact .pure merged

/-- Flattening a schema with safe positions inside is faultless. -/
lemma Schema.flatten_faultless {schema : Schema} (h : ∀ slot ∈ schema.slots, safe slot) :
    (schema.flatten document).Faultless known :=
  Flattened.merge_faultless closed _ h

end Flattening

namespace Mapper

variable {mapper : Mapper} {known : Found → Prop} {safe : SchemaSlot → Prop}
  (closed : mapper.document.Closed known safe)
include closed

/-- The types of what has safe positions inside, and of safe positions, are computed faultlessly. -/
lemma types_faultless (steps : Nat) :
    (∀ schema candidate, (∀ slot ∈ schema.slots, safe slot) →
      (mapper.schemaType steps schema candidate).Faultless known) ∧
    (∀ slot candidate, safe slot → (mapper.valueType steps slot candidate).Faultless known) ∧
    (∀ slot, safe slot → (mapper.unionMember steps slot).Faultless known) := by
  -- The three call each other, so they are shown together.
  induction steps with
  | zero => exact ⟨fun _ _ _ => .outOfSteps, fun _ _ _ => .outOfSteps, fun _ _ => .outOfSteps⟩
  | succ steps ih =>
    obtain ⟨schemaType, valueType, unionMember⟩ := ih
    refine ⟨fun schema candidate h => ?_, fun slot candidate h => ?_, fun slot h => ?_⟩
    · rw [schemaType_succ]
      cases hf : mapper.form schema candidate with
      | model name model => exact .pure _
      | plain type => exact .pure _
      | only slot =>
        have mem : slot ∈ schema.slots := by
          rw [Schema.slots, (form_eq_only hf).2]
          exact List.mem_singleton_self slot
        exact closed.bind (h slot mem) fun member inside => schemaType member candidate inside
      | list slot inner =>
        obtain ⟨⟨least, most, hk⟩, -⟩ := form_eq_list hf
        have mem : slot ∈ schema.slots := Schema.mem_slots_of_items? (by rw [Schema.items?, hk])
        exact (valueType slot inner (h slot mem)).bind fun type _ => .pure _
      | map slot =>
        obtain ⟨-, -, properties, required, additional, hk, hv⟩ := form_eq_map hf
        have mem : slot ∈ schema.slots :=
          Schema.mem_slots_of_additional? (by rw [Schema.additional?, hk]; exact hv)
        exact (valueType slot none (h slot mem)).bind fun type _ => .pure _
      | union members =>
        have hk := (form_eq_union hf).2.2
        refine Run.Faultless.bind (.mapM fun slot hs => ?_) fun types _ => .pure _
        exact unionMember slot (h slot (by rwa [Schema.slots, hk]))
    · rw [Mapper.valueType]
      refine closed.bind h fun schema inside => ?_
      exact (schemaType schema candidate inside).bind fun type _ => .pure _
    · rw [unionMember_succ]
      refine closed.bind h fun member inside => ?_
      split
      · exact .pure _
      · exact (schemaType member none inside).bind fun type _ => .pure _

variable {schema : Schema} {slot : SchemaSlot} {candidate : Option String}

/-- The type at a safe position is computed faultlessly. -/
lemma slotType_faultless (h : safe slot) : (mapper.slotType slot candidate).Faultless known :=
  closed.bind h fun schema inside => (types_faultless closed _).1 schema candidate inside

variable (h : ∀ slot ∈ schema.slots, safe slot)
include h

/-- The type of a model with safe positions is computed faultlessly. -/
lemma modelType_faultless {name : String} : (mapper.modelType name schema).Faultless known := by
  unfold modelType
  split
  · rename_i items least most hk
    have mem : items ∈ schema.slots := Schema.mem_slots_of_items? (by rw [Schema.items?, hk])
    exact ((types_faultless closed _).2.1 items _ (h items mem)).bind fun type _ => .pure _
  · exact (types_faultless closed _).1 schema _ h

/-- The members of a choice with safe positions are described faultlessly. -/
lemma unionMembers_faultless : (mapper.unionMembers schema).Faultless known :=
  .mapM fun slot hs => (types_faultless closed _).2.2 slot (h slot (Schema.mem_slots_of_members hs))

variable [Spelling]

/-- The parameters of a choice with safe positions are gathered faultlessly. -/
lemma unionParameters_faultless : (mapper.unionParameters schema).Faultless known := by
  refine .foldlM fun parameters slot hs => ?_
  refine closed.bind (h slot (Schema.mem_slots_of_members hs)) fun member inside => ?_
  split
  · rename_i properties hp
    refine .foldlM fun parameters entry he => ?_
    dsimp only
    split
    · exact .pure _
    · have mem := Schema.mem_slots_of_properties? hp (List.mem_map.2 ⟨entry, he, rfl⟩)
      exact (slotType_faultless closed (inside _ mem)).bind fun type _ => .pure _
  · exact .pure _

/-- The types in the body of a model with safe positions are computed faultlessly. -/
lemma bodyTypes_faultless {name : String} : (mapper.bodyTypes name schema).Faultless known := by
  unfold bodyTypes
  split
  · rename_i properties required additional hk
    have hp : schema.properties? = some properties := by rw [Schema.properties?, hk]
    refine Run.Faultless.bind (.mapM fun entry he => ?_) fun types _ => ?_
    · have mem := Schema.mem_slots_of_properties? hp (List.mem_map.2 ⟨entry, he, rfl⟩)
      exact slotType_faultless closed (h _ mem)
    · split
      · rename_i value hv
        have mem : value ∈ schema.slots :=
          Schema.mem_slots_of_additional? (by rw [Schema.additional?, hk]; exact hv)
        exact (slotType_faultless closed (h value mem)).bind fun type _ => .pure _
      · exact .pure _
  · refine (schema.flatten_faultless closed h).bind fun flattened hf => ?_
    exact .mapM fun entry he =>
      slotType_faultless closed (Flattened.safe_of_property closed.inside h hf he)
  · exact (unionMembers_faultless closed h).bind fun members _ => .pure _
  · exact (modelType_faultless closed h).bind fun type _ => .pure _
  · exact .pure _
  · exact .pure _
  · exact .pure _

/-- The references of a model with safe positions are found faultlessly. -/
lemma references_faultless {name : String} : (mapper.references name schema).Faultless known :=
  (bodyTypes_faultless closed h).bind fun _ _ => .pure _

end Mapper

end OpenApiManifest
