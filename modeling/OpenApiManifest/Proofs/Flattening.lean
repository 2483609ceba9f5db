import OpenApiManifest.Proofs.Runs
import OpenApiManifest.Schema.Flatten

/-!
# What a flattened composition is made of

The objects that are merged into a schema are found by going from compositions to their members
(`Schema.Merges`).  Each property of a flattened schema stands in one of those objects, and the schema
that declares it is the one on whose behalf that object was merged (`Schema.madeOf_of_flatten`).
-/

namespace OpenApiManifest

/-- An entry that is erased is not found any more, and the others are. -/
lemma Entries.get?_erase {α : Type} (key other : String) (entries : Entries α) :
    get? other (erase key entries) = if key = other then none else get? other entries := by
  induction entries with
  | nil =>
    change none = _
    split <;> rfl
  | cons entry rest ih =>
    obtain ⟨k, value⟩ := entry
    by_cases removed : k = key
    · subst removed
      have e : erase k ((k, value) :: rest) = erase k rest := by simp [erase]
      rw [e, ih, get?_cons]
      split <;> rfl
    · have e : erase key ((k, value) :: rest) = (k, value) :: erase key rest := by
        simp [erase, removed]
      rw [e, get?_cons, get?_cons, ih]
      by_cases same : k = other
      · subst same
        simp [Ne.symm removed]
      · simp [same]

/-- The schemas that are merged when a schema is flattened on behalf of an owner: the schema itself, and
the members of compositions among them.  What a nameless member declares is declared on behalf of the
owner of the composition. -/
inductive Schema.Merges (document : Document) (owner : Option String) (schema : Schema) :
    Option String → Schema → Prop
  | itself : Merges document owner schema owner schema
  | member {behalf : Option String} {composed member : Schema} {members : List SchemaSlot}
    {slot : SchemaSlot} :
    Merges document owner schema behalf composed → composed.kind = .allOf members →
      slot ∈ members → (slot.resolve document).result = .ok member →
      Merges document owner schema (member.name?.or behalf) member

/-- A schema into which objects or compositions are merged is one itself. -/
lemma Schema.Merges.tag {document : Document} {owner behalf : Option String} {schema object : Schema}
    (merges : schema.Merges document owner behalf object)
    (hk : object.tag = .object ∨ object.tag = .allOf) :
    schema.tag = .object ∨ schema.tag = .allOf := by
  induction merges with
  | itself => exact hk
  | member _ hc _ _ ih => exact ih (.inr (by rw [Schema.tag, hc]))

/-- Only objects have properties. -/
lemma Schema.tag_of_properties? {schema : Schema} {properties : Entries SchemaSlot}
    (h : schema.properties? = some properties) : schema.tag = .object := by
  unfold Schema.properties? at h
  split at h
  · rename_i hk
    rw [Schema.tag, hk]
  · cases h

namespace Flattened

variable {document : Document} {owner behalf : Option String} {schema object : Schema}
  {flattened merged : Flattened} {property : String} {slot : SchemaSlot}

/-- Merged properties that stem from the schemas that are merged for a schema. -/
structure MadeOf (document : Document) (owner : Option String) (schema : Schema)
    (flattened : Flattened) : Prop where
  distinct : flattened.properties.keys.Nodup
  property : ∀ property slot, (property, slot) ∈ flattened.properties →
    ∃ object properties, schema.Merges document owner (flattened.declaring? property) object ∧
      object.properties? = some properties ∧ (property, slot) ∈ properties
  additional : ∀ slot, flattened.additional.bind AdditionalProperties.slot? = some slot →
    ∃ behalf object, schema.Merges document owner behalf object ∧ object.additional? = some slot

/-- The schema that declares a property that was just added is the one on whose behalf it was. -/
lemma declaring?_addProperty (other : String) :
    (addProperty behalf flattened (property, slot)).declaring? other =
      if property = other then behalf else flattened.declaring? other := by
  unfold declaring? addProperty
  cases behalf with
  | none => exact Entries.get?_erase property other flattened.declaredIn
  | some name => exact Entries.get?_put property other name flattened.declaredIn

/-- Where nothing is merged yet, all that is merged stems from the schemas of any schema. -/
lemma MadeOf.empty : MadeOf document owner schema .empty where
  distinct := List.nodup_nil
  property _ _ h := absurd h List.not_mem_nil
  additional := nofun

/-- Adding a property of a schema that is merged. -/
lemma MadeOf.addProperty {properties : Entries SchemaSlot} (h : flattened.MadeOf document owner schema)
    (merges : schema.Merges document owner behalf object) (hp : object.properties? = some properties)
    (mem : (property, slot) ∈ properties) :
    (addProperty behalf flattened (property, slot)).MadeOf document owner schema := by
  have distinct : (Flattened.addProperty behalf flattened (property, slot)).properties.keys.Nodup := by
    change (Entries.put property slot flattened.properties).keys.Nodup
    rw [Entries.keys_put]
    exact OrderedSet.nodup_add h.distinct
  refine ⟨distinct, fun other found hm => ?_, h.additional⟩
  -- As names are distinct it is enough to see what is found under the name.
  have get := Entries.get?_of_mem distinct hm
  change Entries.get? other (Entries.put property slot flattened.properties) = some found at get
  rw [Entries.get?_put] at get
  rw [declaring?_addProperty]
  split at get
  · rename_i same
    subst same
    cases get
    rw [if_pos rfl]
    exact ⟨object, properties, merges, hp, mem⟩
  · rename_i different
    rw [if_neg different]
    exact h.property other found (Entries.mem_of_get? get)

/-- Adding what a schema that is merged declares. -/
lemma MadeOf.addObject {properties : Entries SchemaSlot} {required : List String}
    {additional : AdditionalProperties SchemaSlot} (h : flattened.MadeOf document owner schema)
    (merges : schema.Merges document owner behalf object)
    (hk : object.kind = .object properties required additional) :
    (flattened.addObject behalf properties required additional).MadeOf document owner schema := by
  have hp : object.properties? = some properties := by rw [Schema.properties?, hk]
  have folded : (properties.foldl (Flattened.addProperty behalf) flattened).MadeOf document owner
      schema :=
    List.foldlRecOn properties _ h fun _ before entry he => before.addProperty merges hp he
  refine ⟨folded.distinct, folded.property, fun slot hs => ?_⟩
  unfold Flattened.addObject at hs
  dsimp only at hs
  split at hs
  · rename_i first ha
    exact folded.additional slot (by rw [ha]; exact hs)
  · cases hs
  · exact ⟨behalf, object, merges, by rw [Schema.additional?, hk]; exact hs⟩

/-- Merging a schema into what was merged before. -/
lemma MadeOf.merge {steps : Nat} {expanding : List String} (h : merged.MadeOf document owner schema)
    (merges : schema.Merges document owner behalf object)
    (hr : (Flattened.merge document steps expanding behalf object merged).result = .ok flattened) :
    flattened.MadeOf document owner schema := by
  induction steps generalizing expanding behalf object merged flattened with
  | zero => cases hr
  | succ steps ih =>
    unfold Flattened.merge at hr
    cases hk : object.kind with
    | allOf members =>
      rw [hk] at hr
      refine Run.foldlM_keeps (MadeOf document owner schema) h ?_ hr
      intro before slot after hs made step
      obtain ⟨member, hm, step⟩ := Run.bind_result_eq_ok.1 step
      have inside := merges.member hk hs hm
      cases hn : member.name? with
      | none =>
        rw [hn] at step inside
        exact ih made inside step
      | some name =>
        rw [hn] at step inside
        dsimp only at step
        split at step
        -- A member that is being merged already adds nothing.
        · cases step
          exact made
        · exact ih made inside step
    | object properties required additional =>
      rw [hk] at hr
      cases hr
      exact h.addObject merges hk
    | _ =>
      rw [hk] at hr
      cases hr
      exact h

end Flattened

/-- A flattened schema is made of the schemas that are merged on behalf of its own name. -/
theorem Schema.madeOf_of_flatten {document : Document} {schema : Schema} {flattened : Flattened}
    (h : (schema.flatten document).result = .ok flattened) :
    flattened.MadeOf document schema.name? schema :=
  .merge .empty .itself h

end OpenApiManifest
