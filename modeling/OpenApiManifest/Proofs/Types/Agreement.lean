import OpenApiManifest.Proofs.Flattening
import OpenApiManifest.Proofs.Types.Tracking
import OpenApiManifest.Proofs.Walk.Roots

/-!
# Types agree with the registry

The names in the types of the body of a model stand for what the walk has registered under them: the
types of its flattened properties, of its items, and of the properties of its members.  The walk and the
types find these names on their own, and the schema for which a type uses a name is the one that is
registered under it (`types_agree_with_walk`).
-/

namespace OpenApiManifest

/-- The type at a position names a model: the schema that the name stands for, and how it got it. -/
def Mapper.Names (mapper : Mapper) (slot : SchemaSlot) (candidate : Option String) (name : String)
    (model : Registered) : Prop :=
  ∃ schema, (slot.resolve mapper.document).result = .ok schema ∧
    mapper.Mentions schema candidate name model

/-- A type that is computed for a position agrees with a registry: the models that it names are
registered under their names.  Those that are schemas of the components are the schemas of their
names, and the others are nameless. -/
structure Registry.Agrees (registry : Registry) (mapper : Mapper) (slot : SchemaSlot)
    (candidate : Option String) (computed : Run TypeRef) : Prop where
  names : ∀ type, computed.result = .ok type → ∀ name,
    name ∈ type.models ↔ ∃ model, mapper.Names slot candidate name model
  registered : ∀ name model, mapper.Names slot candidate name model →
    registry.get? name = some model
  component : ∀ name schema, mapper.Names slot candidate name ⟨schema, .component⟩ →
    mapper.document.schema? name = some (.owned schema)
  synthetic : ∀ name schema, mapper.Names slot candidate name ⟨schema, .synthetic⟩ →
    schema.name? = none

namespace Mapper

variable {mapper : Mapper} {steps : Nat} {slot : SchemaSlot} {candidate : Option String}
  {name : String} {type : TypeRef}

/-- The type of a value names the models that its position names. -/
lemma mem_models_valueType (h : (mapper.valueType steps slot candidate).result = .ok type) :
    name ∈ type.models ↔ ∃ model, mapper.Names slot candidate name model := by
  obtain ⟨fewer, -, schema, hs, spelled, ht, rfl⟩ := exists_of_valueType h
  rw [TypeRef.models_nullableIf, mem_models_iff ht]
  simp [Names, hs]

/-- The type at a position names the models that the position names. -/
lemma mem_models_slotType (h : (mapper.slotType slot candidate).result = .ok type) :
    name ∈ type.models ↔ ∃ model, mapper.Names slot candidate name model := by
  obtain ⟨schema, hs, ht⟩ := Run.bind_result_eq_ok.1 h
  rw [mem_models_iff ht]
  simp [Names, hs]

/-- The type of an array names the models that the position of its items names. -/
lemma mem_models_modelType {schema : Schema} {least most : Option Nat} {own : String}
    (hk : schema.kind = .array slot least most)
    (h : (mapper.modelType own schema).result = .ok type) :
    name ∈ type.models ↔ ∃ model, mapper.Names slot (some (Naming.itemName own)) name model := by
  rw [modelType, hk] at h
  obtain ⟨items, hi, h⟩ := Run.bind_result_eq_ok.1 h
  cases h
  rw [TypeRef.models]
  exact mem_models_valueType hi

end Mapper

section Spelled

variable [Spelling]

/-- A property of an object among the members of a schema: where it stands, and the name of the model
of a nameless schema there. -/
inductive Schema.MemberProperty (document : Document) (schema : Schema) (property : String) :
    SchemaSlot → Option String → Prop
  | intro {position slot : SchemaSlot} {member : Schema} {properties : Entries SchemaSlot} :
    position ∈ schema.members → (position.resolve document).result = .ok member →
      member.properties? = some properties → (property, slot) ∈ properties →
      MemberProperty document schema property slot
        (member.name?.map (Naming.syntheticName · property))

/-- The types in the body of a model agree with a registry: those of its flattened properties, each
under the schema that declares it, those of its items, and those of the properties of its members. -/
structure Registry.AgreesInside (registry : Registry) (mapper : Mapper) (name : String)
    (schema : Schema) : Prop where
  properties : ∀ flattened, (schema.flatten mapper.document).result = .ok flattened →
    ∀ property slot, (property, slot) ∈ flattened.properties →
      registry.Agrees mapper slot
        (some (Naming.syntheticName ((flattened.declaring? property).getD name) property))
        (mapper.propertyType ((flattened.declaring? property).getD name) property slot)
  items : ∀ items least most, schema.kind = .array items least most →
    registry.Agrees mapper items (some (Naming.itemName name)) (mapper.modelType name schema)
  members : ∀ members, schema.kind = .oneOf members →
    ∀ parameters, (mapper.unionParameters schema).result = .ok parameters →
      ∀ property type, (property, type) ∈ parameters →
        ∃ slot candidate, schema.MemberProperty mapper.document property slot candidate ∧
          (mapper.slotType slot candidate).result = .ok type ∧
          registry.Agrees mapper slot candidate (mapper.slotType slot candidate)

/-- Types of properties of the members of a schema, each the type where one of them stands. -/
def Mapper.TypesMembers (mapper : Mapper) (schema : Schema) (parameters : Entries TypeRef) : Prop :=
  ∀ property type, (property, type) ∈ parameters →
    ∃ slot candidate, schema.MemberProperty mapper.document property slot candidate ∧
      (mapper.slotType slot candidate).result = .ok type

/-- Each of the properties of the members of a choice is typed where it stands in one of them. -/
lemma Mapper.typesMembers_of_unionParameters {mapper : Mapper} {schema : Schema}
    {parameters : Entries TypeRef}
    (h : (mapper.unionParameters schema).result = .ok parameters) :
    mapper.TypesMembers schema parameters := by
  refine Run.foldlM_keeps (mapper.TypesMembers schema) (fun _ _ h => absurd h List.not_mem_nil) ?_ h
  intro before position after hs typed step
  obtain ⟨member, hm, step⟩ := Run.bind_result_eq_ok.1 step
  cases ho : member.properties? with
  | none =>
    rw [ho] at step
    cases step
    exact typed
  | some properties =>
    rw [ho] at step
    -- A property that an earlier member has is left as it is.
    refine Run.foldlM_keeps (mapper.TypesMembers schema) typed ?_ step
    intro before entry after he typed step
    obtain ⟨property, slot⟩ := entry
    dsimp only at step
    split at step
    · cases step
      exact typed
    · obtain ⟨type, ht, step⟩ := Run.bind_result_eq_ok.1 step
      cases step
      intro other found hf
      rcases List.mem_append.1 hf with hf | hf
      · exact typed other found hf
      · cases List.mem_singleton.1 hf
        exact ⟨slot, _, .intro hs hm ho he, ht⟩

/-- A walk comes to the properties of an object that it goes into. -/
lemma Call.Reached.of_property {document : Document} {first : Call → Prop} {object : Schema}
    {context : Option String} {properties : Entries SchemaSlot} {property : String} {slot : SchemaSlot}
    (reached : (Call.inside object context).Reached document .everything first)
    (hp : object.properties? = some properties) (mem : (property, slot) ∈ properties) :
    (Call.child slot (context.map (Naming.syntheticName · property)) context).Reached document
      .everything first := by
  refine reached.of_plan rfl ?_
  unfold Schema.properties? at hp
  split at hp
  · rename_i own required additional hk
    cases hp
    simp only [Schema.calls, hk]
    exact List.mem_append_left _ (List.mem_map.2 ⟨_, mem, rfl⟩)
  · cases hp

namespace Registry.Walked

variable {document : Document} {first : Call → Prop} {registry : Registry} {name : String}
  {model : Registered} {schema object : Schema} {owner behalf : Option String}
  (walked : registry.Walked document .everything first)
include walked

/-- A walk goes into the objects and compositions that are merged into a schema that it goes into, and
names what it finds there after the schemas on whose behalf they are merged. -/
lemma inside_of_merges (merges : schema.Merges document owner behalf object)
    (reached : (Call.inside schema (some (owner.getD name))).Reached document .everything first)
    (hk : object.tag = .object ∨ object.tag = .allOf) :
    (Call.inside object (some (behalf.getD name))).Reached document .everything first := by
  -- By induction on what is merged: a member takes its own name, or else that of its composition.
  induction merges with
  | itself => exact reached
  | @member behalf composed member members slot _ hc hs hm ih =>
    have inside := ih (.inr (by rw [Schema.tag, hc]))
    have mem : Call.member slot (some (behalf.getD name)) ∈
        composed.calls (some (behalf.getD name)) := by
      simp [Schema.calls, hc, hs]
    have going := inside.of_plan rfl mem
    cases hn : member.name? with
    | some own => exact (walked.registered_of_name going rfl hm hn).2
    | none => exact going.inside_of_member hm hn (hk.imp_right fun tag => .inr (.inr tag))

/-- A walk that goes into a choice comes to the properties of its members. -/
lemma reached_of_memberProperty {context candidate : Option String} {property : String}
    {slot : SchemaSlot}
    (reached : (Call.inside schema context).Reached document .everything first)
    (hk : schema.tag = .oneOf) (h : schema.MemberProperty document property slot candidate) :
    ∃ owner, (Call.child slot candidate owner).Reached document .everything first := by
  obtain @⟨position, _, member, properties, hs, hm, ho, mem⟩ := h
  have going : (Call.member position none).Reached document .everything first := by
    refine reached.of_plan rfl ?_
    simp [Schema.calls, Schema.kind_of_tag_oneOf hk, hs]
  cases hn : member.name? with
  | some own => exact ⟨some own, (walked.registered_of_name going rfl hm hn).2.of_property ho mem⟩
  | none =>
    have inside := going.inside_of_member hm hn (.inl (Schema.tag_of_properties? ho))
    exact ⟨none, inside.of_property ho mem⟩

/-- A type that is computed for a position to which the walk came with the name for the position agrees
with what is registered. -/
lemma agrees_of_child {mapper : Mapper} (same : mapper.document = document)
    (coherent : document.Coherent) {slot : SchemaSlot} {candidate : Option String}
    {computed : Run TypeRef}
    (reached : (Call.child slot candidate owner).Reached document .everything first)
    (names : ∀ type, computed.result = .ok type → ∀ name,
      name ∈ type.models ↔ ∃ model, mapper.Names slot candidate name model) :
    registry.Agrees mapper slot candidate computed := by
  subst same
  have registered : ∀ name model, mapper.Names slot candidate name model →
      registry.get? name = some model := by
    rintro name model ⟨schema, hs, mentions⟩
    exact (walked.tracked_of_child reached hs).registered walked mentions
  have proper : ∀ name model, mapper.Names slot candidate name model →
      model.Proper mapper.document name :=
    fun name model h => walked.proper.models name model (Entries.mem_of_get? (registered name model h))
  exact
    { names := names
      registered := registered
      component := fun name schema h =>
        (coherent.name?_eq_some_iff (proper name _ h).contains).1 (proper name _ h).name?
      synthetic := fun name schema h => (proper name _ h).name? }

section Bodies

variable (held : registry.get? name = some model)
include held

/-- A walk comes to the flattened properties of a registered model, with the names for them. -/
lemma reached_of_flattened {flattened : Flattened}
    (hf : (model.schema.flatten document).result = .ok flattened) {property : String}
    {slot : SchemaSlot} (hs : (property, slot) ∈ flattened.properties) :
    ∃ owner, (Call.child slot
      (some (Naming.syntheticName ((flattened.declaring? property).getD name) property))
        owner).Reached document .everything first := by
  obtain ⟨object, properties, merges, ho, mem⟩ :=
    (Schema.madeOf_of_flatten hf).property property slot hs
  have tag := Schema.tag_of_properties? ho
  have own : model.schema.name?.getD name = name := by
    rw [(walked.proper.models name model (Entries.mem_of_get? held)).name?]
    cases model.origin <;> rfl
  have start : (Call.inside model.schema (some (model.schema.name?.getD name))).Reached document
      .everything first := by
    rw [own]
    refine walked.inside_of_registered held ?_
    intro enum
    rcases merges.tag (.inl tag) with e | e
    · cases enum.symm.trans e
    · cases enum.symm.trans e
  exact ⟨_, (walked.inside_of_merges merges start (.inl tag)).of_property ho mem⟩

/-- A walk comes to the items of a registered array, with the name for them. -/
lemma reached_of_items {items : SchemaSlot} {least most : Option Nat}
    (hk : model.schema.kind = .array items least most) :
    (Call.child items (some (Naming.itemName name)) (some name)).Reached document .everything first := by
  have tag : model.schema.tag = .array := by rw [Schema.tag, hk]
  have inside := walked.inside_of_registered held fun enum => by cases enum.symm.trans tag
  exact inside.of_plan rfl (by simp [Schema.calls, hk])

variable {mapper : Mapper} (same : mapper.document = document) (coherent : document.Coherent)
include same coherent

/-- The type of a flattened property of a registered model agrees with the registry. -/
lemma agrees_of_flattened {flattened : Flattened}
    (hf : (model.schema.flatten document).result = .ok flattened) {property : String}
    {slot : SchemaSlot} (hs : (property, slot) ∈ flattened.properties) :
    registry.Agrees mapper slot
      (some (Naming.syntheticName ((flattened.declaring? property).getD name) property))
      (mapper.propertyType ((flattened.declaring? property).getD name) property slot) := by
  obtain ⟨owner, reached⟩ := walked.reached_of_flattened held hf hs
  exact walked.agrees_of_child same coherent reached fun _ ht _ => Mapper.mem_models_slotType ht

/-- The type of the items of a registered array agrees with the registry. -/
lemma agrees_of_items {items : SchemaSlot} {least most : Option Nat}
    (hk : model.schema.kind = .array items least most) :
    registry.Agrees mapper items (some (Naming.itemName name)) (mapper.modelType name model.schema) :=
  walked.agrees_of_child same coherent (walked.reached_of_items held hk) fun _ ht _ =>
    Mapper.mem_models_modelType hk ht

/-- The types of the properties of members agree with the registry. -/
lemma agrees_of_memberProperty (hk : model.schema.tag = .oneOf) {property : String}
    {slot : SchemaSlot} {candidate : Option String}
    (h : model.schema.MemberProperty document property slot candidate) :
    registry.Agrees mapper slot candidate (mapper.slotType slot candidate) := by
  have inside := walked.inside_of_registered held fun enum => by cases enum.symm.trans hk
  obtain ⟨owner, reached⟩ := walked.reached_of_memberProperty inside hk h
  exact walked.agrees_of_child same coherent reached fun _ ht _ => Mapper.mem_models_slotType ht

end Bodies

end Registry.Walked

/-- Once the models of a document are collected, the types in the body of each model agree with the
registry. -/
theorem types_agree_with_walk {id : DocumentId} {tree : Json} {document : Document}
    (read : Document.read id tree = .ok document) (distinct : tree.keysDistinct = true)
    {generator : Generator} (collected : (generator.collect document .empty).result = .ok ())
    (listModels : List String) {name : String} {model : Registered}
    (held : (generator.collect document .empty).registry.get? name = some model) :
    (generator.collect document .empty).registry.AgreesInside ⟨document, listModels⟩ name
      model.schema := by
  have coherent := Document.coherent_of_read read distinct
  have walked := (generator.collect_visits coherent).collects.walked collected
  exact
    { properties := fun flattened hf property slot hs =>
        walked.agrees_of_flattened held rfl coherent hf hs
      items := fun items least most hk => walked.agrees_of_items held rfl coherent hk
      members := fun members hk parameters hp property type mem => by
        obtain ⟨slot, candidate, h, ht⟩ := Mapper.typesMembers_of_unionParameters hp property type mem
        have tag : model.schema.tag = .oneOf := by rw [Schema.tag, hk]
        exact ⟨slot, candidate, h, ht, walked.agrees_of_memberProperty held rfl coherent tag h⟩ }

end Spelled

attribute [local instance] Spelling.german

/-- A description of a composition with an inherited enumeration, and with an array whose items are a
nameless object in a composition of its own. -/
def orderTree : Json :=
  let ref (name : String) : Json := .obj [("$ref", .str ("#/components/schemas/" ++ name))]
  .obj [
    ("openapi", .str "3.0.0"),
    ("info", .obj [("title", .str "Orders"), ("version", .str "1")]),
    ("paths", .obj []),
    ("components", .obj [("schemas", .obj [
      ("Order", .obj [("allOf", .arr [ref "Base", .obj [("properties", .obj [
        ("lines", .obj [("type", .str "array"), ("items", .obj [("allOf", .arr [
          .obj [("properties", .obj [("part", ref "Part")])]])])])])]])]),
      ("Base", .obj [("properties", .obj [("state", .obj [("enum", .arr [.str "open"])])])]),
      ("Part", .obj [("type", .str "string")])])])]

/-- The types in the body of the composition name what the walk registers. -/
theorem types_agree_order :
    orderTree.keysDistinct = true ∧ ∃ document, Document.read ⟨0⟩ orderTree = .ok document ∧
      (Generator.collect ⟨.standard, true⟩ document .empty).result = .ok () ∧
      (Generator.collect ⟨.standard, true⟩ document .empty).registry.names =
        ["Order", "Base", "BaseState", "OrderLines", "Part"] ∧
      ∃ model, (Generator.collect ⟨.standard, true⟩ document .empty).registry.get? "Order" =
          some model ∧
        ((Mapper.bodyTypes ⟨document, []⟩ "Order" model.schema).result.toOption.map
          fun types => types.map TypeRef.write) = some ["BaseState", "list<OrderLines>"] ∧
        (Generator.collect ⟨.standard, true⟩ document .empty).registry.AgreesInside ⟨document, []⟩
          "Order" model.schema := by
  have distinct : orderTree.keysDistinct = true := by decide +kernel
  have run : ((Document.read ⟨0⟩ orderTree).toOption.map fun document =>
      ((Generator.collect ⟨.standard, true⟩ document .empty).result.toOption,
        (Generator.collect ⟨.standard, true⟩ document .empty).registry.names,
        ((Generator.collect ⟨.standard, true⟩ document .empty).registry.get? "Order").map fun model =>
          (Mapper.bodyTypes ⟨document, []⟩ "Order" model.schema).result.toOption.map
            fun types => types.map TypeRef.write)) =
        some (some (), ["Order", "Base", "BaseState", "OrderLines", "Part"],
          some (some ["BaseState", "list<OrderLines>"])) := by decide +kernel
  obtain ⟨document, found, run⟩ := Option.map_eq_some_iff.1 run
  have read := toOption_eq_some.1 found
  obtain ⟨ended, run⟩ := Prod.mk.inj run
  have collected := toOption_eq_some.1 ended
  obtain ⟨names, typed⟩ := Prod.mk.inj run
  obtain ⟨model, held, types⟩ := Option.map_eq_some_iff.1 typed
  exact ⟨distinct, document, read, collected, names, model, held, types,
    types_agree_with_walk read distinct collected [] held⟩

end OpenApiManifest
