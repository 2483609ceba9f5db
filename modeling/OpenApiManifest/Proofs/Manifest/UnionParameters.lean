import OpenApiManifest.Proofs.Manifest.Growth
import OpenApiManifest.Proofs.Manifest.Imports
import OpenApiManifest.Proofs.Types.Agreement
import OpenApiManifest.Proofs.Walk.Members

/-!
# The parameters of choices

A choice lists the properties of the objects among its members, each with the type that the first member
gives it that has it (`Mapper.exists_of_unionParameters`).  Such a member that is a model itself has the same
properties with the same types in its own entry of the manifest (`Generator.version_unionParameters`).
Compositions among the members contribute nothing.
-/

namespace OpenApiManifest

/-- The names of the properties that an object declares; other schemas declare none. -/
def Schema.propertyNames (schema : Schema) : List String :=
  (schema.properties?.getD []).keys

/-- The first schema that declares a property. -/
def Schema.firstWith? (property : String) (schemas : List Schema) : Option Schema :=
  schemas.find? fun schema => decide (property ∈ schema.propertyNames)

/-- The first schema with a property is the first one, if it declares it, or is among the rest. -/
lemma Schema.firstWith?_cons (property : String) (schema : Schema) (rest : List Schema) :
    firstWith? property (schema :: rest) =
      if property ∈ schema.propertyNames then some schema else firstWith? property rest := by
  rw [firstWith?, List.find?_cons]
  split
  · rename_i declared
    rw [if_pos (of_decide_eq_true declared)]
  · rename_i undeclared
    rw [if_neg (of_decide_eq_false undeclared), firstWith?]

/-- The properties of an object have distinct names. -/
lemma Schema.nodup_propertyNames {id : DocumentId} {tree : Json} {document : Document} {schema : Schema}
    (read : Document.read id tree = .ok document) (distinct : tree.keysDistinct = true)
    (contains : document.Contains (.owned schema)) : schema.propertyNames.Nodup := by
  obtain ⟨path, at_, -⟩ := contains.at_path read distinct
  unfold propertyNames
  cases hp : schema.properties? with
  | none => exact List.nodup_nil
  | some properties => exact at_.nodup_keys distinct hp

section Spelled

variable [Spelling]

/-- A schema declares a property of some type, in which nameless schemas are named after the schema and the
property. -/
def Mapper.Gives (mapper : Mapper) (schema : Schema) (property : String) (type : TypeRef) : Prop :=
  ∃ properties slot, schema.properties? = some properties ∧ (property, slot) ∈ properties ∧
    (mapper.slotType slot (schema.name?.map (Naming.syntheticName · property))).result = .ok type

/-- The schemas that some positions resolve to. -/
def Document.ResolveTo (document : Document) (slots : List SchemaSlot) (schemas : List Schema) : Prop :=
  List.Forall₂ (fun slot schema => (slot.resolve document).result = .ok schema) slots schemas

namespace Mapper

variable {mapper : Mapper} {schema : Schema} {properties : Entries SchemaSlot}
  {before after parameters : Entries TypeRef} {parent : Option String} {property : String}
  {type : TypeRef}

/-- Adding the properties of a member adds those names that are new. -/
lemma keys_addUnionParameters
    (h : (mapper.addUnionParameters parent properties before).result = .ok after) :
    after.keys = OrderedSet.addAll properties.keys before.keys := by
  induction properties generalizing before with
  | nil =>
    obtain rfl := pure_eq_ok.1 h
    rfl
  | cons entry rest ih =>
    obtain ⟨name, slot⟩ := entry
    rw [addUnionParameters, List.foldlM_cons] at h
    obtain ⟨middle, step, h⟩ := Run.bind_result_eq_ok.1 h
    have keys : middle.keys = OrderedSet.add name before.keys := by
      unfold OrderedSet.add
      dsimp only at step
      split at step
      · rename_i known
        obtain rfl := pure_eq_ok.1 step
        rw [if_pos (Entries.has_iff_mem_keys.1 known)]
      · rename_i fresh
        obtain ⟨type, -, step⟩ := Run.bind_result_eq_ok.1 step
        obtain rfl := pure_eq_ok.1 step
        rw [if_neg (mt Entries.has_iff_mem_keys.2 fresh), Entries.keys_append]
        rfl
    rw [ih h, keys]
    rfl

/-- Adding the properties of a member adds those that are new, each with its type there. -/
lemma mem_addUnionParameters (distinct : properties.keys.Nodup)
    (h : (mapper.addUnionParameters parent properties before).result = .ok after) :
    (property, type) ∈ after ↔ (property, type) ∈ before ∨ property ∉ before.keys ∧
      ∃ slot, (property, slot) ∈ properties ∧
        (mapper.slotType slot (parent.map (Naming.syntheticName · property))).result = .ok type := by
  induction properties generalizing before with
  | nil =>
    obtain rfl := pure_eq_ok.1 h
    simp
  | cons entry rest ih =>
    obtain ⟨name, slot⟩ := entry
    obtain ⟨apart, distinct⟩ := List.nodup_cons.1 distinct
    rw [addUnionParameters, List.foldlM_cons] at h
    obtain ⟨middle, step, h⟩ := Run.bind_result_eq_ok.1 h
    rw [ih distinct h]
    dsimp only at step
    -- A name that is known stays with its first type, and a new one gets the type that is computed now.
    split at step
    · rename_i known
      obtain rfl := pure_eq_ok.1 step
      have known := Entries.has_iff_mem_keys.1 known
      refine or_congr_right (and_congr_right fun fresh => exists_congr fun other => and_congr_left' ?_)
      have other_name : property ≠ name := fun same => fresh (same ▸ known)
      simp [other_name]
    · rename_i fresh
      have fresh := mt Entries.has_iff_mem_keys.2 fresh
      obtain ⟨found, hf, step⟩ := Run.bind_result_eq_ok.1 step
      obtain rfl := pure_eq_ok.1 step
      by_cases same : property = name
      · subst same
        have absent : ∀ other, (property, other) ∉ rest :=
          fun other ho => apart (List.mem_map.2 ⟨_, ho, rfl⟩)
        have given : (mapper.slotType slot (parent.map (Naming.syntheticName · property))).result =
            .ok type ↔ type = found := ⟨fun e => Except.ok.inj (e.symm.trans hf), fun e => e ▸ hf⟩
        simp [absent, fresh, given]
      · simp [same, Entries.keys]

/-- Adds what the member at a position declares. -/
def addMember (mapper : Mapper) (parameters : Entries TypeRef) (slot : SchemaSlot) :
    Run (Entries TypeRef) := do
  let member ← slot.resolve mapper.document
  match member.properties? with
  | some properties => mapper.addUnionParameters member.name? properties parameters
  | none => return parameters

/-- The parameters of a choice are gathered member by member. -/
lemma unionParameters_eq (mapper : Mapper) (schema : Schema) :
    mapper.unionParameters schema = schema.members.foldlM mapper.addMember [] := rfl

/-- A property that is given a type is one of the properties that are declared. -/
lemma Gives.mem_propertyNames (h : mapper.Gives schema property type) :
    property ∈ schema.propertyNames := by
  obtain ⟨properties, slot, hp, mem, -⟩ := h
  rw [Schema.propertyNames, hp]
  exact List.mem_map.2 ⟨_, mem, rfl⟩

/-- A member adds the properties that are new, each with the type that it gives it. -/
lemma exists_of_addMember {slot : SchemaSlot}
    (distinct : ∀ member, (slot.resolve mapper.document).result = .ok member →
      member.propertyNames.Nodup)
    (h : (mapper.addMember before slot).result = .ok after) :
    ∃ member, (slot.resolve mapper.document).result = .ok member ∧
      after.keys = OrderedSet.addAll member.propertyNames before.keys ∧
      ∀ property type, (property, type) ∈ after ↔ (property, type) ∈ before ∨
        property ∉ before.keys ∧ mapper.Gives member property type := by
  obtain ⟨member, hm, h⟩ := Run.bind_result_eq_ok.1 h
  have distinct := distinct member hm
  refine ⟨member, hm, ?_⟩
  unfold Schema.propertyNames Gives at *
  cases hp : member.properties? with
  | none =>
    rw [hp] at h
    obtain rfl := pure_eq_ok.1 h
    exact ⟨rfl, fun property type => by simp⟩
  | some properties =>
    rw [hp] at h distinct
    refine ⟨keys_addUnionParameters h, fun property type => ?_⟩
    rw [mem_addUnionParameters distinct h]
    simp

/-- The members of a choice add the properties that are new, each with the type that the first of them gives
it that has it. -/
lemma exists_of_foldlM_addMember {slots : List SchemaSlot}
    (distinct : ∀ slot ∈ slots, ∀ member, (slot.resolve mapper.document).result = .ok member →
      member.propertyNames.Nodup)
    (h : (slots.foldlM mapper.addMember before).result = .ok after) :
    ∃ members, mapper.document.ResolveTo slots members ∧
      after.keys = OrderedSet.addAll (members.flatMap Schema.propertyNames) before.keys ∧
      ∀ property type, (property, type) ∈ after ↔ (property, type) ∈ before ∨
        property ∉ before.keys ∧ ∃ member, Schema.firstWith? property members = some member ∧
          mapper.Gives member property type := by
  induction slots generalizing before with
  | nil =>
    obtain rfl := pure_eq_ok.1 h
    exact ⟨[], .nil, rfl, fun property type => by simp [Schema.firstWith?]⟩
  | cons slot rest ih =>
    rw [List.foldlM_cons] at h
    obtain ⟨own, others⟩ := List.forall_mem_cons.1 distinct
    obtain ⟨middle, step, h⟩ := Run.bind_result_eq_ok.1 h
    obtain ⟨member, hm, keys, given⟩ := exists_of_addMember own step
    obtain ⟨members, resolved, keys', given'⟩ := ih others h
    refine ⟨member :: members, .cons hm resolved, ?_, fun property type => ?_⟩
    · rw [keys', keys, List.flatMap_cons, OrderedSet.addAll, OrderedSet.addAll, OrderedSet.addAll,
        List.foldl_append]
    · rw [given', given, keys, OrderedSet.mem_addAll, Schema.firstWith?_cons]
      by_cases declared : property ∈ member.propertyNames
      · simp [declared]
      · have ungiven : ¬ mapper.Gives member property type := fun gives =>
          declared gives.mem_propertyNames
        simp [declared, ungiven]

/-- The parameters of a choice are the properties of its members, in the order in which they first occur, each
with the type that the first member gives it that has it. -/
theorem exists_of_unionParameters
    (distinct : ∀ slot ∈ schema.members, ∀ member, (slot.resolve mapper.document).result = .ok member →
      member.propertyNames.Nodup)
    (h : (mapper.unionParameters schema).result = .ok parameters) :
    ∃ members, mapper.document.ResolveTo schema.members members ∧
      parameters.keys = OrderedSet.ofList (members.flatMap Schema.propertyNames) ∧
      ∀ property type, (property, type) ∈ parameters ↔
        ∃ member, Schema.firstWith? property members = some member ∧ mapper.Gives member property type := by
  rw [unionParameters_eq] at h
  obtain ⟨members, resolved, keys, given⟩ := exists_of_foldlM_addMember distinct h
  refine ⟨members, resolved, keys, fun property type => (given property type).trans ?_⟩
  simp [Entries.keys]

end Mapper

namespace Builder

variable {builder : Builder} {own : String} {registered : Registered} {entry : ModelEntry}
  {warnings : List Warning}

/-- The parameters of a choice in a manifest are those that are gathered from its members. -/
lemma unionParameters_of_model (h : (builder.model own registered).result = .ok (entry, warnings))
    (choice : entry.kind = .oneOf) :
    (builder.mapper.unionParameters registered.schema).result = .ok entry.unionParameters := by
  rw [model_eq] at h
  obtain ⟨described, -, h⟩ := Run.bind_result_eq_ok.1 h
  obtain ⟨members, -, h⟩ := Run.bind_result_eq_ok.1 h
  obtain ⟨parameters, hp, h⟩ := Run.bind_result_eq_ok.1 h
  obtain ⟨type, -, h⟩ := Run.bind_result_eq_ok.1 h
  obtain ⟨references, -, h⟩ := Run.bind_result_eq_ok.1 h
  obtain ⟨choiceMembers, -, h⟩ := Run.bind_result_eq_ok.1 h
  cases h
  rwa [if_pos choice] at hp

/-- An object that is a model under its own name is described with the properties that it declares, each with
the type that it gives it. -/
lemma gives_iff_of_model (named : registered.schema.name? = some own)
    (object : registered.schema.tag = .object) (distinct : registered.schema.propertyNames.Nodup)
    (h : (builder.model own registered).result = .ok (entry, warnings)) :
    entry.properties.keys = registered.schema.propertyNames ∧
      ∀ property type, builder.mapper.Gives registered.schema property type ↔
        ∃ described, (property, described) ∈ entry.properties ∧ described.type = type := by
  obtain ⟨described, hd, e, -⟩ := (describes_of_model h).properties
  obtain ⟨properties, required, additional, hk⟩ : ∃ properties required additional,
      registered.schema.kind = .object properties required additional := by
    unfold Schema.tag at object
    split at object
    all_goals first | exact ⟨_, _, _, ‹_›⟩ | cases object
  have hp : registered.schema.properties? = some properties := by rw [Schema.properties?, hk]
  rw [Schema.propertyNames, hp] at distinct
  obtain ⟨each, -⟩ := describes_of_object (fun name hn => Option.some.inj (hn.symm.trans named))
    distinct hk hd
  rw [e, Schema.propertyNames, hp]
  refine ⟨(map_eq_of_forall₂ Prod.fst Prod.fst (fun _ _ typed => typed.1.symm) each).symm,
    fun property type => ⟨?_, ?_⟩⟩
  · rintro ⟨_, slot, hp', mem, ht⟩
    obtain rfl := Option.some.inj (hp.symm.trans hp')
    obtain ⟨⟨_, described⟩, hm, rfl, typed⟩ := exists_of_forall₂_left each mem
    rw [named] at ht
    exact ⟨described, hm, Except.ok.inj (typed.symm.trans ht)⟩
  · rintro ⟨described, hm, rfl⟩
    obtain ⟨⟨_, slot⟩, mem, rfl, typed⟩ := exists_of_forall₂_right each hm
    refine ⟨properties, slot, hp, mem, ?_⟩
    rw [named]
    exact typed

end Builder

/-- The entry of a schema in a manifest: that under the name with which it is registered. -/
def VersionManifest.HasEntry (manifest : VersionManifest) (registry : Registry) (schema : Schema)
    (name : String) (entry : ModelEntry) : Prop :=
  (name, entry) ∈ manifest.models ∧ ∃ origin, registry.get? name = some ⟨schema, origin⟩

/-- The properties in an entry are those that a schema declares, each with the type that it gives it. -/
def ModelEntry.DescribesProperties (entry : ModelEntry) (mapper : Mapper) (schema : Schema) : Prop :=
  entry.properties.keys = schema.propertyNames ∧ ∀ property type, mapper.Gives schema property type ↔
    ∃ described, (property, described) ∈ entry.properties ∧ described.type = type

/-- The parameters of each choice in a manifest are the properties of the objects among its members, in the
order in which they first occur, each with the type that the first member gives it that has it.  The named
objects among the members have entries in the manifest, with the same properties and types, so that their
properties are parameters of the choice. -/
theorem Generator.version_unionParameters {generator : Generator} {name : String} {tree : Json}
    (distinct : tree.keysDistinct = true) {manifest : VersionManifest} {statistics : Statistics}
    (h : generator.version name tree = .ok (manifest, statistics)) :
    ∃ document, Document.read ⟨0⟩ tree = .ok document ∧
      ∀ own entry, (own, entry) ∈ manifest.models → entry.kind = .oneOf →
        ∃ schema members,
          manifest.HasEntry (generator.collect document .empty).registry schema own entry ∧
          document.ResolveTo schema.members members ∧
          entry.unionParameters.keys = OrderedSet.ofList (members.flatMap Schema.propertyNames) ∧
          (∀ property type, (property, type) ∈ entry.unionParameters ↔
            ∃ member, Schema.firstWith? property members = some member ∧
              (generator.builder name document).mapper.Gives member property type) ∧
          (∀ member ∈ members, member.tag = .object → ∀ other, member.name? = some other →
            ∃ memberEntry, manifest.HasEntry (generator.collect document .empty).registry member other
              memberEntry) ∧
          ∀ member ∈ members, ∀ other memberEntry,
            manifest.HasEntry (generator.collect document .empty).registry member other memberEntry →
            memberEntry.kind = .object →
              memberEntry.DescribesProperties (generator.builder name document).mapper member ∧
              ∀ property ∈ memberEntry.properties.keys, property ∈ entry.unionParameters.keys := by
  obtain ⟨document, read, collected, keys, described⟩ := exists_of_version distinct h
  have coherent := Document.coherent_of_read read distinct
  have walked := (collect_visits coherent generator).collects.walked collected
  refine ⟨document, read, fun own entry mem kind => ?_⟩
  obtain ⟨⟨schema, origin⟩, held, proper, warnings, hd⟩ := described own entry mem
  have choice : schema.tag = .oneOf := (Builder.kind_of_model hd).1.symm.trans kind
  have contains : ∀ slot ∈ schema.members, ∀ member, (slot.resolve document).result = .ok member →
      document.Contains (.owned member) := fun slot hs member hm =>
    .resolve (.inside proper.contains (Schema.mem_slots_of_members hs)) hm
  obtain ⟨members, resolved, names, types⟩ := Mapper.exists_of_unionParameters
    (fun slot hs member hm => Schema.nodup_propertyNames read distinct (contains slot hs member hm))
    (Builder.unionParameters_of_model hd kind)
  refine ⟨schema, members, ⟨mem, origin, held⟩, resolved, names, types, ?_, ?_⟩
  -- A member that is an object with a name is registered, and objects are always emitted.
  · intro member hm object other named
    obtain ⟨slot, hs, found⟩ := exists_of_forall₂_right resolved hm
    have registered := walked.registered_of_member held hs found named
    have emitted : other ∈ manifest.models.keys := by
      rw [keys]
      refine List.mem_map.2 ⟨_, List.mem_filter.2 ⟨Entries.mem_of_get? registered, ?_⟩, rfl⟩
      exact Schema.isEmitted_of_tag (.inl (by simp [object]))
    obtain ⟨⟨_, memberEntry⟩, hm, rfl⟩ := List.mem_map.1 emitted
    exact ⟨memberEntry, hm, _, registered⟩
  -- The entry of a member is read off the same schema, so that both have the same properties.
  · rintro member hm other memberEntry ⟨hm', origin', held'⟩ object
    obtain ⟨slot, hs, found⟩ := exists_of_forall₂_right resolved hm
    obtain ⟨registered, known, -, warnings', hd'⟩ := described other memberEntry hm'
    obtain rfl := Option.some.inj (held'.symm.trans known)
    have named := walked.name?_of_member read distinct (fun slot => contains_of_starts) proper.contains
      choice hs found held'
    obtain ⟨same, gives⟩ := Builder.gives_iff_of_model named ((Builder.kind_of_model hd').1.symm.trans object)
      (Schema.nodup_propertyNames read distinct (contains slot hs member found)) hd'
    refine ⟨⟨same, gives⟩, fun property hp => ?_⟩
    rw [names, OrderedSet.mem_ofList]
    exact List.mem_flatMap.2 ⟨member, hm, same ▸ hp⟩

end Spelled

attribute [local instance] Spelling.german

/-- A description of shapes, which are circles or squares: objects, or compositions of one. -/
def shapeTree : Json :=
  let ref (name : String) : Json := .obj [("$ref", .str ("#/components/schemas/" ++ name))]
  let sized (key : String) : Json := .obj [("type", .str "object"),
    ("properties", .obj [(key, .obj [("type", .str "integer")])])]
  .obj [
    ("openapi", .str "3.0.0"),
    ("info", .obj [("title", .str "Shapes"), ("version", .str "1")]),
    ("paths", .obj []),
    ("components", .obj [("schemas", .obj [
      ("Shape", .obj [("oneOf", .arr [ref "Circle", ref "Square"])]),
      ("Circle", sized "radius"),
      ("Square", .obj [("allOf", .arr [sized "side"])])])])]

/-- The models of shapes, circles and squares, and the members of shapes. -/
lemma shapeTree_evaluates :
    shapeTree.keysDistinct = true ∧
      (Generator.version ⟨.standard, true⟩ "1" shapeTree).toOption.bind (fun version =>
        (Entries.get? "Shape" version.1.models).bind fun shape =>
          (Entries.get? "Circle" version.1.models).map fun circle =>
            (shape.kind, circle.kind, circle.properties.keys)) = some (.oneOf, .object, ["radius"]) ∧
      ((Document.read ⟨0⟩ shapeTree).toOption.bind fun document =>
        ((Generator.collect ⟨.standard, true⟩ document .empty).registry.get? "Shape").bind fun registered =>
          registered.schema.members[0]?.bind fun slot =>
            (slot.resolve document).result.toOption.map fun member => (member.tag, member.name?)) =
        some (.object, some "Circle") ∧
      (Generator.version ⟨.standard, true⟩ "1" shapeTree).toOption.bind (fun version =>
        (Entries.get? "Shape" version.1.models).bind fun shape =>
          (Entries.get? "Square" version.1.models).map fun square =>
            (shape.kind, shape.unionParameters.keys, square.kind, square.properties.keys)) =
        some (.oneOf, ["radius"], .allOf, ["side"]) ∧
      ((Document.read ⟨0⟩ shapeTree).toOption.bind fun document =>
        ((Generator.collect ⟨.standard, true⟩ document .empty).registry.get? "Shape").bind fun registered =>
          registered.schema.members[1]?.bind fun slot =>
            (slot.resolve document).result.toOption.map Schema.name?) = some (some "Square") := by
  -- One evaluation for all the facts: the kernel then reads the description once.
  decide +kernel

/-- The radius of circles is a parameter of shapes. -/
theorem Generator.version_unionParameters_circle :
    shapeTree.keysDistinct = true ∧ ∃ manifest statistics shape circle,
      Generator.version ⟨.standard, true⟩ "1" shapeTree = .ok (manifest, statistics) ∧
      Entries.get? "Shape" manifest.models = some shape ∧ shape.kind = .oneOf ∧
      Entries.get? "Circle" manifest.models = some circle ∧ circle.kind = .object ∧
      circle.properties.keys = ["radius"] ∧ "radius" ∈ shape.unionParameters.keys := by
  obtain ⟨distinct, run, first, -⟩ := shapeTree_evaluates
  obtain ⟨⟨manifest, statistics⟩, found, run⟩ := Option.bind_eq_some_iff.1 run
  obtain ⟨shape, hs, run⟩ := Option.bind_eq_some_iff.1 run
  obtain ⟨circle, hc, run⟩ := Option.map_eq_some_iff.1 run
  obtain ⟨choice, run⟩ := Prod.mk.inj run
  obtain ⟨object, radius⟩ := Prod.mk.inj run
  obtain ⟨document, read, first⟩ := Option.bind_eq_some_iff.1 first
  obtain ⟨registered, known, first⟩ := Option.bind_eq_some_iff.1 first
  obtain ⟨slot, hm, first⟩ := Option.bind_eq_some_iff.1 first
  obtain ⟨member, hr, first⟩ := Option.map_eq_some_iff.1 first
  obtain ⟨tag, named⟩ := Prod.mk.inj first
  have h := toOption_eq_some.1 found
  refine ⟨distinct, manifest, statistics, shape, circle, h, hs, choice, hc, object, radius, ?_⟩
  obtain ⟨document', read', described⟩ := version_unionParameters distinct h
  obtain rfl := Except.ok.inj ((toOption_eq_some.1 read).symm.trans read')
  obtain ⟨schema, members, ⟨-, origin, held⟩, resolved, -, -, entries, agree⟩ :=
    described "Shape" shape (Entries.mem_of_get? hs) choice
  obtain rfl := Option.some.inj (known.symm.trans held)
  obtain ⟨own, mem, same⟩ := exists_of_forall₂_left resolved (List.mem_of_getElem? hm)
  obtain rfl := Except.ok.inj ((toOption_eq_some.1 hr).symm.trans same)
  obtain ⟨_, -, registered⟩ := entries member mem tag "Circle" named
  obtain ⟨-, listed⟩ :=
    agree member mem "Circle" circle ⟨Entries.mem_of_get? hc, registered⟩ object
  exact listed "radius" (radius ▸ List.mem_singleton_self _)

/-- The side of squares, which are compositions, is no parameter of shapes. -/
theorem Generator.version_unionParameters_square :
    shapeTree.keysDistinct = true ∧ ∃ manifest statistics document schema shape slot member square,
      Generator.version ⟨.standard, true⟩ "1" shapeTree = .ok (manifest, statistics) ∧
      Document.read ⟨0⟩ shapeTree = .ok document ∧
      manifest.HasEntry (Generator.collect ⟨.standard, true⟩ document .empty).registry schema "Shape" shape ∧
      shape.kind = .oneOf ∧
      slot ∈ schema.members ∧ (slot.resolve document).result = .ok member ∧
      manifest.HasEntry (Generator.collect ⟨.standard, true⟩ document .empty).registry member "Square"
        square ∧
      square.kind = .allOf ∧
      "side" ∈ square.properties.keys ∧ "side" ∉ shape.unionParameters.keys := by
  obtain ⟨distinct, -, -, run, second⟩ := shapeTree_evaluates
  obtain ⟨⟨manifest, statistics⟩, found, run⟩ := Option.bind_eq_some_iff.1 run
  obtain ⟨shape, hs, run⟩ := Option.bind_eq_some_iff.1 run
  obtain ⟨square, hq, run⟩ := Option.map_eq_some_iff.1 run
  obtain ⟨choice, run⟩ := Prod.mk.inj run
  obtain ⟨parameters, run⟩ := Prod.mk.inj run
  obtain ⟨composition, side⟩ := Prod.mk.inj run
  obtain ⟨document, read, second⟩ := Option.bind_eq_some_iff.1 second
  obtain ⟨⟨schema, origin⟩, known, second⟩ := Option.bind_eq_some_iff.1 second
  obtain ⟨slot, hm, second⟩ := Option.bind_eq_some_iff.1 second
  obtain ⟨member, hr, named⟩ := Option.map_eq_some_iff.1 second
  have h := toOption_eq_some.1 found
  have resolved := toOption_eq_some.1 hr
  obtain ⟨document', read', collected, -, -⟩ := exists_of_version distinct h
  obtain rfl := Except.ok.inj ((toOption_eq_some.1 read).symm.trans read')
  have walked := (collect_visits (Document.coherent_of_read read' distinct) _).collects.walked collected
  have registered := walked.registered_of_member known (List.mem_of_getElem? hm) resolved named
  refine ⟨distinct, manifest, statistics, document, schema, shape, slot, member, square, h, read',
    ⟨Entries.mem_of_get? hs, origin, known⟩, choice, List.mem_of_getElem? hm, resolved,
    ⟨Entries.mem_of_get? hq, _, registered⟩, composition, ?_, ?_⟩
  · rw [side]
    decide
  · rw [parameters]
    decide

end OpenApiManifest
