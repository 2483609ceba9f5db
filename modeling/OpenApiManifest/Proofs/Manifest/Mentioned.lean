import OpenApiManifest.Proofs.Manifest.Faultless
import OpenApiManifest.Proofs.Manifest.Tally
import OpenApiManifest.Proofs.Types.Emission

/-!
# The models that a manifest mentions

Every name of a model in a manifest is that of one of its models, or stray: a choice may name a member
that is not emitted (`version_mentions`).  Where the members of choices are listed, so are the names of
the items of arrays among them, whatever these are.
-/

namespace OpenApiManifest

/-- The models named in an operation of a manifest. -/
def MethodEntry.mentioned (method : MethodEntry) : List String :=
  TypeRef.modelsOfAll (method.parameters.map ParameterEntry.type ++ method.returnType.toList)

/-- The types in a model of a manifest. -/
def ModelEntry.types (entry : ModelEntry) : List TypeRef :=
  entry.type :: (entry.properties.values.map PropertyEntry.type ++ entry.additionalProperties.toList
    ++ entry.oneOf ++ entry.unionParameters.values)

/-- The models named in a model of a manifest, without the members of its choices. -/
def ModelEntry.mentioned (entry : ModelEntry) : List String :=
  TypeRef.modelsOfAll entry.types ++ entry.references

/-- The models named in a manifest, without the members of the choices in its models. -/
def VersionManifest.mentioned (manifest : VersionManifest) : List String :=
  manifest.apis.flatMap (fun api => api.operations.flatMap MethodEntry.mentioned)
    ++ manifest.models.values.flatMap ModelEntry.mentioned

/-- The members of the choices in the models of a manifest. -/
def VersionManifest.choiceMembers (manifest : VersionManifest) : List String :=
  manifest.models.values.flatMap ModelEntry.choiceMembers

/-- The name of the items of a member of a choice of the document, which is an array that is not
listed. -/
inductive Mapper.MemberItems (mapper : Mapper) (name : String) : Prop
  | intro {choice member inner : Schema} {members : List SchemaSlot} {slot items : SchemaSlot} :
    mapper.document.Contains (.owned choice) → choice.kind = .oneOf members → slot ∈ members →
      (slot.resolve mapper.document).result = .ok member → member.type?.getD .object ≠ .object →
      (∀ own, member.name? = some own → own ∉ mapper.listModels) → member.items? = some items →
      (items.resolve mapper.document).result = .ok inner → inner.name? = some name →
      MemberItems mapper name

section Spelled

variable [Spelling]

namespace Builder

variable {builder : Builder}

/-- The type of a parameter that is described is that of its position. -/
lemma slotType_of_parameter {parameter : EffectiveParameter} {entry : ParameterEntry}
    (h : (builder.parameter parameter).result = .ok entry) :
    (builder.mapper.slotType parameter.schema none).result = .ok entry.type := by
  obtain ⟨schema, -, h⟩ := Run.bind_result_eq_ok.1 h
  obtain ⟨type, ht, h⟩ := Run.bind_result_eq_ok.1 h
  obtain ⟨format, -, h⟩ := Run.bind_result_eq_ok.1 h
  cases h
  exact ht

/-- The models that are described are those of the registry, under their names. -/
lemma exists_of_models {registry : Registry} {statistics after : Statistics}
    {models : Entries ModelEntry}
    (h : (builder.models registry statistics).result = .ok (models, after)) :
    models.keys = registry.names ∧ ∀ name entry, (name, entry) ∈ models →
      ∃ registered, (name, registered) ∈ registry.models ∧
        ∃ warnings, (builder.model name registered).result = .ok (entry, warnings) := by
  constructor
  · refine Run.foldlM_appends (fun state : Entries ModelEntry × Statistics => state.1.keys) Prod.fst ?_ h
    intro before entry after step
    obtain ⟨⟨described, _⟩, -, step⟩ := Run.bind_result_eq_ok.1 step
    cases step
    exact List.map_append
  · refine Run.foldlM_keeps (fun state : Entries ModelEntry × Statistics => ∀ name entry,
      (name, entry) ∈ state.1 → ∃ registered, (name, registered) ∈ registry.models ∧
        ∃ warnings, (builder.model name registered).result = .ok (entry, warnings))
      (fun _ _ hm => absurd hm List.not_mem_nil) ?_ h
    intro before registered after hr described step
    obtain ⟨⟨entry, warnings⟩, hd, step⟩ := Run.bind_result_eq_ok.1 step
    cases step
    intro name other hm
    rcases List.mem_append.1 hm with hm | hm
    · exact described name other hm
    · cases List.mem_singleton.1 hm
      exact ⟨registered.2, hr, warnings, hd⟩

/-- What a model that is described consists of. -/
structure Describes (builder : Builder) (name : String) (schema : Schema) (entry : ModelEntry) :
    Prop where
  type : (builder.mapper.modelType name schema).result = .ok entry.type
  properties : ∃ described, (builder.properties name schema).result = .ok described ∧
    entry.properties = described.properties ∧ entry.additionalProperties = described.additional
  oneOf : entry.oneOf = [] ∨ schema.tag = .oneOf ∧
    ∃ members, (builder.mapper.unionMembers schema).result = .ok members ∧
      entry.oneOf = members.map UnionMember.type
  unionParameters : entry.unionParameters = [] ∨ schema.tag = .oneOf ∧
    (builder.mapper.unionParameters schema).result = .ok entry.unionParameters
  references : (builder.mapper.references name schema).result = .ok entry.references
  choiceMembers : (schema.choiceMembers builder.document builder.mapper.listModels name).result =
    .ok entry.choiceMembers

/-- A model that is described is so by its schema. -/
lemma describes_of_model {name : String} {registered : Registered} {entry : ModelEntry}
    {warnings : List Warning}
    (h : (builder.model name registered).result = .ok (entry, warnings)) :
    builder.Describes name registered.schema entry := by
  rw [model_eq] at h
  obtain ⟨described, hd, h⟩ := Run.bind_result_eq_ok.1 h
  obtain ⟨oneOf, ho, h⟩ := Run.bind_result_eq_ok.1 h
  obtain ⟨parameters, hp, h⟩ := Run.bind_result_eq_ok.1 h
  obtain ⟨type, ht, h⟩ := Run.bind_result_eq_ok.1 h
  obtain ⟨references, hr, h⟩ := Run.bind_result_eq_ok.1 h
  obtain ⟨members, hm, h⟩ := Run.bind_result_eq_ok.1 h
  cases h
  refine ⟨ht, ⟨described, hd, rfl, rfl⟩, ?_, ?_, hr, hm⟩
  · split at ho
    · rename_i union
      exact .inr ⟨union, oneOf, ho, rfl⟩
    · cases ho
      exact .inl rfl
  · split at hp
    · rename_i union
      exact .inr ⟨union, hp⟩
    · cases hp
      exact .inl rfl

/-- The properties that are described are the flattened ones, each with its type, which is worked out under
the name of the schema that declares the property. -/
lemma describes_of_properties {name : String} {schema : Schema} {described : Properties}
    (hk : schema.tag = .object ∨ schema.tag = .allOf)
    (h : (builder.properties name schema).result = .ok described) :
    ∃ flattened, (schema.flatten builder.document).result = .ok flattened ∧
      List.Forall₂ (fun property entry => entry.1 = property.1 ∧
        (builder.mapper.propertyType ((flattened.declaring? property.1).getD name) property.1
          property.2).result = .ok entry.2.type) flattened.properties described.properties ∧
      match flattened.additional.bind AdditionalProperties.slot? with
      | some slot => ∃ type, (builder.mapper.slotType slot none).result = .ok type ∧
          described.additional = some type
      | none => described.additional = none := by
  rw [properties, if_pos hk] at h
  obtain ⟨flattened, hf, h⟩ := Run.bind_result_eq_ok.1 h
  obtain ⟨entries, he, h⟩ := Run.bind_result_eq_ok.1 h
  have each : List.Forall₂ (fun property entry => entry.1 = property.1 ∧
      (builder.mapper.propertyType ((flattened.declaring? property.1).getD name) property.1
        property.2).result = .ok entry.2.type) flattened.properties (entries.map Prod.fst) := by
    rw [List.forall₂_map_right_iff]
    refine (Run.mapM_eq_ok.1 he).imp fun property described hd => ?_
    obtain ⟨type, ht, hd⟩ := Run.bind_result_eq_ok.1 hd
    obtain ⟨schema, -, hd⟩ := Run.bind_result_eq_ok.1 hd
    cases hd
    exact ⟨rfl, ht⟩
  cases hv : flattened.additional.bind AdditionalProperties.slot? with
  | none =>
    rw [hv] at h
    cases h
    refine ⟨flattened, hf, each, ?_⟩
    rw [hv]
  | some slot =>
    rw [hv] at h
    obtain ⟨additional, ha, h⟩ := Run.bind_result_eq_ok.1 h
    obtain ⟨type, ht, rfl⟩ := Run.map_result_eq_ok.1 ha
    cases h
    refine ⟨flattened, hf, each, ?_⟩
    rw [hv]
    exact ⟨type, ht, rfl⟩

/-- The types of the properties that are described are worked out one by one, and that of the additional
properties after them. -/
lemma types_of_properties {name : String} {schema : Schema} {described : Properties}
    (hk : schema.tag = .object ∨ schema.tag = .allOf)
    (h : (builder.properties name schema).result = .ok described) :
    ∃ flattened, (schema.flatten builder.document).result = .ok flattened ∧
      (flattened.properties.mapM fun property =>
        builder.mapper.propertyType ((flattened.declaring? property.1).getD name) property.1
          property.2).result = .ok (described.properties.values.map PropertyEntry.type) ∧
      match flattened.additional.bind AdditionalProperties.slot? with
      | some slot => ∃ type, (builder.mapper.slotType slot none).result = .ok type ∧
          described.additional = some type
      | none => described.additional = none := by
  obtain ⟨flattened, hf, each, added⟩ := describes_of_properties hk h
  refine ⟨flattened, hf, ?_, added⟩
  rw [Run.mapM_eq_ok, Entries.values, List.map_map, List.forall₂_map_right_iff]
  exact each.imp fun property entry typed => typed.2

/-- A schema that is neither an object nor a composition has no properties that are described. -/
lemma no_properties {name : String} {schema : Schema} {described : Properties}
    (hk : ¬ (schema.tag = .object ∨ schema.tag = .allOf))
    (h : (builder.properties name schema).result = .ok described) :
    described.properties = [] ∧ described.additional = none := by
  rw [properties, if_neg hk] at h
  cases h
  exact ⟨rfl, rfl⟩

/-- The types of the properties that are described, and of their additional ones. -/
lemma exists_of_properties {name : String} {schema : Schema} {described : Properties}
    (h : (builder.properties name schema).result = .ok described) :
    (∀ type ∈ described.properties.values.map PropertyEntry.type, ∃ flattened property slot,
      (schema.flatten builder.document).result = .ok flattened ∧
        (property, slot) ∈ flattened.properties ∧
        (builder.mapper.propertyType ((flattened.declaring? property).getD name) property slot).result =
          .ok type) ∧
    ∀ type, described.additional = some type → ∃ flattened slot,
      (schema.flatten builder.document).result = .ok flattened ∧
        flattened.additional.bind AdditionalProperties.slot? = some slot ∧
        (builder.mapper.slotType slot none).result = .ok type := by
  by_cases hk : schema.tag = .object ∨ schema.tag = .allOf
  · obtain ⟨flattened, hf, typed, added⟩ := types_of_properties hk h
    refine ⟨fun type ht => ?_, fun type ht => ?_⟩
    · obtain ⟨⟨property, slot⟩, hs, ht⟩ := Run.exists_of_mem_mapM typed ht
      exact ⟨flattened, property, slot, hf, hs, ht⟩
    · cases hv : flattened.additional.bind AdditionalProperties.slot? with
      | none =>
        rw [hv, ht] at added
        cases added
      | some slot =>
        rw [hv, ht] at added
        obtain ⟨_, typed, e⟩ := added
        cases e
        exact ⟨flattened, slot, hf, hv, typed⟩
  · obtain ⟨noProperties, noAdditional⟩ := no_properties hk h
    simp [noProperties, noAdditional, Entries.values]

end Builder

section Emitted

variable {builder : Builder} {known : Found → Prop} {first : Call → Prop} {registry : Registry}
  (walked : registry.Walked builder.document .everything first)
  (start : ∀ call, first call → call.Within builder.document)
include walked start

/-- The models named in an operation that is described are emitted, or stray. -/
lemma MethodEntry.emits {entry : OperationEntry} {method : MethodEntry} {warnings : List Warning}
    (closed : builder.document.Closed known (builder.document.Visited first))
    (safe : entry.Safe builder.document known (builder.document.Visited first))
    (h : (builder.operation entry).result = .ok (method, warnings)) :
    ∀ name ∈ method.mentioned, registry.Emits builder.mapper name := by
  obtain ⟨-, -, ⟨effective, he, hp⟩, -, returned, -⟩ := Builder.describes_of_operation h
  intro name hn
  obtain ⟨type, ht, hn⟩ := TypeRef.mem_modelsOfAll.1 hn
  rcases List.mem_append.1 ht with ht | ht
  · obtain ⟨parameter, hm, rfl⟩ := List.mem_map.1 ht
    obtain ⟨taken, hm, hd⟩ := Run.exists_of_mem_mapM hp hm
    have visited := (OperationEntry.effectiveParameters_faultless closed safe).2 effective he
    exact walked.emits_of_visited start (visited taken hm) (Builder.slotType_of_parameter hd) name hn
  · obtain ⟨slot, hs, ht⟩ := returned type (Option.mem_toList.1 ht)
    have visited := (Operation.returned_faultless safe.operation).2 slot hs
    exact walked.emits_of_visited start visited ht name hn

variable {own : String} {model : Registered} {entry : ModelEntry}
  (held : registry.get? own = some model) (describes : builder.Describes own model.schema entry)
include held describes

/-- The models named in a model that is described are emitted, or stray. -/
lemma ModelEntry.emits : ∀ name ∈ entry.mentioned, registry.Emits builder.mapper name := by
  obtain ⟨described, hd, properties, additional⟩ := describes.properties
  obtain ⟨ofProperties, ofAdditional⟩ := Builder.exists_of_properties hd
  intro name hn
  rcases List.mem_append.1 hn with hn | hn
  · obtain ⟨type, ht, hn⟩ := TypeRef.mem_modelsOfAll.1 hn
    rcases List.mem_cons.1 ht with rfl | ht
    · exact walked.emits_of_modelType start held describes.type name hn
    rcases List.mem_append.1 ht with ht | ht
    · rcases List.mem_append.1 ht with ht | ht
      · rcases List.mem_append.1 ht with ht | ht
        · rw [properties] at ht
          obtain ⟨flattened, property, slot, hf, hs, ht⟩ := ofProperties type ht
          exact walked.emits_of_flattened start held hf hs ht name hn
        · rw [additional] at ht
          obtain ⟨flattened, slot, hf, hs, ht⟩ := ofAdditional type (Option.mem_toList.1 ht)
          have visited := Flattened.safe_of_additional
            (fun slot schema h hs => walked.visited_inside h hs) (walked.visited_of_registered held) hf hs
          exact walked.emits_of_visited start visited ht name hn
      · rcases describes.oneOf with none | ⟨tag, members, hm, e⟩
        · rw [none] at ht
          cases ht
        · rw [e] at ht
          exact walked.emits_of_unionMembers start held tag hm type ht name hn
    · rcases describes.unionParameters with none | ⟨tag, hp⟩
      · rw [none] at ht
        cases ht
      · exact walked.emits_of_unionParameters start held tag hp type ht name hn
  · exact walked.emits_of_references start held describes.references name hn

omit start in
/-- The members of the choices in a model that is described are emitted, or stray, or the items of
members. -/
lemma ModelEntry.emits_of_choiceMembers : ∀ name ∈ entry.choiceMembers,
    registry.Emits builder.mapper name ∨ builder.mapper.MemberItems name := by
  -- The search comes to schemas of the document, at whose positions the walk was.
  let reached (schema : Schema) : Prop := builder.document.Contains (.owned schema) ∧
    ∀ slot ∈ schema.slots, builder.document.Visited first slot
  have contributes : ∀ choice members slot name, reached choice → choice.kind = .oneOf members →
      slot ∈ members → (ChoiceSearch.contribution builder.document builder.mapper.listModels slot).result =
        .ok (some name) →
      registry.Emits builder.mapper name ∨ builder.mapper.MemberItems name := by
    intro choice members slot name own hk hm hc
    have visited := own.2 slot (by rwa [Schema.slots, hk])
    obtain ⟨member, hs, hn | ⟨kind, unlisted, items, inner, hi, hr, hn⟩⟩ :=
      ChoiceSearch.exists_of_contribution hc
    · exact .inl (walked.emits_of_memberModel own.1 hk hm visited hs hn)
    · exact .inr (.intro own.1 hk hm hs kind unlisted hi hr hn)
  have onward : ∀ schema inner, reached schema → schema.Branches builder.document inner →
      reached inner := by
    intro schema inner own branches
    have leads := branches.leads
    clear branches
    induction leads with
    | refl => exact own
    | tail _ holds ih =>
      obtain ⟨slot, hs, hr⟩ := holds
      exact ⟨.resolve (.inside ih.1 hs) hr, walked.visited_inside (ih.2 slot hs) hr⟩
  have contains := (walked.proper.models own model (Entries.mem_of_get? held)).contains
  obtain ⟨search, hs, h⟩ := Run.bind_result_eq_ok.1 describes.choiceMembers
  intro name hn
  rw [← Except.ok.inj h] at hn
  exact ChoiceSearch.members_of_enter contributes ⟨contains, walked.visited_of_registered held⟩
    (fun _ hm => absurd hm List.not_mem_nil) _ onward hs name (List.mem_filter.1 hn).1

omit held describes in
/-- The models named in a version that is described are among its models, or stray, and so are the
members of choices, or they are the items of members. -/
lemma Builder.emits_of_build
    (closed : builder.document.Closed known (builder.document.Visited first))
    (paths : ∀ item ∈ builder.document.paths.values,
      item.Safe builder.document known (builder.document.Visited first)) {cycles : List (List String)}
    {manifest : VersionManifest} {statistics : Statistics}
    (h : (builder.build (registry.emitted builder.mapper.listModels) cycles).result =
      .ok (manifest, statistics)) :
    (∀ model ∈ manifest.mentioned,
        model ∈ manifest.models.keys ∨ builder.mapper.Stray model) ∧
      ∀ model ∈ manifest.choiceMembers, model ∈ manifest.models.keys ∨
        builder.mapper.Stray model ∨ builder.mapper.MemberItems model := by
  obtain ⟨_, _, ha, hm, -⟩ := build_eq_ok_iff.1 h
  obtain ⟨keys, described⟩ := exists_of_models hm
  -- The models that are described are those of the registry that are emitted.
  have describes : ∀ entry ∈ manifest.models.values, ∃ own model,
      registry.get? own = some model ∧ builder.Describes own model.schema entry := by
    intro entry he
    obtain ⟨⟨own, _⟩, hd, rfl⟩ := List.mem_map.1 he
    obtain ⟨model, hr, warnings, hd⟩ := described own _ hd
    have held := walked.proper.get?_eq_some_iff.2 (List.mem_filter.1 hr).1
    exact ⟨own, model, held, describes_of_model hd⟩
  rw [keys]
  refine ⟨fun model hn => ?_, fun model hn => ?_⟩
  · rcases List.mem_append.1 hn with hn | hn
    · obtain ⟨api, hapi, hn⟩ := List.mem_flatMap.1 hn
      obtain ⟨method, hmethod, hn⟩ := List.mem_flatMap.1 hn
      obtain ⟨methods, listed, -, made⟩ := exists_described_of_apis ha
      have mem : method ∈ methods.map Prod.fst := listed ▸ List.mem_flatMap.2 ⟨api, hapi, hmethod⟩
      obtain ⟨⟨_, warnings⟩, hw, rfl⟩ := List.mem_map.1 mem
      obtain ⟨entry, he, hd⟩ := made _ hw
      have safe := Document.operations_safe paths entry he
      exact MethodEntry.emits walked start closed safe hd model hn
    · obtain ⟨entry, he, hn⟩ := List.mem_flatMap.1 hn
      obtain ⟨own, registered, held, describes⟩ := describes entry he
      exact ModelEntry.emits walked start held describes model hn
  · obtain ⟨entry, he, hn⟩ := List.mem_flatMap.1 hn
    obtain ⟨own, registered, held, describes⟩ := describes entry he
    exact or_assoc.1 (ModelEntry.emits_of_choiceMembers walked held describes model hn)

end Emitted

/-- Every name of a model in a manifest is that of one of its models, or stray.  Among the members of
choices there are also the names of items. -/
theorem version_mentions {generator : Generator} {name : String} {tree : Json}
    (distinct : tree.keysDistinct = true) {manifest : VersionManifest} {statistics : Statistics}
    (h : generator.version name tree = .ok (manifest, statistics)) :
    ∃ document, Document.read ⟨0⟩ tree = .ok document ∧
      (∀ model ∈ manifest.mentioned, model ∈ manifest.models.keys ∨
        Mapper.Stray ⟨document, generator.settings.listModelsOf name⟩ model) ∧
      ∀ model ∈ manifest.choiceMembers, model ∈ manifest.models.keys ∨
        Mapper.Stray ⟨document, generator.settings.listModelsOf name⟩ model ∨
        Mapper.MemberItems ⟨document, generator.settings.listModelsOf name⟩ model := by
  unfold Generator.version at h
  obtain ⟨document, hd, h⟩ := bind_eq_ok.1 h
  obtain ⟨_, collected, h⟩ := bind_eq_ok.1 h
  cases read : Document.read ⟨0⟩ tree with
  | error cause =>
    rw [read] at hd
    cases hd
  | ok found =>
    rw [read] at hd
    cases hd
    have coherent := Document.coherent_of_read read distinct
    obtain ⟨first, walked, start, closed, paths⟩ := Generator.exists_walked coherent collected
    -- The builder is told by the version and the settings, and it has the document of the walk.
    let builder : Builder :=
      ⟨name, ⟨document, generator.settings.listModelsOf name⟩, generator.settings.reserved⟩
    have ofBuilder : (generator.collect builder.document .empty).registry.Walked builder.document
        .everything first := walked
    exact ⟨document, rfl, Builder.emits_of_build ofBuilder start closed paths h⟩

end Spelled

attribute [local instance] Spelling.german

/-- The manifest of a description with a choice mentions no others than its models. -/
theorem version_mentions_upload :
    uploadTree.keysDistinct = true ∧ ∃ manifest statistics,
      Generator.version ⟨.standard, false⟩ "1" uploadTree = .ok (manifest, statistics) ∧
      manifest.mentioned = ["File", "File", "Upload", "Upload", "File", "UploadLabels", "File",
        "UploadLabels", "File", "File", "UploadLabels"] ∧
      ∃ document, Document.read ⟨0⟩ uploadTree = .ok document ∧
        ∀ model ∈ manifest.mentioned, model ∈ manifest.models.keys ∨
          Mapper.Stray ⟨document, []⟩ model := by
  have distinct : uploadTree.keysDistinct = true := by decide +kernel
  have run : (Generator.version ⟨.standard, false⟩ "1" uploadTree).toOption.map
      (fun version => version.1.mentioned) = some ["File", "File", "Upload", "Upload", "File",
        "UploadLabels", "File", "UploadLabels", "File", "File", "UploadLabels"] := by
    decide +kernel
  obtain ⟨⟨manifest, statistics⟩, found, mentioned⟩ := Option.map_eq_some_iff.1 run
  have h := toOption_eq_some.1 found
  obtain ⟨document, read, mentions, -⟩ := version_mentions distinct h
  exact ⟨distinct, manifest, statistics, h, mentioned, document, read, mentions⟩

/-- A description of a choice between an array of texts and a schema that says nothing. -/
def labelTree : Json :=
  let ref (name : String) : Json := .obj [("$ref", .str ("#/components/schemas/" ++ name))]
  .obj [
    ("openapi", .str "3.0.0"),
    ("info", .obj [("title", .str "Labels"), ("version", .str "1")]),
    ("paths", .obj []),
    ("components", .obj [("schemas", .obj [
      ("Note", .obj [("oneOf", .arr [ref "Labels", ref "Blob"])]),
      ("Labels", .obj [("type", .str "array"), ("items", ref "Label")]),
      ("Label", .obj [("type", .str "string")]),
      ("Blob", .obj [])])])]

/-- A manifest may mention what is none of its models: items of members, and members that are stray. -/
theorem version_mentions_unemitted :
    labelTree.keysDistinct = true ∧ ∃ manifest statistics,
      Generator.version ⟨.standard, true⟩ "1" labelTree = .ok (manifest, statistics) ∧
      manifest.models.keys = ["Note"] ∧ manifest.choiceMembers = ["Label", "Blob"] ∧
      manifest.mentioned = ["Note", "Blob", "Blob"] ∧
      ¬ ∀ model ∈ manifest.mentioned ++ manifest.choiceMembers, model ∈ manifest.models.keys := by
  have distinct : labelTree.keysDistinct = true := by decide +kernel
  have run : (Generator.version ⟨.standard, true⟩ "1" labelTree).toOption.map
      (fun version => (version.1.models.keys, version.1.choiceMembers, version.1.mentioned)) =
        some (["Note"], ["Label", "Blob"], ["Note", "Blob", "Blob"]) := by decide +kernel
  obtain ⟨⟨manifest, statistics⟩, found, run⟩ := Option.map_eq_some_iff.1 run
  obtain ⟨keys, run⟩ := Prod.mk.inj run
  obtain ⟨members, mentioned⟩ := Prod.mk.inj run
  refine ⟨distinct, manifest, statistics, toOption_eq_some.1 found, keys, members, mentioned,
    fun all => ?_⟩
  have label : "Label" ∈ manifest.models.keys :=
    all "Label" (List.mem_append_right _ (by rw [members]; decide))
  rw [keys] at label
  revert label
  decide

end OpenApiManifest
