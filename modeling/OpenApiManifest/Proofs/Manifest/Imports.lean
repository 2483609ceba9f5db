import OpenApiManifest.Proofs.Flattening.Expansion
import OpenApiManifest.Proofs.Manifest.Mentioned
import OpenApiManifest.Proofs.Manifest.Tally

/-!
# What models import

The references of a model in a manifest are gathered from types that are worked out anew, apart from those
in the model.  The two agree (`Builder.bodyTypes_of_model`): the references are the other models that the
model names in its properties, in its members, and in its list, and in its additional properties unless it
is a composition (`Generator.version_references`).
-/

namespace OpenApiManifest

/-- The types in the body of a model of a manifest: of its properties and its additional properties, of its
members if it is a choice, and its list if it is an array. -/
def ModelEntry.bodyTypes (entry : ModelEntry) : List TypeRef :=
  entry.properties.values.map PropertyEntry.type ++ entry.additionalProperties.toList ++ entry.oneOf
    ++ if entry.kind = .array then [entry.type] else []

/-- The types from which the references of a model of a manifest are gathered: the additional properties of
compositions are left out. -/
def ModelEntry.importedTypes (entry : ModelEntry) : List TypeRef :=
  entry.properties.values.map PropertyEntry.type
    ++ (if entry.kind = .allOf then [] else entry.additionalProperties.toList) ++ entry.oneOf
    ++ if entry.kind = .array then [entry.type] else []

/-- What is named in the body of a model is imported, or named in the additional properties of a
composition. -/
lemma ModelEntry.exists_mem_bodyTypes_iff {entry : ModelEntry} {model : String} :
    (∃ type ∈ entry.bodyTypes, type.Names model) ↔ (∃ type ∈ entry.importedTypes, type.Names model) ∨
      entry.kind = .allOf ∧ ∃ type ∈ entry.additionalProperties, type.Names model := by
  simp only [bodyTypes, importedTypes, List.mem_append, Option.mem_toList, Option.mem_def]
  by_cases kind : entry.kind = .allOf
  · rw [if_pos kind]
    grind
  · rw [if_neg kind]
    simp [kind]

section Spelled

variable [Spelling]

namespace Builder

variable {builder : Builder} {own : String} {registered : Registered} {entry : ModelEntry}
  {warnings : List Warning}

/-- A model is of the kind of its schema, and has members if that is a choice. -/
lemma kind_of_model (h : (builder.model own registered).result = .ok (entry, warnings)) :
    entry.kind = registered.schema.tag ∧ ∃ members,
      (if registered.schema.tag = .oneOf then builder.mapper.unionMembers registered.schema
        else pure []).result = .ok members ∧ entry.oneOf = members.map UnionMember.type := by
  rw [model_eq] at h
  obtain ⟨described, -, h⟩ := Run.bind_result_eq_ok.1 h
  obtain ⟨members, hm, h⟩ := Run.bind_result_eq_ok.1 h
  obtain ⟨parameters, -, h⟩ := Run.bind_result_eq_ok.1 h
  obtain ⟨type, -, h⟩ := Run.bind_result_eq_ok.1 h
  obtain ⟨references, -, h⟩ := Run.bind_result_eq_ok.1 h
  obtain ⟨choiceMembers, -, h⟩ := Run.bind_result_eq_ok.1 h
  cases h
  exact ⟨rfl, members, hm, rfl⟩

/-- What is imported for a composition is imported for its properties. -/
lemma importedTypes_of_composition (h : (builder.model own registered).result = .ok (entry, warnings))
    (composition : entry.kind = .allOf) :
    entry.importedTypes = entry.properties.values.map PropertyEntry.type := by
  obtain ⟨kind, members, hm, oneOf⟩ := kind_of_model h
  rw [← kind, composition] at hm
  cases hm
  simp [ModelEntry.importedTypes, composition, oneOf]

/-- The properties of an object that are described in its own name are those that it declares, each with its
type under that name. -/
lemma describes_of_object {schema : Schema} {described : Properties} {properties : Entries SchemaSlot}
    {required : List String} {additional : AdditionalProperties SchemaSlot}
    (named : ∀ name ∈ schema.name?, name = own) (distinct : properties.keys.Nodup)
    (hk : schema.kind = .object properties required additional)
    (h : (builder.properties own schema).result = .ok described) :
    List.Forall₂ (fun property entry => entry.1 = property.1 ∧
      (builder.mapper.propertyType own property.1 property.2).result = .ok entry.2.type)
        properties described.properties ∧
      match additional.slot? with
      | some slot => ∃ type, (builder.mapper.slotType slot none).result = .ok type ∧
          described.additional = some type
      | none => described.additional = none := by
  obtain ⟨flattened, hf, each, added⟩ := describes_of_properties (.inl (by rw [Schema.tag, hk])) h
  obtain ⟨_, hf', rfl, declared, owner⟩ := Schema.flatten_of_object builder.document distinct hk
  obtain rfl := Except.ok.inj (hf.symm.trans hf')
  have parent : ∀ property, (flattened.declaring? property).getD own = own := by
    intro property
    rw [owner]
    split
    · cases hn : schema.name? with
      | none => rfl
      | some name => exact named name hn
    · rfl
  have slot : flattened.additional.bind AdditionalProperties.slot? = additional.slot? := by
    rw [declared]
    cases additional <;> rfl
  simp only [parent] at each
  rw [slot] at added
  exact ⟨each, added⟩

/-- The types of an object in its own name are those that are described. -/
lemma bodyTypes_of_object {schema : Schema} {described : Properties} {properties : Entries SchemaSlot}
    {required : List String} {additional : AdditionalProperties SchemaSlot}
    (named : ∀ name ∈ schema.name?, name = own) (distinct : properties.keys.Nodup)
    (hk : schema.kind = .object properties required additional)
    (h : (builder.properties own schema).result = .ok described) :
    (builder.mapper.bodyTypes own schema).result =
      .ok (described.properties.values.map PropertyEntry.type ++ described.additional.toList) := by
  obtain ⟨each, added⟩ := describes_of_object named distinct hk h
  have typed : (properties.mapM fun (property, slot) =>
      builder.mapper.propertyType own property slot).result =
        .ok (described.properties.values.map PropertyEntry.type) := by
    rw [Run.mapM_eq_ok, Entries.values, List.map_map, List.forall₂_map_right_iff]
    exact each.imp fun property entry typed => typed.2
  rw [Mapper.bodyTypes, hk]
  refine Run.bind_result_eq_ok.2 ⟨_, typed, ?_⟩
  cases hv : additional.slot? with
  | none =>
    rw [hv] at added
    rw [added, Option.toList_none, List.append_nil]
    rfl
  | some value =>
    rw [hv] at added
    obtain ⟨type, ht, added⟩ := added
    rw [added]
    exact Run.bind_result_eq_ok.2 ⟨type, ht, rfl⟩

/-- The types in the body of a model are those that are described, but for the additional properties of
compositions. -/
theorem bodyTypes_of_model (named : ∀ name ∈ registered.schema.name?, name = own)
    (distinct : ∀ properties, registered.schema.properties? = some properties → properties.keys.Nodup)
    (h : (builder.model own registered).result = .ok (entry, warnings)) :
    (builder.mapper.bodyTypes own registered.schema).result = .ok entry.importedTypes := by
  have describes := describes_of_model h
  obtain ⟨described, hd, properties, additional⟩ := describes.properties
  obtain ⟨kind, members, hm, oneOf⟩ := kind_of_model h
  rw [ModelEntry.importedTypes, kind, oneOf, properties, additional]
  -- Both sides distinguish the kinds of schemas, each in its own way: they are compared kind by kind.
  cases hk : registered.schema.kind with
  | object declared required more =>
    have tag : registered.schema.tag = .object := by rw [Schema.tag, hk]
    have types := bodyTypes_of_object named (distinct declared (by rw [Schema.properties?, hk])) hk hd
    rw [tag] at hm ⊢
    cases hm
    simpa using types
  | allOf composed =>
    have tag : registered.schema.tag = .allOf := by rw [Schema.tag, hk]
    obtain ⟨flattened, hf, typed, -⟩ := types_of_properties (.inr tag) hd
    have types : (builder.mapper.bodyTypes own registered.schema).result =
        .ok (described.properties.values.map PropertyEntry.type) := by
      rw [Mapper.bodyTypes, hk]
      exact Run.bind_result_eq_ok.2 ⟨flattened, hf, typed⟩
    rw [tag] at hm ⊢
    cases hm
    simpa using types
  | oneOf choices =>
    have tag : registered.schema.tag = .oneOf := by rw [Schema.tag, hk]
    obtain ⟨noProperties, noAdditional⟩ := no_properties (by rw [tag]; decide) hd
    rw [if_pos tag] at hm
    have types : (builder.mapper.bodyTypes own registered.schema).result =
        .ok (members.map UnionMember.type) := by
      rw [Mapper.bodyTypes, hk]
      exact Run.bind_result_eq_ok.2 ⟨members, hm, rfl⟩
    rw [tag, noProperties, noAdditional]
    simpa [Entries.values] using types
  | array items least most =>
    have tag : registered.schema.tag = .array := by rw [Schema.tag, hk]
    obtain ⟨noProperties, noAdditional⟩ := no_properties (by rw [tag]; decide) hd
    have types : (builder.mapper.bodyTypes own registered.schema).result = .ok [entry.type] := by
      rw [Mapper.bodyTypes, hk]
      exact Run.bind_result_eq_ok.2 ⟨entry.type, describes.type, rfl⟩
    rw [tag] at hm
    cases hm
    rw [tag, noProperties, noAdditional]
    simpa [Entries.values] using types
  | enum _ | anyOf _ | primitive _ _ =>
    have types : (builder.mapper.bodyTypes own registered.schema).result = .ok [] := by
      rw [Mapper.bodyTypes, hk]
      rfl
    obtain ⟨object, composition, choice, array⟩ : registered.schema.tag ≠ .object ∧
        registered.schema.tag ≠ .allOf ∧ registered.schema.tag ≠ .oneOf ∧
        registered.schema.tag ≠ .array := by simp [Schema.tag, hk]
    obtain ⟨noProperties, noAdditional⟩ := no_properties (not_or.2 ⟨object, composition⟩) hd
    rw [if_neg choice] at hm
    cases hm
    rw [noProperties, noAdditional, if_neg array]
    simpa [Entries.values] using types

/-- The references of a model are distinct: they are the other models that are imported. -/
lemma references_of_model (named : ∀ name ∈ registered.schema.name?, name = own)
    (distinct : ∀ properties, registered.schema.properties? = some properties → properties.keys.Nodup)
    (h : (builder.model own registered).result = .ok (entry, warnings)) :
    entry.references.Nodup ∧ ∀ model, model ∈ entry.references ↔
      model ≠ own ∧ ∃ type ∈ entry.importedTypes, type.Names model := by
  obtain ⟨types, ht, references⟩ := Run.bind_result_eq_ok.1 (describes_of_model h).references
  obtain rfl := Except.ok.inj (ht.symm.trans (bodyTypes_of_model named distinct h))
  rw [← Except.ok.inj references]
  refine ⟨(OrderedSet.nodup_ofList _).filter _, fun model => ?_⟩
  rw [OrderedSet.erase, List.mem_filter, decide_eq_true_eq, OrderedSet.mem_ofList, and_comm,
    TypeRef.mem_modelsOfAll_iff_names]

end Builder

/-- The references of each model in a manifest are distinct: they are the other models that are named in its
properties, its members and its list, and those in its additional properties if it is no composition.  They
are all other models in its body unless the additional properties of a composition name another model than
its properties do. -/
theorem Generator.version_references {generator : Generator} {name : String} {tree : Json}
    (distinct : tree.keysDistinct = true) {manifest : VersionManifest} {statistics : Statistics}
    (h : generator.version name tree = .ok (manifest, statistics)) :
    ∀ own entry, (own, entry) ∈ manifest.models → entry.references.Nodup ∧
      (∀ model, model ∈ entry.references ↔
        model ≠ own ∧ ∃ type ∈ entry.importedTypes, type.Names model) ∧
      ((∀ model, model ∈ entry.references ↔ model ≠ own ∧ ∃ type ∈ entry.bodyTypes, type.Names model) ↔
        (entry.kind = .allOf → ∀ type ∈ entry.additionalProperties, ∀ model, type.Names model →
          model = own ∨ ∃ property ∈ entry.properties.values, property.type.Names model)) := by
  obtain ⟨document, read, collected, built⟩ := version_eq_ok_iff.1 h
  obtain ⟨⟨apis, _⟩, -, built⟩ := Run.bind_result_eq_ok.1 built
  obtain ⟨⟨models, _⟩, hm, built⟩ := Run.bind_result_eq_ok.1 built
  cases built
  intro own entry mem
  obtain ⟨registered, held, warnings, hd⟩ := (Builder.exists_of_models hm).2 own entry mem
  have coherent := Document.coherent_of_read read distinct
  have walked := (collect_visits coherent generator).collects.walked collected
  have proper := walked.proper.models own registered (List.mem_filter.1 held).1
  obtain ⟨path, at_, -⟩ := proper.contains.at_path read distinct
  obtain ⟨nodup, mem⟩ := Builder.references_of_model (fun name hn => proper.eq_of_name? hn)
    (fun properties hp => at_.nodup_keys distinct hp) hd
  have composed := Builder.importedTypes_of_composition hd
  refine ⟨nodup, mem, fun exact kind type ht model hn => ?_,
    fun covered model => ⟨fun hn => ?_, fun hn => ?_⟩⟩
  · by_cases same : model = own
    · exact .inl same
    · have named := ModelEntry.exists_mem_bodyTypes_iff.2 (.inr ⟨kind, type, ht, hn⟩)
      have imported := ((mem model).1 ((exact model).2 ⟨same, named⟩)).2
      rw [composed kind] at imported
      obtain ⟨_, mapped, named⟩ := imported
      obtain ⟨property, hp, rfl⟩ := List.mem_map.1 mapped
      exact .inr ⟨property, hp, named⟩
  · obtain ⟨other, hn⟩ := (mem model).1 hn
    exact ⟨other, ModelEntry.exists_mem_bodyTypes_iff.2 (.inl hn)⟩
  · refine (mem model).2 ⟨hn.1, ?_⟩
    rcases ModelEntry.exists_mem_bodyTypes_iff.1 hn.2 with imported | ⟨kind, type, ht, named⟩
    · exact imported
    · obtain ⟨property, hp, named⟩ := (covered kind type ht model named).resolve_left hn.1
      rw [composed kind]
      exact ⟨property.type, List.mem_map_of_mem hp, named⟩

end Spelled

attribute [local instance] Spelling.german

/-- A description of shelves, which are compositions, of books, and of notes on either.  A shelf has a list of
books and a map of labels that may be null, a book has a shelf, and what else it has is a note or a label. -/
def shelfTree : Json :=
  let ref (name : String) : Json := .obj [("$ref", .str ("#/components/schemas/" ++ name))]
  .obj [
    ("openapi", .str "3.0.0"),
    ("info", .obj [("title", .str "Shelves"), ("version", .str "1")]),
    ("paths", .obj []),
    ("components", .obj [("schemas", .obj [
      ("Shelf", .obj [("allOf", .arr [ref "Base",
        .obj [("properties", .obj [("books", .obj [("type", .str "array"), ("items", ref "Book")])])]])]),
      ("Base", .obj [("properties", .obj [("labels", .obj [("type", .str "object"),
        ("additionalProperties", .obj [("allOf", .arr [ref "Label"]), ("nullable", .bool true)])])])]),
      ("Book", .obj [("properties", .obj [("shelf", ref "Shelf"), ("after", ref "Book")]),
        ("additionalProperties", .obj [("oneOf", .arr [ref "Note", ref "Label"])])]),
      ("Label", .obj [("enum", .arr [.str "left", .str "right"])]),
      ("Note", .obj [("oneOf", .arr [ref "Book", ref "Base"])])])])]

/-- A shelf imports what its members declare, and a book its shelf and what else it may have. -/
theorem Generator.version_references_shelf :
    shelfTree.keysDistinct = true ∧ ∃ manifest statistics,
      Generator.version ⟨.standard, true⟩ "1" shelfTree = .ok (manifest, statistics) ∧
      (manifest.models.map fun model =>
          (model.1, model.2.importedTypes.map TypeRef.write, model.2.references)) =
        [("Shelf", ["map<string, nullable<Label>>", "list<Book>"], ["Label", "Book"]),
          ("Base", ["map<string, nullable<Label>>"], ["Label"]),
          ("Label", [], []),
          ("Book", ["Shelf", "Book", "union<Note, Label>"], ["Shelf", "Note", "Label"]),
          ("Note", ["Book", "Base"], ["Book", "Base"])] ∧
      ∀ own entry, (own, entry) ∈ manifest.models → entry.references.Nodup ∧
        ∀ model, model ∈ entry.references ↔
          model ≠ own ∧ ∃ type ∈ entry.importedTypes, type.Names model := by
  have distinct : shelfTree.keysDistinct = true := by decide +kernel
  have run : (Generator.version ⟨.standard, true⟩ "1" shelfTree).toOption.map
      (fun version => version.1.models.map fun model =>
        (model.1, model.2.importedTypes.map TypeRef.write, model.2.references)) =
      some [("Shelf", ["map<string, nullable<Label>>", "list<Book>"], ["Label", "Book"]),
        ("Base", ["map<string, nullable<Label>>"], ["Label"]),
        ("Label", [], []),
        ("Book", ["Shelf", "Book", "union<Note, Label>"], ["Shelf", "Note", "Label"]),
        ("Note", ["Book", "Base"], ["Book", "Base"])] := by decide +kernel
  obtain ⟨⟨manifest, statistics⟩, found, references⟩ := Option.map_eq_some_iff.1 run
  have h := toOption_eq_some.1 found
  refine ⟨distinct, manifest, statistics, h, references, fun own entry mem => ?_⟩
  obtain ⟨nodup, imports, -⟩ := version_references distinct h own entry mem
  exact ⟨nodup, imports⟩

/-- A description of ledgers: compositions whose additional properties are entries. -/
def ledgerTree : Json :=
  let ref (name : String) : Json := .obj [("$ref", .str ("#/components/schemas/" ++ name))]
  .obj [
    ("openapi", .str "3.0.0"),
    ("info", .obj [("title", .str "Ledgers"), ("version", .str "1")]),
    ("paths", .obj []),
    ("components", .obj [("schemas", .obj [
      ("Ledger", .obj [("allOf", .arr [
        .obj [("properties", .obj [("year", .obj [("type", .str "integer")])])],
        .obj [("type", .str "object"), ("additionalProperties", ref "Entry")]])]),
      ("Entry", .obj [("properties", .obj [("text", .obj [("type", .str "string")])])])])])]

/-- The additional properties of a ledger name the entries, and its references do not. -/
theorem Generator.version_references_ledger :
    ledgerTree.keysDistinct = true ∧ ∃ manifest statistics,
      Generator.version ⟨.standard, true⟩ "1" ledgerTree = .ok (manifest, statistics) ∧
      ∃ entry, ("Ledger", entry) ∈ manifest.models ∧ entry.references = [] ∧
        entry.additionalProperties.map TypeRef.models = some ["Entry"] ∧
        ¬ ∀ model, model ∈ entry.references ↔
          model ≠ "Ledger" ∧ ∃ type ∈ entry.bodyTypes, type.Names model := by
  have distinct : ledgerTree.keysDistinct = true := by decide +kernel
  have run : (Generator.version ⟨.standard, true⟩ "1" ledgerTree).toOption.bind
      (fun version => (Entries.get? "Ledger" version.1.models).map fun entry =>
        (entry.references, entry.additionalProperties.map TypeRef.models,
          TypeRef.modelsOfAll entry.bodyTypes)) = some ([], some ["Entry"], ["Entry"]) := by
    decide +kernel
  obtain ⟨⟨manifest, statistics⟩, found, run⟩ := Option.bind_eq_some_iff.1 run
  obtain ⟨entry, held, run⟩ := Option.map_eq_some_iff.1 run
  obtain ⟨references, run⟩ := Prod.mk.inj run
  obtain ⟨additional, named⟩ := Prod.mk.inj run
  refine ⟨distinct, manifest, statistics, toOption_eq_some.1 found, entry, Entries.mem_of_get? held,
    references, additional, fun exact => ?_⟩
  have mem : "Entry" ∈ TypeRef.modelsOfAll entry.bodyTypes := by
    rw [named]
    decide
  have imported : "Entry" ∈ entry.references :=
    (exact "Entry").2 ⟨by decide, TypeRef.mem_modelsOfAll_iff_names.1 mem⟩
  rw [references] at imported
  cases imported

end OpenApiManifest
