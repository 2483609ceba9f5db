import OpenApiManifest.Proofs.Manifest.Growth
import OpenApiManifest.Proofs.Manifest.Imports
import OpenApiManifest.Proofs.Types.Ending

/-!
# The values of maps

The values of a map are typed twice: where a nameless object without properties is spelled out as a map, and
for the additional properties of a model.  Both go by the schema at the position of the values, and only the
map that is spelled out says whether that schema admits null: the two agree exactly where it does not
(`Generator.version_mapValues`).
-/

namespace OpenApiManifest

/-- A nameless object without properties, which has values at a position. -/
def Schema.mapOf (info : SchemaInfo) (required : List String) (slot : SchemaSlot) : Schema :=
  ⟨{ info with name := none }, .object [] required (.schema slot)⟩

/-- All maps with values at a position are spelled out as maps to a type. -/
def Mapper.SpellsValues (mapper : Mapper) (slot : SchemaSlot) (type : TypeRef) : Prop :=
  ∀ info required candidate,
    (mapper.slotType (.owned (.mapOf info required slot)) candidate).result = .ok (.map type)

/-- What a position of a document resolves to is no larger than what stands there and what the components
hold. -/
lemma Document.size_le_of_resolve {document : Document} {slot : SchemaSlot} {schema : Schema}
    (h : (slot.resolve document).result = .ok schema) :
    schema.size ≤ Schema.slotSize slot + Schema.propertiesSize document.components.schemas := by
  rcases Slot.eq_or_exists_of_resolve h with rfl | ⟨name, held⟩
  · rw [Schema.slotSize]
    exact Nat.le_add_right _ _
  · have component := Schema.slotSize_le_propertiesSize (List.mem_map.2 ⟨_, Entries.mem_of_get? held, rfl⟩)
    rw [Schema.slotSize] at component
    exact Nat.le_add_left_of_le component

namespace TypeRef

/-- A type is left as it is exactly if it is not made nullable. -/
lemma nullableIf_eq_iff {nullable : Bool} {type : TypeRef} :
    type.nullableIf nullable = type ↔ nullable = false := by
  cases nullable with
  | false => exact ⟨fun _ => rfl, fun _ => rfl⟩
  | true =>
    refine ⟨fun same => ?_, nofun⟩
    have size := congrArg sizeOf same
    simp [nullableIf] at size

end TypeRef

namespace Mapper

variable {mapper : Mapper} {slot : SchemaSlot} {type other : TypeRef}

/-- A map that is spelled out is one to the type at the position of its values. -/
lemma slotType_mapOf (info : SchemaInfo) (required : List String) (candidate : Option String)
    {steps : Nat} (enough : mapper.steps (Schema.mapOf info required slot).size = steps + 1) :
    mapper.slotType (.owned (.mapOf info required slot)) candidate =
      (do return .map (← mapper.valueType steps slot none)) := by
  have hf : mapper.form (Schema.mapOf info required slot) candidate = .map slot := by
    cases candidate <;> rfl
  rw [slotType, Slot.resolve, pure_bind, enough, schemaType_succ, hf]
  rfl

/-- A map has two steps more than its values can need. -/
lemma exists_steps_mapOf (info : SchemaInfo) (required : List String) {value : Schema}
    (hv : (slot.resolve mapper.document).result = .ok value) :
    ∃ steps, mapper.steps (Schema.mapOf info required slot).size = steps + 2 ∧
      2 * ((mapper.document.components.schemas.length + 2)
        * (value.size + Schema.propertiesSize mapper.document.components.schemas + 1)) ≤ steps := by
  have small := Document.size_le_of_resolve hv
  have size : (Schema.mapOf info required slot).size = Schema.slotSize slot + 1 := by
    simp [Schema.mapOf, Schema.size, Schema.propertiesSize, Schema.additionalSize]
  rw [Mapper.steps, Document.steps, size]
  generalize mapper.document.components.schemas.length = count
  generalize Schema.propertiesSize mapper.document.components.schemas = shared at small ⊢
  have more : (count + 2) * (value.size + shared + 1) + (count + 2) ≤
      (count + 2) * (2 * (Schema.slotSize slot + 1 + shared + 2)) := by
    rw [← Nat.mul_succ]
    exact Nat.mul_le_mul_left _ (by omega)
  have twice : 4 * (count + 2) * (Schema.slotSize slot + 1 + shared + 2) =
      2 * ((count + 2) * (2 * (Schema.slotSize slot + 1 + shared + 2))) := by
    rw [Nat.mul_assoc, Nat.mul_left_comm (count + 2) 2]
    omega
  rw [twice]
  exact ⟨_, (Nat.sub_add_cancel (by omega)).symm, by omega⟩

/-- Two types to which all maps at a position are spelled out are the same. -/
lemma SpellsValues.unique (h : mapper.SpellsValues slot type) (h' : mapper.SpellsValues slot other)
    (info : SchemaInfo) : type = other :=
  TypeRef.map.inj (Except.ok.inj ((h info [] none).symm.trans (h' info [] none)))

/-- Where the type at a position is computed, maps are spelled out to it, and their values admit null if the
schema there does. -/
lemma exists_spellsValues (coherent : mapper.document.Coherent) (contains : mapper.document.Contains slot)
    (h : (mapper.slotType slot none).result = .ok type) :
    ∃ value, (slot.resolve mapper.document).result = .ok value ∧
      mapper.SpellsValues slot (type.nullableIf value.info.nullable) ∧
      (mapper.SpellsValues slot type ↔ value.info.nullable = false) := by
  obtain ⟨value, hv, ht⟩ := Run.bind_result_eq_ok.1 h
  have spells : mapper.SpellsValues slot (type.nullableIf value.info.nullable) := by
    intro info required candidate
    obtain ⟨steps, enough, left⟩ := exists_steps_mapOf info required hv
    have spelled := schemaType_enough coherent (contains.resolve hv) left ht
    rw [slotType_mapOf info required candidate enough, Mapper.valueType]
    exact Run.bind_result_eq_ok.2 ⟨_, Run.bind_result_eq_ok.2 ⟨value, hv,
      Run.bind_result_eq_ok.2 ⟨type, spelled, rfl⟩⟩, rfl⟩
  refine ⟨value, hv, spells, fun exact => ?_, fun never => ?_⟩
  · exact TypeRef.nullableIf_eq_iff.1 (spells.unique exact value.info)
  · rwa [never] at spells

end Mapper

/-- The additional properties of each object and composition in a manifest have the type of the values of
maps, but do not admit null: a map with values at the same position is spelled out as a map to that type,
which admits null if the schema there does.  The two are the same exactly if it does not. -/
theorem Generator.version_mapValues [Spelling] {generator : Generator} {name : String} {tree : Json}
    (distinct : tree.keysDistinct = true) {manifest : VersionManifest} {statistics : Statistics}
    (h : generator.version name tree = .ok (manifest, statistics)) :
    ∃ document, Document.read ⟨0⟩ tree = .ok document ∧
      ∀ own entry, (own, entry) ∈ manifest.models → entry.kind = .object ∨ entry.kind = .allOf →
        ∃ registered, (generator.collect document .empty).registry.get? own = some registered ∧
          ∃ flattened, (registered.schema.flatten document).result = .ok flattened ∧
            match flattened.additional.bind AdditionalProperties.slot? with
            | none => entry.additionalProperties = none
            | some slot => ∃ type value, entry.additionalProperties = some type ∧
                (slot.resolve document).result = .ok value ∧
                Mapper.SpellsValues ⟨document, generator.settings.listModelsOf name⟩ slot
                  (type.nullableIf value.info.nullable) ∧
                (Mapper.SpellsValues ⟨document, generator.settings.listModelsOf name⟩ slot type ↔
                  value.info.nullable = false) := by
  obtain ⟨document, read, -, -, described⟩ := exists_of_version distinct h
  have coherent := Document.coherent_of_read read distinct
  refine ⟨document, read, fun own entry mem kind => ?_⟩
  obtain ⟨registered, held, proper, warnings, hd⟩ := described own entry mem
  obtain ⟨described, hp, -, additional⟩ := (Builder.describes_of_model hd).properties
  rw [(Builder.kind_of_model hd).1] at kind
  obtain ⟨flattened, hf, -, typed⟩ := Builder.types_of_properties kind hp
  refine ⟨registered, held, flattened, hf, ?_⟩
  rw [additional]
  -- The builder takes the type of the value as it is, and does not ask whether the value is nullable.
  cases hv : flattened.additional.bind AdditionalProperties.slot? with
  | none =>
    rw [hv] at typed
    exact typed
  | some slot =>
    rw [hv] at typed
    obtain ⟨type, ht, typed⟩ := typed
    have there := Flattened.safe_of_additional document.contains_inner
      (fun _ mem => .inside proper.contains mem) hf hv
    obtain ⟨value, resolved, spells, exact⟩ := Mapper.exists_spellsValues coherent there ht
    exact ⟨type, value, typed, resolved, spells, exact⟩

attribute [local instance] Spelling.german

/-- A description of scores, which map to points, and of labels, which map to texts or null. -/
def scoreTree : Json :=
  let ref (name : String) : Json := .obj [("$ref", .str ("#/components/schemas/" ++ name))]
  let text : Json := .obj [("type", .str "string"), ("nullable", .bool true)]
  .obj [
    ("openapi", .str "3.0.0"),
    ("info", .obj [("title", .str "Labels"), ("version", .str "1")]),
    ("paths", .obj []),
    ("components", .obj [("schemas", .obj [
      ("Scores", .obj [("type", .str "object"), ("additionalProperties", ref "Point")]),
      ("Point", .obj [("type", .str "integer")]),
      ("Labels", .obj [("type", .str "object"), ("additionalProperties", text)])])])]

/-- What the models of scores and labels map to, and what their schemas do. -/
lemma scoreTree_evaluates :
    scoreTree.keysDistinct = true ∧
      (Generator.version ⟨.standard, true⟩ "1" scoreTree).toOption.bind (fun version =>
        (Entries.get? "Scores" version.1.models).map fun entry =>
          (entry.kind, entry.additionalProperties.map TypeRef.write)) = some (.object, some "int") ∧
      ((Document.read ⟨0⟩ scoreTree).toOption.bind fun document =>
        ((Generator.collect ⟨.standard, true⟩ document .empty).registry.get? "Scores").bind fun registered =>
          (registered.schema.flatten document).result.toOption.bind fun flattened =>
            (flattened.additional.bind AdditionalProperties.slot?).bind fun slot =>
              (slot.resolve document).result.toOption.map fun value => value.info.nullable) =
        some false ∧
      (Generator.version ⟨.standard, true⟩ "1" scoreTree).toOption.bind (fun version =>
        (Entries.get? "Labels" version.1.models).map fun entry =>
          (entry.kind, entry.additionalProperties.map TypeRef.write)) = some (.object, some "text") ∧
      ((Document.read ⟨0⟩ scoreTree).toOption.bind fun document =>
        ((Generator.collect ⟨.standard, true⟩ document .empty).registry.get? "Labels").bind fun registered =>
          (registered.schema.flatten document).result.toOption.bind fun flattened =>
            (flattened.additional.bind AdditionalProperties.slot?).map fun slot =>
              (Mapper.slotType ⟨document, []⟩ (.owned (.mapOf registered.schema.info [] slot))
                none).result.toOption.map TypeRef.write) =
        some (some "map<string, nullable<text>>") := by
  -- One evaluation for all the facts: the kernel then reads the description once.
  decide +kernel

/-- Scores map to whole numbers, as a model and spelled out. -/
theorem Generator.version_mapValues_scores :
    scoreTree.keysDistinct = true ∧ ∃ manifest statistics document entry registered flattened slot type,
      Generator.version ⟨.standard, true⟩ "1" scoreTree = .ok (manifest, statistics) ∧
      Document.read ⟨0⟩ scoreTree = .ok document ∧
      Entries.get? "Scores" manifest.models = some entry ∧ entry.kind = .object ∧
      (Generator.collect ⟨.standard, true⟩ document .empty).registry.get? "Scores" = some registered ∧
      (registered.schema.flatten document).result = .ok flattened ∧
      flattened.additional.bind AdditionalProperties.slot? = some slot ∧
      entry.additionalProperties = some type ∧ type.write = "int" ∧
      Mapper.SpellsValues ⟨document, []⟩ slot type := by
  obtain ⟨distinct, run, values, -⟩ := scoreTree_evaluates
  obtain ⟨⟨manifest, statistics⟩, found, run⟩ := Option.bind_eq_some_iff.1 run
  obtain ⟨entry, held, run⟩ := Option.map_eq_some_iff.1 run
  obtain ⟨kind, int⟩ := Prod.mk.inj run
  obtain ⟨type, additional, int⟩ := Option.map_eq_some_iff.1 int
  obtain ⟨document, read, values⟩ := Option.bind_eq_some_iff.1 values
  obtain ⟨registered, known, values⟩ := Option.bind_eq_some_iff.1 values
  obtain ⟨flattened, flat, values⟩ := Option.bind_eq_some_iff.1 values
  obtain ⟨slot, hs, values⟩ := Option.bind_eq_some_iff.1 values
  obtain ⟨value, resolved, never⟩ := Option.map_eq_some_iff.1 values
  have h := toOption_eq_some.1 found
  refine ⟨distinct, manifest, statistics, document, entry, registered, flattened, slot, type, h,
    toOption_eq_some.1 read, held, kind, known, toOption_eq_some.1 flat, hs, additional, int, ?_⟩
  obtain ⟨document', read', models⟩ := version_mapValues distinct h
  obtain rfl := Except.ok.inj ((toOption_eq_some.1 read).symm.trans read')
  obtain ⟨registered', known', flattened', flat', typed⟩ :=
    models "Scores" entry (Entries.mem_of_get? held) (.inl kind)
  obtain rfl := Option.some.inj (known.symm.trans known')
  obtain rfl := Except.ok.inj ((toOption_eq_some.1 flat).symm.trans flat')
  rw [hs] at typed
  obtain ⟨type', value', additional', resolved', -, exact⟩ := typed
  obtain rfl := Option.some.inj (additional.symm.trans additional')
  obtain rfl := Except.ok.inj ((toOption_eq_some.1 resolved).symm.trans resolved')
  exact exact.2 never

/-- Labels map to texts as a model, and to texts or null spelled out. -/
theorem Generator.version_mapValues_labels :
    scoreTree.keysDistinct = true ∧ ∃ manifest statistics document entry registered flattened slot,
      Generator.version ⟨.standard, true⟩ "1" scoreTree = .ok (manifest, statistics) ∧
      Document.read ⟨0⟩ scoreTree = .ok document ∧
      Entries.get? "Labels" manifest.models = some entry ∧ entry.kind = .object ∧
      (Generator.collect ⟨.standard, true⟩ document .empty).registry.get? "Labels" = some registered ∧
      (registered.schema.flatten document).result = .ok flattened ∧
      flattened.additional.bind AdditionalProperties.slot? = some slot ∧
      entry.additionalProperties.map TypeRef.write = some "text" ∧
      ((Mapper.slotType ⟨document, []⟩ (.owned (.mapOf registered.schema.info [] slot)) none).result
        |>.toOption.map TypeRef.write) = some "map<string, nullable<text>>" ∧
      ¬ ∃ type, entry.additionalProperties = some type ∧
        Mapper.SpellsValues ⟨document, []⟩ slot type := by
  obtain ⟨distinct, -, -, run, spelled⟩ := scoreTree_evaluates
  obtain ⟨⟨manifest, statistics⟩, found, run⟩ := Option.bind_eq_some_iff.1 run
  obtain ⟨entry, held, run⟩ := Option.map_eq_some_iff.1 run
  obtain ⟨kind, text⟩ := Prod.mk.inj run
  obtain ⟨document, read, spelled⟩ := Option.bind_eq_some_iff.1 spelled
  obtain ⟨registered, known, spelled⟩ := Option.bind_eq_some_iff.1 spelled
  obtain ⟨flattened, flat, spelled⟩ := Option.bind_eq_some_iff.1 spelled
  obtain ⟨slot, hs, spelled⟩ := Option.map_eq_some_iff.1 spelled
  refine ⟨distinct, manifest, statistics, document, entry, registered, flattened, slot,
    toOption_eq_some.1 found, toOption_eq_some.1 read, held, kind, known, toOption_eq_some.1 flat, hs,
    text, spelled, ?_⟩
  rintro ⟨type, additional, spells⟩
  rw [additional] at text
  have written : type.write = "text" := Option.some.inj text
  rw [spells registered.schema.info [] none] at spelled
  have map : "map<string, " ++ type.write ++ ">" = "map<string, nullable<text>>" :=
    Option.some.inj spelled
  rw [written] at map
  revert map
  decide

end OpenApiManifest
