import Mathlib.Tactic.Ring
import OpenApiManifest.Proofs.Types.Ending
import OpenApiManifest.Proofs.Walk.Ending

/-!
# Where types lead in circles

Only a named array that is not listed can be made of itself, over nameless schemas and other such arrays
(`Mapper.Circular`).  In a document without one every type is computed, or an error found, and that within
the steps that are given for its schema; more steps change nothing (`Mapper.types_end`).
-/

namespace OpenApiManifest

/-- A type may be made of that of another schema: of the items of an array, of the values beside the
properties of an object, of the only member of a composition, or of the members of a choice. -/
inductive Schema.Unfolds (document : Document) : Schema → Schema → Prop
  | items {schema inner : Schema} {slot : SchemaSlot} : schema.items? = some slot →
    (slot.resolve document).result = .ok inner → Unfolds document schema inner
  | values {schema inner : Schema} {slot : SchemaSlot} : schema.additional? = some slot →
    (slot.resolve document).result = .ok inner → Unfolds document schema inner
  | only {schema inner : Schema} {slot : SchemaSlot} : schema.onlyMember? = some slot →
    (slot.resolve document).result = .ok inner → Unfolds document schema inner
  | member {schema inner : Schema} {slot : SchemaSlot} : schema.tag = .oneOf → slot ∈ schema.members →
    (slot.resolve document).result = .ok inner → Unfolds document schema inner

namespace Run

variable {α : Type}

/-- Work comes to a value or an error within so many steps, and more steps come to the same. -/
structure Settles (run : Nat → Run α) (enough : Nat) : Prop where
  ends : (run enough).result ≠ .error .outOfSteps
  stays : ∀ steps, enough ≤ steps → (run steps).result = (run enough).result

/-- Work that every step more lasts for settles as soon as it ends. -/
lemma Settles.of_lasts {run : Nat → Run α} {enough : Nat}
    (lasts : ∀ steps, (run steps).Lasts (run (steps + 1)))
    (ends : (run enough).result ≠ .error .outOfSteps) : Settles run enough where
  ends := ends
  stays steps le := by
    have last : (run enough).Lasts (run steps) := by
      induction le with
      | refl => exact .refl _
      | step _ ih => exact ih.trans (lasts _)
    exact last ends

end Run

namespace Mapper

variable {mapper : Mapper} {steps : Nat} {schema inside : Schema} {slot : SchemaSlot}
  {candidate : Option String}

/-- A schema that a type may go through: it is nameless, or a named array that is not listed. -/
def Inlines (mapper : Mapper) (schema : Schema) : Prop :=
  ∀ name, schema.name? = some name → schema.tag = .array ∧ name ∉ mapper.listModels

/-- A named array that is not listed and leads back to itself, over schemas that types go through only.
Each schema on the way is one that the way goes on from. -/
structure Circular (mapper : Mapper) (array : Schema) : Prop where
  listed : ∃ name, array.name? = some name ∧ name ∉ mapper.listModels
  tag : array.tag = .array
  leads : Relation.TransGen (fun schema inner => mapper.Inlines schema ∧ schema.Unfolds mapper.document inner)
    array array

/-- A type may go through a nameless schema. -/
lemma inlines_of_nameless (nameless : schema.name? = none) : mapper.Inlines schema := by
  intro name named
  rw [nameless] at named
  cases named

/-- The type of a schema goes on from it only if it is not emitted, and to what it unfolds to. -/
lemma Passes.unfolds {start next : Schema × Option String} (step : mapper.Passes start next) :
    mapper.Inlines start.1 ∧ start.1.Unfolds mapper.document next.1 := by
  cases step with
  | only hf hr =>
    obtain ⟨emitted, hk⟩ := form_eq_only hf
    have nameless := name?_eq_none_of_not_emitted emitted fun name => by simp [Schema.isEmitted, hk]
    refine ⟨inlines_of_nameless nameless, .only ?_ hr⟩
    rw [Schema.onlyMember?, hk]
  | @items schema _ _ _ _ hf hr =>
    obtain ⟨⟨least, most, hk⟩, -⟩ := form_eq_list hf
    have emitted := (form_eq_spelled hf (fun _ _ e => by cases e) fun _ e => by cases e).1
    refine ⟨fun name named => ⟨?_, ?_⟩, .items ?_ hr⟩
    · rw [Schema.tag, hk]
    · rw [Mapper.emits, named] at emitted
      simpa [Schema.isEmitted, hk] using emitted
    · rw [Schema.items?, hk]
  | values hf hr =>
    obtain ⟨nameless, -, properties, required, additional, hk, hv⟩ := form_eq_map hf
    refine ⟨inlines_of_nameless nameless, .values ?_ hr⟩
    rw [Schema.additional?, hk]
    exact hv
  | member hf hs hr _ =>
    obtain ⟨nameless, -, hk⟩ := form_eq_union hf
    refine ⟨inlines_of_nameless nameless, .member ?_ ?_ hr⟩
    · rw [Schema.tag, hk]
    · rwa [Schema.members, hk]

/-- A schema with a name whose type is made of itself is an array that is not listed. -/
lemma Circle.circular (circle : mapper.Circle schema) : mapper.Circular schema := by
  obtain ⟨named, candidate, other, leads⟩ := circle
  obtain ⟨name, named⟩ := Option.isSome_iff_exists.1 named
  obtain ⟨_, first, -⟩ := Relation.TransGen.head'_iff.1 leads
  obtain ⟨tag, unlisted⟩ := first.unfolds.1 name named
  refine ⟨⟨name, named, unlisted⟩, tag, ?_⟩
  exact Relation.TransGen.lift Prod.fst (fun _ _ step => step.unfolds) _ _ leads

section Bound

/-- A number that no path through the components of a document reaches. -/
def span (mapper : Mapper) : Nat :=
  (mapper.document.components.schemas.length + 2)
    * (2 * Schema.propertiesSize mapper.document.components.schemas + 1)

/-- The steps for a schema suffice for a path into it and through the components. -/
lemma span_lt_steps (mapper : Mapper) (size : Nat) : 2 * (size + mapper.span) + 1 < mapper.steps size := by
  rw [span, steps, Document.steps]
  generalize mapper.document.components.schemas.length = count
  generalize Schema.propertiesSize mapper.document.components.schemas = shared
  have split : 4 * (count + 2) * (size + shared + 2) =
      2 * ((count + 2) * (2 * shared + 1)) + 4 * (count + 2) * size + 6 * (count + 2) := by ring
  have more : 2 * size ≤ 4 * (count + 2) * size := Nat.mul_le_mul_right _ (by omega)
  rw [split]
  omega

variable (coherent : mapper.document.Coherent)
  (free : ∀ array, mapper.document.Contains (.owned array) → ¬ mapper.Circular array)
include coherent free

/-- A path from a schema of the document is short, where no array is circular. -/
lemma length_lt_of_contains {path : List (Schema × Option String)}
    (chain : ((schema, candidate) :: path).IsChain mapper.Passes)
    (contains : mapper.document.Contains (.owned schema)) :
    path.length + 1 < (mapper.document.components.schemas.length + 2)
      * (schema.size + Schema.propertiesSize mapper.document.components.schemas + 1) := by
  have trail := trail_of_isChain coherent contains chain fun inside inner leads circle => by
    have there : Relation.ReflTransGen (Schema.Holds mapper.document) schema inside :=
      Relation.ReflTransGen.lift Prod.fst (fun _ _ step => step.holds) _ _ leads
    exact free inside (contains.leads there) circle.circular
  have short := trail.length_lt coherent (fun _ _ step => .single step) contains
    fun _ _ => coherent.not_onCircle fun _ _ step => step
  rwa [List.length_map, List.length_cons] at short

/-- A path from what a position holds is short: it goes down into a schema, and then through the
components. -/
lemma length_le_of_resolve {path : List (Schema × Option String)}
    (resolves : (slot.resolve mapper.document).result = .ok schema)
    (chain : ((schema, candidate) :: path).IsChain mapper.Passes) :
    path.length + 1 ≤ Schema.slotSize slot + mapper.span := by
  induction path generalizing slot schema candidate with
  | nil =>
    have pos : 0 < Schema.slotSize slot := by
      cases slot with
      | owned own => exact own.size_pos
      | ref reference => exact Nat.one_pos
    rw [List.length_nil]
    omega
  | cons next rest ih =>
    obtain ⟨step, chain'⟩ := List.isChain_cons_cons.1 chain
    -- The path goes on inside the schema that stands here, or it goes through a component, and all paths from there
    -- are short.
    cases slot with
    | owned own =>
      cases resolves
      obtain ⟨position, hp, hr⟩ := step.holds
      have shorter := ih hr chain'
      have smaller : Schema.slotSize position < schema.size := Schema.slotSize_lt_size hp
      rw [List.length_cons, Schema.slotSize]
      omega
    | ref reference =>
      obtain ⟨own, held⟩ := (Document.leads_of_resolve resolves).exists_schema?
      have short := length_lt_of_contains coherent free chain (Document.contains_of_schema? held)
      have small := Schema.slotSize_le_propertiesSize
        (List.mem_map.2 ⟨_, Entries.mem_of_get? held, rfl⟩)
      rw [Schema.slotSize] at small
      have within := Nat.mul_le_mul_left (mapper.document.components.schemas.length + 2)
        (by omega : schema.size + Schema.propertiesSize mapper.document.components.schemas + 1 ≤
          2 * Schema.propertiesSize mapper.document.components.schemas + 1)
      rw [span]
      omega

/-- The type of what a position holds is computed, or an error found, within so many steps. -/
lemma schemaType_ends_of_resolve (resolves : (slot.resolve mapper.document).result = .ok schema)
    (enough : 2 * (Schema.slotSize slot + mapper.span) < steps) :
    (mapper.schemaType steps schema candidate).result ≠ .error .outOfSteps := by
  intro e
  obtain ⟨path, chain, long⟩ := exists_path_of_outOfSteps e
  have short := length_le_of_resolve coherent free resolves chain
  omega

/-- The type of a value is computed, or an error found, within more steps than its size and the span. -/
lemma valueType_ends (enough : 2 * (Schema.slotSize slot + mapper.span) + 1 < steps) :
    (mapper.valueType steps slot candidate).result ≠ .error .outOfSteps := by
  intro e
  rcases valueType_outOfSteps e with rfl | ⟨fewer, rfl, inside, resolves, own⟩
  · omega
  · exact schemaType_ends_of_resolve coherent free resolves (by omega) own

/-- A member of a choice is described, or an error found, within more steps than its size and the span. -/
lemma unionMember_ends (enough : 2 * (Schema.slotSize slot + mapper.span) + 1 < steps) :
    (mapper.unionMember steps slot).result ≠ .error .outOfSteps := by
  intro e
  rcases unionMember_outOfSteps e with rfl | ⟨fewer, rfl, member, resolves, -, own⟩
  · omega
  · exact schemaType_ends_of_resolve coherent free resolves (by omega) own

end Bound

/-- What the items of a circular array are is a schema that types go through, too. -/
lemma Circular.exists_items {array : Schema} (circular : mapper.Circular array) :
    ∃ slot inner, array.items? = some slot ∧ (slot.resolve mapper.document).result = .ok inner ∧
      mapper.Inlines inner := by
  obtain ⟨inner, ⟨own, step⟩, rest⟩ := Relation.TransGen.head'_iff.1 circular.leads
  have through : mapper.Inlines inner := by
    rcases Relation.ReflTransGen.cases_head rest with rfl | ⟨_, ⟨through, -⟩, -⟩
    · exact own
    · exact through
  have tag := circular.tag
  cases step with
  | items hs hr => exact ⟨_, inner, hs, hr, through⟩
  | values hs hr =>
    unfold Schema.additional? at hs
    unfold Schema.tag at tag
    cases hk : array.kind <;> simp [hk] at hs tag
  | only hs hr =>
    unfold Schema.onlyMember? at hs
    unfold Schema.tag at tag
    cases hk : array.kind <;> simp [hk] at hs tag
  | member choice hs hr => cases tag.symm.trans choice

/-- In a document in which no array is circular the types at all positions are computed, or an error is
found: those of schemas, of values and of the members of a choice settle within the steps that are given
for their size. -/
theorem types_end {id : DocumentId} {tree : Json} (read : Document.read id tree = .ok mapper.document)
    (distinct : tree.keysDistinct = true)
    (free : ∀ array, mapper.document.Contains (.owned array) → ¬ mapper.Circular array) :
    (∀ slot candidate, (mapper.slotType slot candidate).result ≠ .error .outOfSteps) ∧
      (∀ schema candidate,
        Run.Settles (fun steps => mapper.schemaType steps schema candidate) (mapper.steps schema.size)) ∧
      (∀ slot candidate, Run.Settles (fun steps => mapper.valueType steps slot candidate)
        (mapper.steps (Schema.slotSize slot))) ∧
      (∀ slot, Run.Settles (fun steps => mapper.unionMember steps slot)
        (mapper.steps (Schema.slotSize slot))) ∧
      ∀ schema, (mapper.unionMembers schema).result ≠ .error .outOfSteps := by
  have coherent := Document.coherent_of_read read distinct
  -- A schema is what the position that owns it resolves to, so that the bound for positions is one for it.
  have schemas : ∀ schema candidate,
      (mapper.schemaType (mapper.steps schema.size) schema candidate).result ≠ .error .outOfSteps :=
    fun schema candidate => schemaType_ends_of_resolve coherent free Slot.resolve_owned
      (Nat.lt_of_succ_lt (mapper.span_lt_steps schema.size))
  refine ⟨fun slot candidate => ?_, fun schema candidate => ?_, fun slot candidate => ?_,
    fun slot => ?_, fun schema e => ?_⟩
  · exact Run.bind_ne_outOfSteps Slot.resolve_ne_outOfSteps fun schema _ => schemas schema candidate
  · exact .of_lasts (fun steps => (types_last mapper steps).1 schema candidate) (schemas schema candidate)
  · exact .of_lasts (fun steps => (types_last mapper steps).2.1 slot candidate)
      (valueType_ends coherent free (mapper.span_lt_steps _))
  · exact .of_lasts (fun steps => (types_last mapper steps).2.2 slot)
      (unionMember_ends coherent free (mapper.span_lt_steps _))
  · obtain ⟨slot, hs, own⟩ := Run.exists_of_mapM_error e
    have smaller := Schema.slotSize_lt_size (Schema.mem_slots_of_members hs)
    have enough := mapper.span_lt_steps schema.size
    exact unionMember_ends coherent free (by omega) own

/-- A description of trees, which are arrays of leaves and of maps to trees, and of words, which are an
array of texts. -/
def treeTree : Json :=
  let ref (name : String) : Json := .obj [("$ref", .str ("#/components/schemas/" ++ name))]
  let array (items : Json) : Json := .obj [("type", .str "array"), ("items", items)]
  let map (values : Json) : Json := .obj [("type", .str "object"), ("additionalProperties", values)]
  .obj [
    ("openapi", .str "3.0.0"),
    ("info", .obj [("title", .str "Trees"), ("version", .str "1")]),
    ("components", .obj [("schemas", .obj [
      ("Tree", array (.obj [("oneOf", .arr [ref "Words", map (ref "Tree")])])),
      ("Words", array (ref "Word")),
      ("Word", .obj [("type", .str "string")])])])]

/-- Where trees are listed no array is circular, and the type of the items of trees is computed. -/
theorem types_end_trees :
    treeTree.keysDistinct = true ∧ ∃ document, Document.read ⟨0⟩ treeTree = .ok document ∧
      (∀ array, document.Contains (.owned array) → ¬ Mapper.Circular ⟨document, ["Tree"]⟩ array) ∧
      ∃ tree slot, document.schema? "Tree" = some (.owned tree) ∧ tree.items? = some slot ∧
        (Mapper.slotType ⟨document, ["Tree"]⟩ slot none).result ≠ .error .outOfSteps ∧
        (Mapper.slotType ⟨document, ["Tree"]⟩ slot none).result.toOption.map TypeRef.write =
          some "union<list<text>, map<string, Tree>>" := by
  have distinct : treeTree.keysDistinct = true := by decide +kernel
  have run : ((Document.read ⟨0⟩ treeTree).toOption.map fun document =>
      (document.components.schemas.keys,
        ((document.schema? "Tree").bind Slot.owned?).bind fun tree => tree.items?.map fun slot =>
          (Mapper.slotType ⟨document, ["Tree"]⟩ slot none).result.toOption.map TypeRef.write)) =
        some (["Tree", "Words", "Word"], some (some "union<list<text>, map<string, Tree>>")) ∧
      ((Document.read ⟨0⟩ treeTree).toOption.map fun document =>
        (((document.schema? "Words").bind Slot.owned?).bind fun words => words.items?.bind fun slot =>
          (slot.resolve document).result.toOption.map fun word => (word.name?, word.tag),
        ((document.schema? "Word").bind Slot.owned?).map Schema.tag)) =
        some (some (some "Word", .primitive), some .primitive) := by decide +kernel
  obtain ⟨run, kinds⟩ := run
  obtain ⟨document, found, run⟩ := Option.map_eq_some_iff.1 run
  rw [found] at kinds
  obtain ⟨keys, types⟩ := Prod.mk.inj run
  obtain ⟨words, word⟩ := Prod.mk.inj (Option.some.inj kinds)
  have read := toOption_eq_some.1 found
  have coherent := Document.coherent_of_read read distinct
  have free : ∀ array, document.Contains (.owned array) →
      ¬ Mapper.Circular ⟨document, ["Tree"]⟩ array := by
    intro array contains circular
    obtain ⟨name, named, unlisted⟩ := circular.listed
    have held := (coherent.name?_eq_some_iff contains).1 named
    have key : name ∈ document.components.schemas.keys :=
      List.mem_map.2 ⟨_, Entries.mem_of_get? held, rfl⟩
    simp only [keys, List.mem_cons, List.not_mem_nil, or_false] at key
    rcases key with rfl | rfl | rfl
    · exact unlisted (List.mem_singleton_self _)
    · -- The items of words have a name and are no array.
      obtain ⟨slot, inner, items, resolved, through⟩ := circular.exists_items
      rw [held] at words
      simp only [Option.bind_some, Slot.owned?, items] at words
      obtain ⟨other, resolved', kind⟩ := Option.map_eq_some_iff.1 words
      obtain rfl := Except.ok.inj (resolved.symm.trans (toOption_eq_some.1 resolved'))
      obtain ⟨own, tag⟩ := Prod.mk.inj kind
      cases tag.symm.trans (through _ own).1
    · rw [held] at word
      cases (Option.some.inj word).symm.trans circular.tag
  obtain ⟨tree, stored, types⟩ := Option.bind_eq_some_iff.1 types
  obtain ⟨own, stored, owned⟩ := Option.bind_eq_some_iff.1 stored
  obtain rfl := Slot.owned?_eq_some_iff.1 owned
  obtain ⟨slot, items, written⟩ := Option.map_eq_some_iff.1 types
  obtain ⟨ends, -⟩ := @types_end ⟨document, ["Tree"]⟩ _ _ read distinct free
  exact ⟨distinct, document, read, free, tree, slot, stored, items, ends slot none, written⟩

end Mapper

end OpenApiManifest
