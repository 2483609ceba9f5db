import OpenApiManifest.Proofs.Flattening.Expansion
import OpenApiManifest.Proofs.Trails

/-!
# Compositions in circles

Flattening ends also where compositions lead back to themselves (`Schema.flatten_ends`): its trail enters no
name twice, and a nameless member is smaller than the composition around it.  Passing over a name that is
being expanded loses no object: after the last time that a way comes to a composition it goes on through
its members, and these are expanded (`Schema.Expands.complete`).
-/

namespace OpenApiManifest

/-- A member of a composition resolves to a schema. -/
def Schema.Composed (document : Document) (schema member : Schema) : Prop :=
  ∃ members, schema.kind = .allOf members ∧
    ∃ slot ∈ members, (slot.resolve document).result = .ok member

section Ending

variable {document : Document} {schema member : Schema}

/-- A composition holds its members. -/
lemma Schema.Composed.holds (h : schema.Composed document member) : schema.Holds document member := by
  obtain ⟨members, hk, slot, hs, hm⟩ := h
  exact ⟨slot, by rwa [slots, hk], hm⟩

/-- Flattening that does not end leaves a trail of all its steps. -/
lemma Flattened.exists_trail {steps : Nat} {entered : List String} {owner : Option String}
    {merged : Flattened} (fresh : ∀ name ∈ schema.name?, name ∉ entered)
    (h : (merge document steps (schema.name?.toList ++ entered) owner schema merged).result =
      .error .outOfSteps) :
    ∃ path, path.length = steps ∧ Schema.Trail (Schema.Composed document) entered schema path := by
  induction steps generalizing entered owner schema merged with
  | zero => exact ⟨[], rfl, .nil⟩
  | succ steps ih =>
    rw [merge_succ] at h
    cases hk : schema.kind with
    | allOf members =>
      rw [hk] at h
      obtain ⟨before, -, slot, hs, h⟩ :=
        Run.exists_of_foldlM_error (fun _ => True) trivial (fun _ _ _ _ _ _ => trivial) h
      rcases Run.bind_result_eq_error.1 h with first | ⟨member, hm, -⟩
      · exact absurd first Slot.resolve_ne_outOfSteps
      rcases mergeSlot_of_resolve hm with ⟨name, -, -, passed⟩ | ⟨fresh', merges⟩
      · cases passed.symm.trans h
      · obtain ⟨path, rfl, trail⟩ := ih fresh' (merges.symm.trans h)
        refine ⟨schema :: path, rfl, trail.cons ⟨members, hk, slot, hs, hm⟩ fresh ?_ ?_⟩
        · exact List.subset_append_left _ _
        · exact List.subset_append_right _ _
    | _ =>
      rw [hk] at h
      cases h

/-- Flattening comes to an end. -/
theorem Schema.flatten_ends (coherent : document.Coherent) (contains : document.Contains (.owned schema)) :
    (schema.flatten document).result ≠ .error .outOfSteps := by
  intro h
  have merges : (Flattened.merge document (document.steps schema.size) (schema.name?.toList ++ [])
      schema.name? schema .empty).result = .error .outOfSteps := by rwa [List.append_nil]
  obtain ⟨path, long, trail⟩ := Flattened.exists_trail (fun _ _ => List.not_mem_nil) merges
  have short := trail.length_lt_steps coherent (fun _ _ step => .single step.holds) contains
    fun _ _ => coherent.not_onCircle fun _ _ step => step.holds
  exact Nat.ne_of_lt short long

end Ending

/-- A member of a composition resolves to a schema with none of some names. -/
def Schema.ComposedWithout (document : Document) (names : List String) (schema member : Schema) : Prop :=
  schema.Composed document member ∧ ∀ name ∈ member.name?, name ∉ names

/-- The object that a part was expanded from. -/
def Flattened.Part.Of (part : Part) (object : Schema) : Prop :=
  object.kind = .object part.properties part.required part.additional

section Completeness

variable {document : Document} {expanding names : List String} {owner : Option String}
  {schema object : Schema} {slots : List SchemaSlot} {parts : List Flattened.Part}

/-- What is composed in a schema of a document is in the document. -/
lemma Document.Contains.composed (contains : document.Contains (.owned schema))
    (h : Relation.ReflTransGen (Schema.Composed document) schema object) :
    document.Contains (.owned object) :=
  contains.leads (Relation.ReflTransGen.mono (fun _ _ step => step.holds) _ _ h)

/-- A way from a schema goes on from there without its name, after the last time that it comes to it. -/
lemma Document.Coherent.exists_exit (coherent : document.Coherent)
    (contains : document.Contains (.owned schema))
    (h : Relation.ReflTransGen (Schema.ComposedWithout document names) schema object) :
    object = schema ∨ ∃ member,
      schema.ComposedWithout document (schema.name?.toList ++ names) member ∧
      Relation.ReflTransGen (Schema.ComposedWithout document (schema.name?.toList ++ names)) member
        object := by
  induction h with
  | refl => exact .inl rfl
  | @tail before after way step ih =>
    by_cases same : ∃ name, schema.name? = some name ∧ after.name? = some name
    · obtain ⟨name, named, named'⟩ := same
      have there := contains.composed
        (Relation.ReflTransGen.mono (fun _ _ step => step.1) _ _ (way.tail step))
      exact .inl (coherent.eq_of_name there contains named' named)
    · have apart : before.ComposedWithout document (schema.name?.toList ++ names) after := by
        refine ⟨step.1, fun name hn mem => ?_⟩
        rcases List.mem_append.1 mem with own | other
        · exact same ⟨name, Option.mem_toList.1 own, hn⟩
        · exact step.2 name hn other
      rcases ih with rfl | ⟨member, first, way⟩
      · exact .inr ⟨after, apart, .refl⟩
      · exact .inr ⟨member, first, way.tail apart⟩

namespace Schema.Expands

/-- Members expand to objects to which they lead. -/
lemma sound (h : Expands document expanding owner slots parts) :
    ∀ part ∈ parts, ∃ slot ∈ slots, ∃ member, (slot.resolve document).result = .ok member ∧
      ∃ object, Relation.ReflTransGen (Composed document) member object ∧ part.Of object := by
  induction h with
  | nil => nofun
  | cut _ _ _ _ ih | other _ _ _ _ _ ih =>
    intro part hp
    obtain ⟨slot, hs, there⟩ := ih part hp
    exact ⟨slot, List.mem_cons_of_mem _ hs, there⟩
  | object hr _ hk _ ih =>
    intro part hp
    rcases List.mem_cons.1 hp with rfl | hp
    · exact ⟨_, List.mem_cons_self, _, hr, _, .refl, hk⟩
    · obtain ⟨slot, hs, there⟩ := ih part hp
      exact ⟨slot, List.mem_cons_of_mem _ hs, there⟩
  | allOf hr _ hk _ _ inner ih =>
    intro part hp
    rcases List.mem_append.1 hp with hp | hp
    · obtain ⟨slot, hs, member, hm, object, leads, of⟩ := inner part hp
      exact ⟨_, List.mem_cons_self, _, hr, object, .head ⟨_, hk, slot, hs, hm⟩ leads, of⟩
    · obtain ⟨slot, hs, there⟩ := ih part hp
      exact ⟨slot, List.mem_cons_of_mem _ hs, there⟩

/-- Members expand to all objects to which they lead without the names that are being expanded. -/
theorem complete (coherent : document.Coherent) (h : Expands document expanding owner slots parts)
    (contains : ∀ slot ∈ slots, document.Contains slot) :
    ∀ slot ∈ slots, ∀ member, (slot.resolve document).result = .ok member →
      (∀ name ∈ member.name?, name ∉ expanding) → ∀ object,
      Relation.ReflTransGen (ComposedWithout document expanding) member object →
      object.tag = .object → ∃ part ∈ parts, part.Of object := by
  -- By induction on the expansion: the way to the object leads through one of the positions that are left, or
  -- begins at the first one.
  induction h with
  | nil => nofun
  | @cut expanding _ _ _ _ _ name hr hn mem _ ih =>
    intro other ho member hm fresh object leads tag
    rcases List.mem_cons.1 ho with rfl | ho
    · obtain rfl := Except.ok.inj (hr.symm.trans hm)
      exact absurd mem (fresh name hn)
    · exact ih (List.forall_mem_cons.1 contains).2 other ho member hm fresh object leads tag
  | object hr _ hk _ ih =>
    intro other ho member hm fresh object leads tag
    rcases List.mem_cons.1 ho with rfl | ho
    · obtain rfl := Except.ok.inj (hr.symm.trans hm)
      rcases leads.cases_head with rfl | ⟨_, ⟨⟨_, hk', -⟩, -⟩, -⟩
      · exact ⟨_, List.mem_cons_self, hk⟩
      · cases hk.symm.trans hk'
    · obtain ⟨part, hp, of⟩ := ih (List.forall_mem_cons.1 contains).2 other ho member hm fresh object
        leads tag
      exact ⟨part, List.mem_cons_of_mem _ hp, of⟩
  | allOf hr _ hk _ _ inner ih =>
    intro other ho member hm fresh object leads tag
    rcases List.mem_cons.1 ho with rfl | ho
    · obtain rfl := Except.ok.inj (hr.symm.trans hm)
      have there := (contains _ List.mem_cons_self).resolve hr
      rcases coherent.exists_exit there leads with rfl | ⟨next, ⟨⟨_, hk', slot, hs, hn⟩, fresh'⟩, way⟩
      · rw [Schema.tag, hk] at tag
        cases tag
      · cases hk.symm.trans hk'
        have inside : ∀ slot ∈ _, document.Contains slot :=
          fun slot hs => .inside there (by rwa [Schema.slots, hk])
        obtain ⟨part, hp, of⟩ := inner inside slot hs next hn fresh' object way tag
        exact ⟨part, List.mem_append_left _ hp, of⟩
    · obtain ⟨part, hp, of⟩ := ih (List.forall_mem_cons.1 contains).2 other ho member hm fresh object
        leads tag
      exact ⟨part, List.mem_append_right _ hp, of⟩
  | other hr _ object allOf _ ih =>
    intro other ho member hm fresh found leads tag
    rcases List.mem_cons.1 ho with rfl | ho
    · obtain rfl := Except.ok.inj (hr.symm.trans hm)
      rcases leads.cases_head with rfl | ⟨_, ⟨⟨_, hk', -⟩, -⟩, -⟩
      · exact absurd tag object
      · exact absurd (by rw [Schema.tag, hk']) allOf
    · exact ih (List.forall_mem_cons.1 contains).2 other ho member hm fresh found leads tag

/-- A schema expands to objects to which compositions lead from it, and to all of them. -/
lemma leads_iff (coherent : document.Coherent) (contains : document.Contains (.owned schema))
    (h : Expands document [] none [.owned schema] parts) :
    (∀ part ∈ parts, ∃ object,
      Relation.ReflTransGen (Composed document) schema object ∧ part.Of object) ∧
    ∀ object, Relation.ReflTransGen (Composed document) schema object → object.tag = .object →
      ∃ part ∈ parts, part.Of object := by
  have itself : ((Slot.owned schema).resolve document).result = .ok schema := rfl
  constructor
  · intro part hp
    obtain ⟨slot, hs, member, hm, there⟩ := h.sound part hp
    obtain rfl := List.mem_singleton.1 hs
    cases hm
    exact there
  · intro object leads tag
    refine h.complete coherent (fun slot hs => ?_) _ List.mem_cons_self schema itself
      (fun _ _ => List.not_mem_nil) object ?_ tag
    · exact List.mem_singleton.1 hs ▸ contains
    · exact Relation.ReflTransGen.mono (fun _ _ step => ⟨step, fun _ _ => List.not_mem_nil⟩) _ _ leads

end Schema.Expands

end Completeness

namespace Flattened.SumsUp

variable {document : Document} {schema : Schema} {parts : List Part} {flattened : Flattened}
  {property : String}

/-- The sum of some parts has the properties of each of them. -/
lemma mem_keys_iff (h : flattened.SumsUp parts) :
    property ∈ flattened.properties.keys ↔ ∃ part ∈ parts, property ∈ part.properties.keys := by
  rw [h.keys, OrderedSet.mem_ofList]
  simp [Entries.keys, Part.declarations]

/-- The sum of some parts requires what each of them requires. -/
lemma mem_required_iff (h : flattened.SumsUp parts) :
    property ∈ flattened.required ↔ ∃ part ∈ parts, property ∈ part.required := by
  rw [h.required, OrderedSet.mem_ofList, List.mem_flatMap]

end Flattened.SumsUp

/-- Flattening a schema comes to an end.  If it succeeds, the schema expands to objects that are summed up,
and these are all the objects to which compositions lead as far as properties and required names go. -/
theorem Schema.flatten_sumsUp {id : DocumentId} {tree : Json} {document : Document}
    (read : Document.read id tree = .ok document) (distinct : tree.keysDistinct = true)
    {schema : Schema} (contains : document.Contains (.owned schema)) :
    (schema.flatten document).result ≠ .error .outOfSteps ∧
    ∀ flattened, (schema.flatten document).result = .ok flattened →
      (∃ parts, Expands document [] none [.owned schema] parts) ∧
      (∀ parts, Expands document [] none [.owned schema] parts → flattened.SumsUp parts) ∧
      (∀ property, property ∈ flattened.properties.keys ↔ ∃ object,
        Relation.ReflTransGen (Composed document) schema object ∧
          ∃ properties, object.properties? = some properties ∧ property ∈ properties.keys) ∧
      ∀ property, property ∈ flattened.required ↔ ∃ object,
        Relation.ReflTransGen (Composed document) schema object ∧ object.requires property = true := by
  have coherent := Document.coherent_of_read read distinct
  refine ⟨flatten_ends coherent contains, fun flattened h => ?_⟩
  obtain ⟨parts, expands, sums⟩ := exists_expands_of_flatten h
  obtain ⟨sound, complete⟩ := expands.leads_iff coherent contains
  refine ⟨⟨parts, expands⟩, fun others expands' => expands.unique expands' ▸ sums, fun property => ?_,
    fun property => ?_⟩
  · rw [sums.mem_keys_iff]
    constructor
    · rintro ⟨part, hp, mem⟩
      obtain ⟨object, leads, of⟩ := sound part hp
      exact ⟨object, leads, part.properties, by rw [properties?, of], mem⟩
    · rintro ⟨object, leads, properties, hp, mem⟩
      obtain ⟨part, hpart, of⟩ := complete object leads (tag_of_properties? hp)
      rw [properties?, of] at hp
      exact ⟨part, hpart, Option.some.inj hp ▸ mem⟩
  · rw [sums.mem_required_iff]
    constructor
    · rintro ⟨part, hp, mem⟩
      obtain ⟨object, leads, of⟩ := sound part hp
      exact ⟨object, leads, by rw [requires, of]; exact decide_eq_true mem⟩
    · rintro ⟨object, leads, mem⟩
      have tag : object.tag = .object := by
        unfold requires at mem
        split at mem
        · rename_i hk
          rw [Schema.tag, hk]
        · cases mem
      obtain ⟨part, hpart, of⟩ := complete object leads tag
      rw [requires, of] at mem
      exact ⟨part, hpart, of_decide_eq_true mem⟩

/-- A description of a composition of two compositions with a common member, one of which leads back. -/
def diamondTree : Json :=
  let ref (name : String) : Json := .obj [("$ref", .str ("#/components/schemas/" ++ name))]
  let text : Json := .obj [("type", .str "string")]
  .obj [
    ("openapi", .str "3.0.0"),
    ("info", .obj [("title", .str "Diamond"), ("version", .str "1")]),
    ("paths", .obj []),
    ("components", .obj [("schemas", .obj [
      ("Whole", .obj [("allOf", .arr [ref "Left", ref "Right",
        .obj [("properties", .obj [("own", text)])]])]),
      ("Left", .obj [("allOf", .arr [ref "Base", ref "Whole",
        .obj [("properties", .obj [("left", text)]), ("required", .arr [.str "left"])]])]),
      ("Right", .obj [("allOf", .arr [ref "Base",
        .obj [("properties", .obj [("id", .obj [("type", .str "integer")])]),
          ("additionalProperties", .bool true)]])]),
      ("Base", .obj [("properties", .obj [("id", text), ("state", text)]),
        ("required", .arr [.str "id"]), ("additionalProperties", .bool false)])])])]

/-- Both sides of the diamond declare the identifier, which belongs to the right one in the end. -/
theorem Schema.flatten_sumsUp_diamond :
    diamondTree.keysDistinct = true ∧ ∃ document schema flattened,
      Document.read ⟨0⟩ diamondTree = .ok document ∧
      document.schema? "Whole" = some (.owned schema) ∧
      (schema.flatten document).result = .ok flattened ∧
      flattened.properties.keys = ["id", "state", "left", "own"] ∧ flattened.required = ["id", "left"] ∧
      ["id", "state"].map flattened.declaring? = [some "Right", some "Base"] ∧
      (∃ parts, Expands document [] none [.owned schema] parts ∧ flattened.SumsUp parts) ∧
      ∀ property, property ∈ flattened.properties.keys ↔ ∃ object,
        Relation.ReflTransGen (Composed document) schema object ∧
          ∃ properties, object.properties? = some properties ∧ property ∈ properties.keys := by
  have distinct : diamondTree.keysDistinct = true := by decide +kernel
  have run : ((Document.read ⟨0⟩ diamondTree).toOption.bind fun document =>
      ((document.schema? "Whole").bind Slot.owned?).bind fun schema =>
        (schema.flatten document).result.toOption.map fun flattened =>
          (flattened.properties.keys, flattened.required,
            ["id", "state"].map flattened.declaring?)) =
      some (["id", "state", "left", "own"], ["id", "left"], [some "Right", some "Base"]) := by
    decide +kernel
  obtain ⟨document, found, run⟩ := Option.bind_eq_some_iff.1 run
  obtain ⟨schema, held, run⟩ := Option.bind_eq_some_iff.1 run
  obtain ⟨flattened, ok, run⟩ := Option.map_eq_some_iff.1 run
  have read := toOption_eq_some.1 found
  have ok := toOption_eq_some.1 ok
  obtain ⟨keys, run⟩ := Prod.mk.inj run
  obtain ⟨required, owners⟩ := Prod.mk.inj run
  obtain ⟨slot, hs, ho⟩ := Option.bind_eq_some_iff.1 held
  obtain rfl := Slot.owned?_eq_some_iff.1 ho
  obtain ⟨⟨parts, expands⟩, sums, all, -⟩ :=
    (flatten_sumsUp read distinct (Document.contains_of_schema? hs)).2 flattened ok
  exact ⟨distinct, document, schema, flattened, read, hs, ok, keys, required, owners,
    ⟨parts, expands, sums parts expands⟩, all⟩

end OpenApiManifest
