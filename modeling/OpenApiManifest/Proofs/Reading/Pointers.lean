import OpenApiManifest.Proofs.Reading.Positions

/-!
# The pointers of schemas

The pointer of every schema of a document leads back to the object that the schema was read from, no
other schema of the document has it, and it tells whether the schema has a name
(`Document.pointers_identify`).
-/

namespace OpenApiManifest

/-- The paths at which names stand. -/
lemma nameAt_eq_some_iff {path : List String} {name : String} :
    nameAt path = some name ↔ path = ["components", "schemas", name] := by
  constructor
  · intro h
    unfold nameAt at h
    split at h
    · cases h
      rfl
    · cases h
  · rintro rfl
    rfl

/-- The pointers at which names stand. -/
lemma Pointer.ofSteps_of_name (name : String) :
    ofSteps ["components", "schemas", name] = "#/components/schemas/" ++ escape name := by
  have section_ : ofSteps ["components", "schemas"] ++ "/" = "#/components/schemas/" := by
    decide +kernel
  calc ofSteps (["components", "schemas"] ++ [name])
      = ofSteps ["components", "schemas"] ++ "/" ++ escape name := ofSteps_append_singleton _ _
    _ = "#/components/schemas/" ++ escape name := by rw [section_]

namespace SlotAt

variable {id : DocumentId} {tree : Json} {path : List String} {schema : Schema}

/-- The pointer of a schema is that of the path at which it stands. -/
lemma pointer (h : SlotAt id tree path (.owned schema)) : schema.pointer = Pointer.ofSteps path :=
  congrArg Place.pointer h.place

/-- The path of the pointer of a schema is the one at which it stands. -/
lemma steps (h : SlotAt id tree path (.owned schema)) : Pointer.steps schema.pointer = path := by
  rw [h.pointer, Pointer.steps_ofSteps]

/-- The pointer of a schema leads to the object that it was read from. -/
lemma follow (h : SlotAt id tree path (.owned schema)) :
    ∃ fields, Json.follow? tree (Pointer.steps schema.pointer) = some (.obj fields) ∧
      Schema.read id schema.name? (.obj fields) schema.pointer = .ok (.owned schema) := by
  obtain ⟨_, fields, at_, -⟩ := h.owned_inv
  obtain ⟨value, hv, hr⟩ := h.read
  obtain rfl : value = .obj fields.entries := Option.some.inj (hv ▸ at_.follow)
  rw [h.steps, h.name?, h.pointer]
  exact ⟨fields.entries, hv, hr⟩

/-- A schema has a name exactly if its pointer is that of the name. -/
lemma name?_eq_some_iff (h : SlotAt id tree path (.owned schema)) (name : String) :
    schema.name? = some name ↔ schema.pointer = "#/components/schemas/" ++ Pointer.escape name := by
  rw [h.name?, nameAt_eq_some_iff, h.pointer, ← Pointer.ofSteps_of_name]
  exact ⟨congrArg _, Pointer.ofSteps_injective⟩

end SlotAt

namespace Document

/-- What the components hold under a name is held at the path of the name. -/
lemma holdsAt_of_schema? {document : Document} {name : String} {slot : SchemaSlot}
    (h : document.schema? name = some slot) :
    document.HoldsAt ["components", "schemas", name] slot := by
  have entry : (["schemas", name], slot) ∈
      Sites.ofEntries "schemas" Sites.here document.components.schemas :=
    Sites.mem_ofEntries.2 ⟨name, slot, [], Entries.mem_of_get? h, Sites.mem_here.2 ⟨rfl, rfl⟩, rfl⟩
  have site : (["schemas", name], slot) ∈ document.components.sites :=
    List.mem_append_left _ (List.mem_append_left _ entry)
  exact .outer (List.mem_append_left _ (Sites.mem_under.2 ⟨_, site, rfl⟩))

/-- Every schema of a document is held at some path, and its pointer is faithful to the path: it leads
to the object of the tree that the schema was read from, no schema that is held elsewhere has it, and
exactly the pointers of names belong to schemas with a name. -/
theorem pointers_identify {id : DocumentId} {tree : Json} {document : Document}
    (read : Document.read id tree = .ok document) (distinct : tree.keysDistinct = true) :
    (∀ schema, document.Contains (.owned schema) ↔ ∃ path, document.HoldsAt path (.owned schema)) ∧
      ∀ path schema, document.HoldsAt path (.owned schema) →
        Pointer.steps schema.pointer = path ∧
        (∃ fields, Json.follow? tree (Pointer.steps schema.pointer) = some (.obj fields) ∧
          Schema.read id schema.name? (.obj fields) schema.pointer = .ok (.owned schema)) ∧
        (∀ path' other, document.HoldsAt path' (.owned other) → other.pointer = schema.pointer →
          path' = path ∧ other = schema) ∧
        ∀ name, schema.name? = some name ↔
          schema.pointer = "#/components/schemas/" ++ Pointer.escape name := by
  refine ⟨fun schema => contains_iff_holdsAt, fun path schema holds => ?_⟩
  have at_ := holds.slotAt read distinct
  refine ⟨at_.steps, at_.follow, ?_, at_.name?_eq_some_iff⟩
  intro path' other holds' same
  have at' := holds'.slotAt read distinct
  -- The pointer settles the path, and one slot at most stands there.
  have paths : path' = path := by rw [← at'.steps, ← at_.steps, same]
  subst paths
  exact ⟨rfl, Slot.owned.inj (at'.unique at_)⟩

/-- A description of one schema under a name that has to be escaped in a pointer. -/
def escapedNameTree (schema : Json) : Json :=
  .obj [
    ("openapi", .str "3.0.0"),
    ("info", .obj [("title", .str "Names"), ("version", .str "1")]),
    ("components", .obj [("schemas", .obj [("a/b~c", schema)])])]

/-- A description of a property whose name has to be escaped, too. -/
def escapedTree : Json :=
  escapedNameTree (.obj [("properties", .obj [("~1/", .obj [("type", .str "string")])])])

/-- The pointer of the property leads to it. -/
theorem pointers_identify_escaped :
    escapedTree.keysDistinct = true ∧ ∃ document, Document.read ⟨0⟩ escapedTree = .ok document ∧
      ∃ schema, document.HoldsAt ["components", "schemas", "a/b~c", "properties", "~1/"]
          (.owned schema) ∧
        schema.pointer = "#/components/schemas/a~1b~0c/properties/~01~1" ∧
        Pointer.steps schema.pointer = ["components", "schemas", "a/b~c", "properties", "~1/"] := by
  have distinct : escapedTree.keysDistinct = true := by decide +kernel
  have run : ((Document.read ⟨0⟩ escapedTree).toOption.bind fun document =>
      (document.schema? "a/b~c").bind fun slot => slot.owned?.bind fun schema =>
        schema.sites.head?.map fun site => (site.1, site.2.owned?.map Schema.pointer)) =
          some (["properties", "~1/"], some "#/components/schemas/a~1b~0c/properties/~01~1") := by
    decide +kernel
  obtain ⟨document, found, run⟩ := Option.bind_eq_some_iff.1 run
  obtain ⟨slot, named, run⟩ := Option.bind_eq_some_iff.1 run
  obtain ⟨outer, owned, run⟩ := Option.bind_eq_some_iff.1 run
  obtain ⟨⟨steps, inner⟩, site, run⟩ := Option.map_eq_some_iff.1 run
  obtain ⟨rfl, pointer⟩ := Prod.mk.inj run
  have read := toOption_eq_some.1 found
  cases slot with
  | ref reference => cases owned
  | owned own =>
    cases owned
    cases inner with
    | ref reference => cases pointer
    | owned schema =>
      have holds := HoldsAt.inside (holdsAt_of_schema? named) (List.mem_of_mem_head? site)
      obtain ⟨path, -, -, -⟩ := (pointers_identify read distinct).2 _ _ holds
      exact ⟨distinct, document, read, schema, holds, Option.some.inj pointer, path⟩

end Document

end OpenApiManifest
