import OpenApiManifest.Proofs.Reading.Failures
import OpenApiManifest.Proofs.Reading.Pointers
import OpenApiManifest.Proofs.Walk.Sequences

/-!
# Where malformations stand

A walk reports one malformation only, a nameless enumeration without a name to take, and it reports it
where the enumeration stands (`WalkRoot.Of.exists_of_malformed`).  So every malformation that is
reported while a document is read or walked stands at a pointer that leads somewhere in its tree
(`Document.malformations_stand`).
-/

namespace OpenApiManifest

/-- A walk from a root of a document reports malformations where schemas of the document stand. -/
lemma WalkRoot.Of.exists_of_malformed [Spelling] {document : Document} {root : WalkRoot}
    (of : root.Of document) {options : WalkOptions} {registry : Registry} {pointer : String}
    {cause : Malformation}
    (failed : (root.walk document options registry).result =
      .error (.error (.malformed pointer cause))) :
    ∃ schema, document.Contains (.owned schema) ∧ pointer = schema.pointer := by
  rcases (of.fills options registry).2 _ failed with broken | ⟨call, reached, fails⟩
  · cases broken.dangles
  · cases fails with
    | plan planned =>
      rcases Call.plan_fails planned with dangles | ⟨schema, owner, rfl, e⟩
      · cases dangles
      · cases e
        have within := reached.within fun _ opens => opens.within fun _ => id
        exact ⟨schema, within.1, rfl⟩

/-- A malformation that is reported when a document is read, or by a walk from any root of a document
that is read, with any options and whatever is registered before it, stands at a pointer that leads to
a value of the tree. -/
theorem Document.malformations_stand [Spelling] {id : DocumentId} {tree : Json}
    (distinct : tree.keysDistinct = true) :
    (∀ pointer cause, Document.read id tree = .error (.malformed pointer cause) →
      Pointer.LeadsIn tree pointer) ∧
      ∀ document, Document.read id tree = .ok document →
        ∀ (root : WalkRoot) (options : WalkOptions) (registry : Registry), root.Of document →
          ∀ pointer cause, (root.walk document options registry).result =
              .error (.error (.malformed pointer cause)) →
            Pointer.LeadsIn tree pointer := by
  refine ⟨Document.read_blames distinct, ?_⟩
  intro document read root options registry of pointer cause failed
  obtain ⟨schema, contains, rfl⟩ := of.exists_of_malformed failed
  obtain ⟨path, at_, -⟩ := contains.at_path read distinct
  obtain ⟨fields, leads, -⟩ := at_.follow
  rw [at_.steps] at leads
  rw [at_.pointer]
  exact Pointer.leadsIn_ofSteps leads

attribute [local instance] Spelling.german

/-- A schema with a property that is no object, under a key that has to be escaped. -/
def brokenSchema : Json :=
  .obj [("properties", .obj [("~1/", .null)])]

/-- A schema with values that have no name to take. -/
def enumValuesSchema : Json :=
  .obj [("type", .str "object"), ("additionalProperties", .obj [("enum", .arr [.str "on"])])]

/-- The property and the values are reported where they stand. -/
theorem Document.malformations_stand_escaped :
    ((escapedNameTree brokenSchema).keysDistinct = true ∧
      Document.read ⟨0⟩ (escapedNameTree brokenSchema) =
        .error (.malformed "#/components/schemas/a~1b~0c/properties/~01~1"
          (.unexpected .object .null)) ∧
      Pointer.LeadsIn (escapedNameTree brokenSchema)
        "#/components/schemas/a~1b~0c/properties/~01~1") ∧
    (escapedNameTree enumValuesSchema).keysDistinct = true ∧
      ∃ document, Document.read ⟨0⟩ (escapedNameTree enumValuesSchema) = .ok document ∧
        (WalkRoot.components.walk document .everything .empty).result =
          .error (.error (.malformed "#/components/schemas/a~1b~0c/additionalProperties"
            (.namelessEnum "a/b~c"))) ∧
        Pointer.LeadsIn (escapedNameTree enumValuesSchema)
          "#/components/schemas/a~1b~0c/additionalProperties" := by
  have broken : (escapedNameTree brokenSchema).keysDistinct = true := by decide +kernel
  have distinct : (escapedNameTree enumValuesSchema).keysDistinct = true := by decide +kernel
  have unread : (match Document.read ⟨0⟩ (escapedNameTree brokenSchema) with
      | .error cause => some cause
      | .ok _ => none) = some (.malformed "#/components/schemas/a~1b~0c/properties/~01~1"
        (.unexpected .object .null)) := by decide +kernel
  have run : ((Document.read ⟨0⟩ (escapedNameTree enumValuesSchema)).toOption.map fun document =>
      (WalkRoot.components.walk document .everything .empty).result) =
        some (.error (.error (.malformed "#/components/schemas/a~1b~0c/additionalProperties"
          (.namelessEnum "a/b~c")))) := by decide +kernel
  constructor
  · split at unread
    · rename_i failed
      cases unread
      exact ⟨broken, failed, (malformations_stand broken).1 _ _ failed⟩
    · cases unread
  · obtain ⟨document, found, failed⟩ := Option.map_eq_some_iff.1 run
    have read := toOption_eq_some.1 found
    have here : WalkRoot.components.Of document := trivial
    exact ⟨distinct, document, read, failed,
      (malformations_stand distinct).2 document read _ _ _ here _ _ failed⟩

end OpenApiManifest
