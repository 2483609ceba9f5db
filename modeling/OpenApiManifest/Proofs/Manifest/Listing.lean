import OpenApiManifest.Proofs.Manifest.Growth
import OpenApiManifest.Proofs.Types.Listing

/-!
# Lists of arrays and manifests

The list of arrays that are models makes a difference for arrays, and, where a choice has members with names
that are no objects, for these.  Settings whose lists agree on both give the same manifest and the same
counts, or fail with the same error (`Generator.version_eq_of_listsAlike`).
-/

namespace OpenApiManifest

namespace Document.ListsAlike

variable {document : Document} {listed others : List String} {schema : Schema} {slot : SchemaSlot}
  (alike : document.ListsAlike listed others)
include alike

section Choices

/-- A member of a choice contributes the same name under lists that are alike. -/
lemma contribution_eq (contains : document.Contains (.owned schema)) (hk : schema.tag = .oneOf)
    (hs : slot ∈ schema.members) :
    ChoiceSearch.contribution document listed slot = ChoiceSearch.contribution document others slot := by
  refine Run.bind_congr fun member hm => ?_
  by_cases object : member.type?.getD .object = .object
  · simp [object]
  · cases hn : member.name? with
    | none => rfl
    | some name =>
      have same := alike.member schema slot member name contains hk hs hm hn object
      simp [object, same]

/-- The members of a choice are added in the same way under lists that are alike. -/
lemma addMembers_eq (contains : document.Contains (.owned schema)) (search : ChoiceSearch) :
    ChoiceSearch.addMembers document listed schema search =
      ChoiceSearch.addMembers document others schema search := by
  unfold ChoiceSearch.addMembers
  split
  · rename_i members hk
    have tag : schema.tag = .oneOf := by rw [Schema.tag, hk]
    refine Run.foldlM_congr fun search slot hs => ?_
    rw [alike.contribution_eq contains tag (by rwa [Schema.members, hk])]
  · rfl

/-- A schema is entered in the same way under lists that are alike. -/
lemma enter_eq (steps : Nat) (contains : document.Contains (.owned schema)) (search : ChoiceSearch) :
    ChoiceSearch.enter document listed steps schema search =
      ChoiceSearch.enter document others steps schema search := by
  induction steps generalizing schema search with
  | zero => rfl
  | succ steps ih =>
    rw [ChoiceSearch.enter_succ, ChoiceSearch.enter_succ, alike.addMembers_eq contains]
    split
    · rfl
    · refine congrArg _ (funext fun search => Run.foldlM_congr fun search slot hs => ?_)
      have there : document.Contains slot := .inside contains (Schema.mem_slots_of_property? hs)
      refine Run.bind_congr fun property hp => ?_
      rw [ih (there.resolve hp)]
      refine congrArg _ (funext fun search => Run.foldlM_congr fun search inner hi => ?_)
      have inside := document.contains_inner slot property there hp inner (Schema.mem_slots_of_contents hi)
      exact Run.bind_congr fun content hc => ih (inside.resolve hc) search

/-- The members of the choices inside a schema are the same under lists that are alike. -/
lemma choiceMembers_eq (contains : document.Contains (.owned schema)) (name : String) :
    schema.choiceMembers document listed name = schema.choiceMembers document others name :=
  congrArg (· >>= _) (alike.enter_eq _ contains _)

end Choices

variable [Spelling]

variable (coherent : document.Coherent) {version : String} {reserved : ReservedWords}
include coherent

/-- A property at a position of the document is described in the same way under lists that are alike. -/
lemma property_eq {entry : String × SchemaSlot} (contains : document.Contains entry.2) (name : String)
    (flattened : Flattened) :
    Builder.property ⟨version, ⟨document, listed⟩, reserved⟩ name flattened entry =
      Builder.property ⟨version, ⟨document, others⟩, reserved⟩ name flattened entry :=
  congrArg (· >>= _) (alike.slotType_eq coherent contains _)

section Models

variable (contains : document.Contains (.owned schema))
include contains

/-- The properties of a schema are described in the same way under lists that are alike. -/
lemma properties_eq (name : String) :
    Builder.properties ⟨version, ⟨document, listed⟩, reserved⟩ name schema =
      Builder.properties ⟨version, ⟨document, others⟩, reserved⟩ name schema := by
  have inside : ∀ slot ∈ schema.slots, document.Contains slot := fun _ mem => .inside contains mem
  unfold Builder.properties
  split
  · refine Run.bind_congr fun flattened hf => ?_
    have described :
        flattened.properties.mapM
            (Builder.property ⟨version, ⟨document, listed⟩, reserved⟩ name flattened) =
          flattened.properties.mapM
            (Builder.property ⟨version, ⟨document, others⟩, reserved⟩ name flattened) :=
      Run.mapM_congr fun entry he => alike.property_eq coherent
        (Flattened.safe_of_property document.contains_inner inside hf he) name flattened
    refine (congrArg (· >>= _) described).trans (congrArg _ (funext fun described => ?_))
    split
    · rename_i slot hs
      rw [alike.slotType_eq coherent
        (Flattened.safe_of_additional document.contains_inner inside hf hs)]
    · rfl
  · rfl

/-- A schema of the document is described in the same way under lists that are alike. -/
lemma model_eq (name : String) (origin : Origin) :
    Builder.model ⟨version, ⟨document, listed⟩, reserved⟩ name ⟨schema, origin⟩ =
      Builder.model ⟨version, ⟨document, others⟩, reserved⟩ name ⟨schema, origin⟩ := by
  have members : (if schema.tag = .oneOf then Mapper.unionMembers ⟨document, listed⟩ schema else pure []) =
      if schema.tag = .oneOf then Mapper.unionMembers ⟨document, others⟩ schema else pure [] := by
    split
    · rename_i tag
      exact alike.unionMembers_eq coherent contains tag
    · rfl
  rw [Builder.model_eq, Builder.model_eq]
  dsimp only [Builder.document]
  rw [alike.properties_eq coherent contains, members, alike.unionParameters_eq coherent contains,
    alike.modelType_eq coherent contains, alike.references_eq coherent contains,
    alike.choiceMembers_eq contains]

end Models

section Operations

variable {known : Found → Prop} {safe : SchemaSlot → Prop} (closed : document.Closed known safe)
  (within : ∀ slot, safe slot → document.Contains slot)

/-- A parameter is described in the same way under lists that are alike. -/
lemma parameter_eq {parameter : EffectiveParameter} (contains : document.Contains parameter.schema) :
    Builder.parameter ⟨version, ⟨document, listed⟩, reserved⟩ parameter =
      Builder.parameter ⟨version, ⟨document, others⟩, reserved⟩ parameter := by
  refine Run.bind_congr fun schema _ => ?_
  exact congrArg (· >>= _) (alike.slotType_eq coherent contains none)

include closed within

/-- An operation at safe positions is described in the same way under lists that are alike. -/
lemma operation_eq {entry : OperationEntry} (h : entry.Safe document known safe) :
    Builder.operation ⟨version, ⟨document, listed⟩, reserved⟩ entry =
      Builder.operation ⟨version, ⟨document, others⟩, reserved⟩ entry := by
  refine Run.bind_congr fun warnings _ => Run.bind_congr fun effective he => ?_
  have described :
      effective.mapM (Builder.parameter ⟨version, ⟨document, listed⟩, reserved⟩) =
        effective.mapM (Builder.parameter ⟨version, ⟨document, others⟩, reserved⟩) := by
    have safe := (OperationEntry.effectiveParameters_faultless closed h).2 effective he
    exact Run.mapM_congr fun parameter hp =>
      alike.parameter_eq coherent (within _ (safe parameter hp))
  refine (congrArg (· >>= _) described).trans (congrArg _ (funext fun parameters => ?_))
  refine Run.bind_congr fun accept _ => Run.bind_congr fun slot? hr => ?_
  cases slot? with
  | none => rfl
  | some slot =>
    have there := within slot ((Operation.returned_faultless h.operation).2 slot hr)
    exact congrArg (fun type => some <$> type >>= _) (alike.slotType_eq coherent there none)

/-- A group of operations at safe positions is described in the same way under lists that are alike. -/
lemma api_eq {group : Option String} {entries : List OperationEntry}
    (h : ∀ entry ∈ entries, entry.Safe document known safe) :
    Builder.api ⟨version, ⟨document, listed⟩, reserved⟩ group entries =
      Builder.api ⟨version, ⟨document, others⟩, reserved⟩ group entries :=
  congrArg (· >>= _) (Run.mapM_congr fun entry he =>
    alike.operation_eq coherent closed within (h entry he))

/-- All groups of operations are described in the same way under lists that are alike, if the paths are safe.
-/
lemma apis_eq (h : ∀ item ∈ document.paths.values, item.Safe document known safe) (statistics : Statistics) :
    Builder.apis ⟨version, ⟨document, listed⟩, reserved⟩ statistics =
      Builder.apis ⟨version, ⟨document, others⟩, reserved⟩ statistics := by
  refine Run.foldlM_congr fun before grouped hg => ?_
  obtain ⟨group, entries⟩ := grouped
  dsimp only
  rw [alike.api_eq coherent closed within fun entry he =>
    Document.operations_safe h entry (Document.mem_operations_of_group hg he)]

end Operations

/-- The models of a document are described in the same way under lists that are alike. -/
lemma models_eq {registry : Registry} (proper : registry.Proper document) (statistics : Statistics) :
    Builder.models ⟨version, ⟨document, listed⟩, reserved⟩ registry statistics =
      Builder.models ⟨version, ⟨document, others⟩, reserved⟩ registry statistics := by
  refine Run.foldlM_congr fun before entry he => ?_
  obtain ⟨name, schema, origin⟩ := entry
  dsimp only
  rw [alike.model_eq coherent (proper.models name ⟨schema, origin⟩ he).contains]

/-- The same models of a registry that a walk has filled are emitted under lists that are alike. -/
lemma emitted_eq {first : Call → Prop} {registry : Registry}
    (walked : registry.Walked document .everything first) :
    registry.emitted listed = registry.emitted others := by
  refine congrArg Registry.mk (List.filter_congr fun entry he => ?_)
  obtain ⟨name, schema, origin⟩ := entry
  have held := walked.proper.get?_eq_some_iff.2 he
  have proper := walked.proper.models name ⟨schema, origin⟩ he
  cases origin with
  | component =>
    exact alike.isEmitted_eq fun _ => (coherent.name?_eq_some_iff proper.contains).1 proper.name?
  | synthetic =>
    -- A nameless schema is no array if it is registered.
    obtain ⟨call, -, registers⟩ := walked.entered held
    have wants := registers.eq_nameless.1
    exact (Schema.isEmitted_of_wantsName wants).trans (Schema.isEmitted_of_wantsName wants).symm

/-- A manifest is built in the same way under lists that are alike, once its models are collected. -/
lemma build_eq {generator : Generator} (collected : (generator.collect document .empty).result = .ok ())
    (cycles : List (List String)) :
    Builder.build ⟨version, ⟨document, listed⟩, reserved⟩
        ((generator.collect document .empty).registry.emitted listed) cycles =
      Builder.build ⟨version, ⟨document, others⟩, reserved⟩
        ((generator.collect document .empty).registry.emitted others) cycles := by
  obtain ⟨first, walked, start, closed, paths⟩ := Generator.exists_walked coherent collected
  have within : ∀ slot, document.Visited first slot → document.Contains slot := fun _ h => h.contains start
  have proper : ((generator.collect document .empty).registry.emitted others).Proper document :=
    ⟨fun name model hm => walked.proper.models name model (List.mem_filter.1 hm).1,
      walked.proper.distinct.sublist (List.filter_sublist.map _)⟩
  rw [alike.emitted_eq coherent walked]
  unfold Builder.build
  rw [alike.apis_eq coherent closed within paths]
  refine congrArg _ (funext fun described => ?_)
  dsimp only
  rw [alike.models_eq coherent proper]
  rfl

end Document.ListsAlike

/-- Settings with the same reserved words, whose lists for a version agree on the arrays of a document and on
those named members of its choices that are no objects, give the version the same manifest and the same
counts, or fail with the same error. -/
theorem Generator.version_eq_of_listsAlike [Spelling] {settings other : Settings} {all : Bool}
    {name : String} {tree : Json} (distinct : tree.keysDistinct = true)
    (reserved : settings.reserved = other.reserved)
    (alike : ∀ document, Document.read ⟨0⟩ tree = .ok document →
      document.ListsAlike (settings.listModelsOf name) (other.listModelsOf name)) :
    Generator.version ⟨settings, all⟩ name tree = Generator.version ⟨other, all⟩ name tree := by
  unfold Generator.version
  refine bind_congr_of_ok fun document read => bind_congr_of_ok fun _ collected => ?_
  have read : Document.read ⟨0⟩ tree = .ok document := by
    cases found : Document.read ⟨0⟩ tree with
    | error cause =>
      rw [found] at read
      cases read
    | ok own =>
      rw [found] at read
      cases read
      rfl
  dsimp only
  rw [reserved]
  exact congrArg Run.result
    ((alike document read).build_eq (Document.coherent_of_read read distinct) collected _)

attribute [local instance] Spelling.german

/-- A description of pets, which are cats, lists of names, or chips: objects, arrays or texts. -/
def petTree : Json :=
  let ref (name : String) : Json := .obj [("$ref", .str ("#/components/schemas/" ++ name))]
  let text : Json := .obj [("type", .str "string")]
  .obj [
    ("openapi", .str "3.0.0"),
    ("info", .obj [("title", .str "Pets"), ("version", .str "1")]),
    ("paths", .obj []),
    ("components", .obj [("schemas", .obj [
      ("Pet", .obj [("oneOf", .arr [ref "Cat", ref "Names", ref "Chip"])]),
      ("Cat", .obj [("type", .str "object"), ("properties", .obj [("name", text)])]),
      ("Names", .obj [("type", .str "array"), ("items", text)]),
      ("Chip", text)])])]

/-- The settings that list some arrays for a version. -/
def Settings.listing (names : List String) : Settings :=
  ⟨[("1", names)], none⟩

/-- The schemas of cats and chips, and the members of pets under some settings. -/
lemma petTree_evaluates :
    petTree.keysDistinct = true ∧
      ((Document.read ⟨0⟩ petTree).toOption.bind fun document =>
        (document.schema? "Cat").map fun slot =>
          (slot.resolve document).result.toOption.map fun schema => (schema.tag, schema.type?)) =
          some (some (.object, some .object)) ∧
      ((Generator.version ⟨.listing ["Names", "Cat"], true⟩ "1" petTree).toOption.bind fun version =>
        (Entries.get? "Pet" version.1.models).map fun pet => pet.oneOf.map TypeRef.write) =
          some ["Cat", "Names", "text"] ∧
      ((Document.read ⟨0⟩ petTree).toOption.bind fun document =>
        (document.schema? "Chip").bind fun slot =>
          (slot.resolve document).result.toOption.map Schema.tag) = some .primitive ∧
      ((Generator.version ⟨.listing ["Chip"], true⟩ "1" petTree).toOption.bind fun version =>
        (Entries.get? "Pet" version.1.models).map fun pet => pet.oneOf.map TypeRef.write) =
          some ["Cat", "list<text>", "Chip"] ∧
      ((Generator.version ⟨.listing [], true⟩ "1" petTree).toOption.bind fun version =>
        (Entries.get? "Pet" version.1.models).map fun pet => pet.oneOf.map TypeRef.write) =
          some ["Cat", "list<text>", "text"] := by
  -- One evaluation for all the facts: the kernel then reads the description once.
  decide +kernel

/-- Listing cats beside lists of names makes no difference. -/
theorem Generator.version_eq_of_listsAlike_cat :
    petTree.keysDistinct = true ∧
      (Settings.listing ["Names", "Cat"]).reserved = (Settings.listing ["Names"]).reserved ∧
      (∀ document, Document.read ⟨0⟩ petTree = .ok document →
        document.ListsAlike ((Settings.listing ["Names", "Cat"]).listModelsOf "1")
          ((Settings.listing ["Names"]).listModelsOf "1")) ∧
      Generator.version ⟨.listing ["Names", "Cat"], true⟩ "1" petTree =
        Generator.version ⟨.listing ["Names"], true⟩ "1" petTree ∧
      ((Generator.version ⟨.listing ["Names", "Cat"], true⟩ "1" petTree).toOption.bind fun version =>
        (Entries.get? "Pet" version.1.models).map fun pet => pet.oneOf.map TypeRef.write) =
          some ["Cat", "Names", "text"] := by
  obtain ⟨distinct, cat, pet, -⟩ := petTree_evaluates
  have alike : ∀ document, Document.read ⟨0⟩ petTree = .ok document →
      document.ListsAlike ((Settings.listing ["Names", "Cat"]).listModelsOf "1")
        ((Settings.listing ["Names"]).listModelsOf "1") := by
    intro document read
    rw [read] at cat
    refine .of_objects (Document.coherent_of_read read distinct) fun name => ?_
    by_cases same : name = "Cat"
    · subst same
      refine .inr fun schema held => ?_
      obtain ⟨tag, type⟩ : schema.tag = .object ∧ schema.type? = some .object := by
        simpa [Except.toOption, held, Slot.resolve_owned] using cat
      simp [tag, type]
    · refine .inl ?_
      have listed : (Settings.listing ["Names", "Cat"]).listModelsOf "1" = ["Names", "Cat"] := by decide
      have others : (Settings.listing ["Names"]).listModelsOf "1" = ["Names"] := by decide
      simp [listed, others, same]
  exact ⟨distinct, rfl, alike, version_eq_of_listsAlike distinct rfl alike, pet⟩

/-- Listing chips, which are texts, makes them models as members of pets. -/
theorem Generator.version_listed_chip :
    petTree.keysDistinct = true ∧
      ((Document.read ⟨0⟩ petTree).toOption.bind fun document =>
        (document.schema? "Chip").bind fun slot =>
          (slot.resolve document).result.toOption.map Schema.tag) = some .primitive ∧
      (∀ name, name ≠ "Chip" → (name ∈ (Settings.listing ["Chip"]).listModelsOf "1" ↔
        name ∈ (Settings.listing []).listModelsOf "1")) ∧
      ((Generator.version ⟨.listing ["Chip"], true⟩ "1" petTree).toOption.bind fun version =>
        (Entries.get? "Pet" version.1.models).map fun pet => pet.oneOf.map TypeRef.write) =
          some ["Cat", "list<text>", "Chip"] ∧
      ((Generator.version ⟨.listing [], true⟩ "1" petTree).toOption.bind fun version =>
        (Entries.get? "Pet" version.1.models).map fun pet => pet.oneOf.map TypeRef.write) =
          some ["Cat", "list<text>", "text"] ∧
      Generator.version ⟨.listing ["Chip"], true⟩ "1" petTree ≠
        Generator.version ⟨.listing [], true⟩ "1" petTree := by
  obtain ⟨distinct, -, -, text, listed, plain⟩ := petTree_evaluates
  refine ⟨distinct, text, fun name other => ?_, listed, plain, fun same => ?_⟩
  · have chip : (Settings.listing ["Chip"]).listModelsOf "1" = ["Chip"] := by decide
    have none : (Settings.listing []).listModelsOf "1" = [] := by decide
    simp [chip, none, other]
  · rw [same, plain] at listed
    revert listed
    decide

end OpenApiManifest
