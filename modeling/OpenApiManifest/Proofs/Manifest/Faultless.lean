import OpenApiManifest.Generation
import OpenApiManifest.Proofs.Manifest.Choices
import OpenApiManifest.Proofs.Manifest.Grouping
import OpenApiManifest.Proofs.Types.Faultless
import OpenApiManifest.Proofs.Walk.Safety

/-!
# Manifests of safe documents

Where a walk has found everything safe, the manifest is built faultlessly: the parameters that calls
take, the members of the choices inside models, operations, and models.  So once the models of a
document are collected, building its manifest does not fail (`build_faultless`).
-/

namespace OpenApiManifest

section Operations

variable {document : Document} {known : Found → Prop} {safe : SchemaSlot → Prop}

namespace EffectiveParameter

/-- Parameters at safe positions. -/
def AllSafe (safe : SchemaSlot → Prop) (parameters : List EffectiveParameter) : Prop :=
  ∀ parameter ∈ parameters, safe parameter.schema

/-- Parameters that are safe are declared faultlessly. -/
lemma declared_faultless {slots : List (Slot Parameter)}
    (h : ∀ declared ∈ slots, Parameter.Safe document known safe declared) :
    (declared document slots).Faultless known := by
  refine .foldlM fun before slot hs => ?_
  obtain ⟨parameter, hp, -⟩ := h slot hs
  refine (Run.Faultless.of_gives hp).bind fun found _ => ?_
  split
  · exact .pure _
  · exact .pure _

/-- The parameters that safe ones declare stand at safe positions. -/
lemma allSafe_of_declared {slots : List (Slot Parameter)}
    (h : ∀ declared ∈ slots, Parameter.Safe document known safe declared)
    {parameters : List EffectiveParameter}
    (hr : (declared document slots).result = .ok parameters) : AllSafe safe parameters := by
  refine Run.foldlM_keeps (AllSafe safe) (fun _ hm => absurd hm List.not_mem_nil) ?_ hr
  intro before slot after hs allSafe step
  obtain ⟨parameter, hp, step⟩ := Run.bind_result_eq_ok.1 step
  obtain ⟨found, hf, inside⟩ := h slot hs
  obtain rfl : found = parameter := Except.ok.inj (hf.result.symm.trans hp)
  cases hs : found.schema with
  | none =>
    rw [hs] at step
    cases step
    exact allSafe
  | some position =>
    rw [hs] at step
    cases step
    intro other ho
    rcases List.mem_append.1 ho with ho | ho
    · exact allSafe other ho
    · cases List.mem_singleton.1 ho
      exact inside position (Option.mem_toList.2 hs)

/-- Overriding a parameter keeps the others. -/
lemma AllSafe.override {parameter : EffectiveParameter} {parameters : List EffectiveParameter}
    (h : AllSafe safe parameters) (own : safe parameter.schema) :
    AllSafe safe (parameter.override parameters) := by
  induction parameters with
  | nil =>
    intro other ho
    cases List.mem_singleton.1 ho
    exact own
  | cons first rest ih =>
    have others : AllSafe safe rest := fun other ho => h other (List.mem_cons_of_mem _ ho)
    intro other ho
    unfold EffectiveParameter.override at ho
    split at ho
    · rcases List.mem_cons.1 ho with rfl | ho
      · exact own
      · exact others other ho
    · rcases List.mem_cons.1 ho with rfl | ho
      · exact h other List.mem_cons_self
      · exact ih others other ho

variable (closed : document.Closed known safe)
include closed

/-- The parameters of a body with safe positions are found faultlessly. -/
lemma ofRequestBody_faultless {body : RequestBody}
    (h : ∀ slot ∈ MediaType.schemas body.content, safe slot) :
    (ofRequestBody document body).Faultless known := by
  unfold ofRequestBody
  split
  · rename_i form hf
    split
    · exact .pure _
    · rename_i slot hs
      have mem : slot ∈ MediaType.schemas body.content :=
        List.mem_filterMap.2 ⟨form, List.mem_map.2 ⟨_, Entries.mem_of_get? hf, rfl⟩, hs⟩
      refine closed.bind (h slot mem) fun schema inside => ?_
      refine (schema.flatten_faultless closed inside).bind fun flattened hf => .mapM fun entry he => ?_
      exact closed.bind (Flattened.safe_of_property closed.inside inside hf he) fun _ _ => .pure _
  · exact .pure _

/-- The parameters of a body with safe positions stand at safe positions: that of the body, or those of the
properties of a form. -/
lemma allSafe_of_ofRequestBody {body : RequestBody}
    (h : ∀ slot ∈ MediaType.schemas body.content, safe slot) {parameters : List EffectiveParameter}
    (hr : (ofRequestBody document body).result = .ok parameters) : AllSafe safe parameters := by
  unfold ofRequestBody at hr
  split at hr
  · rename_i form hf
    split at hr
    · cases hr
      exact fun _ hm => absurd hm List.not_mem_nil
    · rename_i slot hs
      have mem : slot ∈ MediaType.schemas body.content :=
        List.mem_filterMap.2 ⟨form, List.mem_map.2 ⟨_, Entries.mem_of_get? hf, rfl⟩, hs⟩
      obtain ⟨schema, hv, hr⟩ := Run.bind_result_eq_ok.1 hr
      obtain ⟨flattened, hf, hr⟩ := Run.bind_result_eq_ok.1 hr
      intro parameter hp
      obtain ⟨entry, he, hp⟩ := Run.exists_of_mem_mapM hr hp
      obtain ⟨property, -, hp⟩ := Run.bind_result_eq_ok.1 hp
      cases hp
      exact Flattened.safe_of_property closed.inside (closed.inside slot schema (h slot mem) hv) hf he
  · cases hr
    intro parameter hp
    obtain ⟨slot, hs, rfl⟩ := Option.map_eq_some_iff.1 (Option.mem_toList.1 hp)
    exact h slot (List.mem_of_head? hs)

/-- How the items of a parameter at a safe position are joined is found out faultlessly. -/
lemma collectionFormat_faultless {parameter : EffectiveParameter} (h : safe parameter.schema) :
    (parameter.collectionFormat document).Faultless known := by
  refine closed.bind h fun schema _ => ?_
  split
  · exact .pure _
  · exact .pure _

end EffectiveParameter

/-- An operation that is safe, and whose path has safe parameters. -/
structure OperationEntry.Safe (document : Document) (known : Found → Prop) (safe : SchemaSlot → Prop)
    (entry : OperationEntry) : Prop where
  path : ∀ declared ∈ entry.item.parameters, Parameter.Safe document known safe declared
  operation : entry.operation.Safe document known safe

/-- The operations of safe paths are safe. -/
lemma Document.operations_safe (h : ∀ item ∈ document.paths.values, item.Safe document known safe) :
    ∀ entry ∈ document.operations, entry.Safe document known safe := by
  intro entry he
  obtain ⟨⟨path, item⟩, hp, he⟩ := List.mem_flatMap.1 he
  obtain ⟨⟨method, operation⟩, ho, rfl⟩ := List.mem_map.1 he
  have safe := h item (List.mem_map.2 ⟨_, hp, rfl⟩)
  exact ⟨safe.parameters, safe.operations method operation ho⟩

variable {operation : Operation}

/-- The media types that a safe operation accepts are found faultlessly. -/
lemma Operation.accepted_faultless (h : operation.Safe document known safe) :
    (operation.accepted document).Faultless known := by
  have go : ∀ responses : List (Slot Response),
      (∀ declared ∈ responses, Response.Safe document known safe declared) →
        ∀ seen, (accepted.go document responses seen).Faultless known := by
    intro responses
    induction responses with
    | nil => exact fun _ seen => .pure seen
    | cons declared rest ih =>
      intro h seen
      obtain ⟨response, hr, -⟩ := h declared List.mem_cons_self
      refine (Run.Faultless.of_gives hr).bind fun found _ => ?_
      split
      · exact .pure _
      · exact ih (fun other ho => h other (List.mem_cons_of_mem _ ho)) _
  exact go _ h.responses []

/-- The position of what a safe operation returns is found faultlessly, and it is safe. -/
lemma Operation.returned_faultless (h : operation.Safe document known safe) :
    (operation.returned document).Faultless known ∧
      ∀ slot, (operation.returned document).result = .ok (some slot) → safe slot := by
  unfold returned
  cases hv : operation.responses.values with
  | nil => exact ⟨.pure none, nofun⟩
  | cons declared rest =>
    obtain ⟨response, hr, inside⟩ := h.responses declared (hv ▸ List.mem_cons_self)
    refine ⟨(Run.Faultless.of_gives hr).bind fun _ _ => .pure _, fun slot hs => ?_⟩
    obtain ⟨found, hf, hs⟩ := Run.bind_result_eq_ok.1 hs
    obtain rfl : found = response := Except.ok.inj (hf.symm.trans hr.result)
    exact inside slot (List.mem_of_head? (Except.ok.inj hs))

variable (closed : document.Closed known safe)
include closed

/-- The parameters of the body of a safe operation are found faultlessly, and stand at safe positions. -/
lemma Operation.bodyParameters_faultless (h : operation.Safe document known safe) :
    (operation.bodyParameters document).Faultless known ∧
      ∀ parameters, (operation.bodyParameters document).result = .ok parameters →
        EffectiveParameter.AllSafe safe parameters := by
  unfold bodyParameters
  cases hb : operation.requestBody with
  | some body =>
    exact ⟨EffectiveParameter.ofRequestBody_faultless closed (h.body body hb), fun parameters hp =>
      EffectiveParameter.allSafe_of_ofRequestBody closed (h.body body hb) hp⟩
  | none =>
    refine ⟨.pure [], fun parameters hp => ?_⟩
    cases hp
    exact fun _ hm => absurd hm List.not_mem_nil

/-- The parameters that a call of a safe operation takes are found faultlessly, and stand at safe
positions. -/
lemma OperationEntry.effectiveParameters_faultless {entry : OperationEntry}
    (h : entry.Safe document known safe) :
    (entry.effectiveParameters document).Faultless known ∧
      ∀ parameters, (entry.effectiveParameters document).result = .ok parameters →
        EffectiveParameter.AllSafe safe parameters := by
  obtain ⟨body, allSafe⟩ := Operation.bodyParameters_faultless closed h.operation
  constructor
  · refine (EffectiveParameter.declared_faultless h.path).bind fun _ _ => ?_
    refine (EffectiveParameter.declared_faultless h.operation.parameters).bind fun _ _ => ?_
    exact body.bind fun _ _ => .pure _
  · intro parameters hp
    obtain ⟨ofPath, hr, hp⟩ := Run.bind_result_eq_ok.1 hp
    obtain ⟨ofOperation, ho, hp⟩ := Run.bind_result_eq_ok.1 hp
    obtain ⟨ofBody, hb, hp⟩ := Run.bind_result_eq_ok.1 hp
    cases hp
    have own := EffectiveParameter.allSafe_of_declared h.operation.parameters ho
    have merged : EffectiveParameter.AllSafe safe
        (ofOperation.foldl (fun parameters p => p.override parameters) ofPath) :=
      List.foldlRecOn ofOperation _ (EffectiveParameter.allSafe_of_declared h.path hr)
        fun _ before parameter hp => before.override (own parameter hp)
    intro parameter hp
    rcases List.mem_append.1 hp with hp | hp
    · exact merged parameter hp
    · exact allSafe ofBody hb parameter hp

end Operations

section Spelled

variable [Spelling]

namespace Builder

/-- A model is described by its properties, its members if it is a choice, and then the rest. -/
lemma model_eq (builder : Builder) (name : String) (registered : Registered) :
    builder.model name registered = (do
      let schema := registered.schema
      let described ← builder.properties name schema
      let oneOf ← (if schema.tag = .oneOf then builder.mapper.unionMembers schema else pure [])
      let unionParameters ←
        (if schema.tag = .oneOf then builder.mapper.unionParameters schema else pure [])
      return ({
        kind := schema.tag
        moduleName := Naming.moduleName name
        origin := registered.origin
        type := ← builder.mapper.modelType name schema
        description := schema.info.description
        properties := described.properties
        additionalProperties := described.additional
        enumValues := schema.enumValues?.getD []
        oneOf := oneOf.map UnionMember.type
        unionParameters
        references := ← builder.mapper.references name schema
        choiceMembers := ← schema.choiceMembers builder.document builder.mapper.listModels name
        default := schema.default? }, described.warnings)) := by
  unfold model
  dsimp only
  refine congrArg _ (funext fun described => ?_)
  by_cases union : registered.schema.tag = .oneOf
  · simp only [union, decide_true, if_true]
  · simp only [union, decide_false, if_false, Bool.false_eq_true]

variable {builder : Builder} {known : Found → Prop} {safe : SchemaSlot → Prop}

omit [Spelling] in
/-- The warnings about safe parameters are found faultlessly. -/
lemma parameterWarnings_faultless {operationId : String} {slots : List (Slot Parameter)}
    (h : ∀ declared ∈ slots, Parameter.Safe builder.document known safe declared) :
    (builder.parameterWarnings operationId slots).Faultless known := by
  refine .foldlM fun before slot hs => ?_
  obtain ⟨parameter, hp, -⟩ := h slot hs
  refine (Run.Faultless.of_gives hp).bind fun found _ => ?_
  split
  · exact .pure _
  · exact .pure _

variable (closed : builder.document.Closed known safe)
include closed

/-- A parameter at a safe position is described faultlessly. -/
lemma parameter_faultless {parameter : EffectiveParameter} (h : safe parameter.schema) :
    (builder.parameter parameter).Faultless known := by
  refine closed.bind h fun schema _ => ?_
  refine (Mapper.slotType_faultless closed h).bind fun type _ => ?_
  exact (EffectiveParameter.collectionFormat_faultless closed h).bind fun _ _ => .pure _

/-- A safe operation is described faultlessly: its warnings, its parameters, what it accepts and what it
returns. -/
lemma operation_faultless {entry : OperationEntry} (h : entry.Safe builder.document known safe) :
    (builder.operation entry).Faultless known := by
  have warnings : ∀ operationId, (builder.parameterWarnings operationId
      (entry.item.parameters ++ entry.operation.parameters)).Faultless known := fun operationId =>
    parameterWarnings_faultless fun declared hd =>
      (List.mem_append.1 hd).elim (h.path declared) (h.operation.parameters declared)
  obtain ⟨effective, allSafe⟩ := OperationEntry.effectiveParameters_faultless closed h
  obtain ⟨returned, position⟩ := Operation.returned_faultless h.operation
  refine (warnings _).bind fun _ _ => effective.bind fun parameters hp => ?_
  refine Run.Faultless.bind (.mapM fun parameter hm => ?_) fun _ _ => ?_
  · exact parameter_faultless closed (allSafe parameters hp parameter hm)
  · refine (Operation.accepted_faultless h.operation).bind fun _ _ => returned.bind fun slot? hs => ?_
    cases slot? with
    | none => exact .pure _
    | some slot =>
      exact (Mapper.slotType_faultless closed (position slot hs)).map.bind fun _ _ => .pure _

/-- A group of safe operations is described faultlessly. -/
lemma api_faultless {group : Option String} {entries : List OperationEntry}
    (h : ∀ entry ∈ entries, entry.Safe builder.document known safe) :
    (builder.api group entries).Faultless known :=
  Run.Faultless.bind (.mapM fun entry he => operation_faultless closed (h entry he)) fun _ _ => .pure _

/-- All groups of operations are described faultlessly if the paths are safe. -/
lemma apis_faultless {statistics : Statistics}
    (h : ∀ item ∈ builder.document.paths.values, item.Safe builder.document known safe) :
    (builder.apis statistics).Faultless known := by
  refine .foldlM fun before grouped hg => ?_
  obtain ⟨group, entries⟩ := grouped
  refine (api_faultless closed fun entry he => ?_).bind fun _ _ => .pure _
  exact Document.operations_safe h entry (Document.mem_operations_of_group hg he)

section Models

variable {schema : Schema} (h : ∀ slot ∈ schema.slots, safe slot)
include h

/-- The properties of a schema with safe positions are described faultlessly. -/
lemma properties_faultless {name : String} : (builder.properties name schema).Faultless known := by
  unfold properties
  split
  · refine (schema.flatten_faultless closed h).bind fun flattened hf => ?_
    refine Run.Faultless.bind (.mapM fun entry he => ?_) fun _ _ => ?_
    · have position := Flattened.safe_of_property closed.inside h hf he
      refine (Mapper.slotType_faultless closed position).bind fun _ _ => ?_
      exact closed.bind position fun _ _ => .pure _
    · split
      · rename_i slot hs
        have position := Flattened.safe_of_additional closed.inside h hf hs
        exact (Mapper.slotType_faultless closed position).map.bind fun _ _ => .pure _
      · exact .pure _
  · exact .pure _

end Models

/-- A model with safe positions is described faultlessly. -/
lemma model_faultless {name : String} {registered : Registered}
    (h : ∀ slot ∈ registered.schema.slots, safe slot) : (builder.model name registered).Faultless known := by
  rw [model_eq]
  refine (properties_faultless closed h).bind fun described _ => Run.Faultless.bind ?_ fun _ _ =>
    Run.Faultless.bind ?_ fun _ _ => ?_
  · split
    · exact Mapper.unionMembers_faultless closed h
    · exact .pure _
  · split
    · exact Mapper.unionParameters_faultless closed h
    · exact .pure _
  · refine (Mapper.modelType_faultless closed h).bind fun _ _ => ?_
    refine (Mapper.references_faultless closed h).bind fun _ _ => ?_
    exact (Schema.choiceMembers_faultless closed h).bind fun _ _ => .pure _

/-- Models with safe positions are described faultlessly. -/
lemma models_faultless {registry : Registry} {statistics : Statistics}
    (h : ∀ name model, (name, model) ∈ registry.models → ∀ slot ∈ model.schema.slots, safe slot) :
    (builder.models registry statistics).Faultless known := by
  refine .foldlM fun before entry he => ?_
  exact (model_faultless closed (h entry.1 entry.2 he)).bind fun _ _ => .pure _

/-- A version with safe paths and models is described faultlessly. -/
lemma build_faultless {registry : Registry} {cycles : List (List String)}
    (paths : ∀ item ∈ builder.document.paths.values, item.Safe builder.document known safe)
    (models : ∀ name model, (name, model) ∈ registry.models → ∀ slot ∈ model.schema.slots, safe slot) :
    (builder.build registry cycles).Faultless known := by
  refine (apis_faultless closed paths).bind fun _ _ => ?_
  exact (models_faultless closed models).bind fun _ _ => .pure _

end Builder

/-- Once the models of a document are collected, building its manifest gives one, unless it does not come
to an end, and finds no references but those that the walk has found. -/
theorem build_succeeds_after_collect {id : DocumentId} {tree : Json} {document : Document}
    (read : Document.read id tree = .ok document) (distinct : tree.keysDistinct = true)
    {generator : Generator} (collected : (generator.collect document .empty).result = .ok ())
    (builder : Builder) (same : builder.document = document) (cycles : List (List String)) :
    let run := builder.build
      ((generator.collect document .empty).registry.emitted builder.mapper.listModels) cycles
    ((∃ described, run.result = .ok described) ∨ run.result = .error .outOfSteps) ∧
      ∀ found ∈ run.found, found ∈ (generator.collect document .empty).found := by
  subst same
  intro run
  have coherent := Document.coherent_of_read read distinct
  obtain ⟨first, walked, -, closed, paths⟩ := Generator.exists_walked coherent collected
  have faultless : run.Faultless (· ∈ (generator.collect builder.document .empty).found) :=
    Builder.build_faultless closed paths fun name model hm =>
      walked.visited_of_registered (walked.proper.get?_eq_some_iff.2 (List.mem_filter.1 hm).1)
  exact ⟨faultless.exists_ok_or, faultless.found⟩

end Spelled

attribute [local instance] Spelling.german

/-- A description of an operation with a parameter of its path, a form whose parts are those of a
composition, and a response with a choice. -/
def uploadTree : Json :=
  let ref (within name : String) : Json := .obj [("$ref", .str ("#/components/" ++ within ++ name))]
  let content (type : String) (schema : Json) : Json := .obj [(type, .obj [("schema", schema)])]
  .obj [
    ("openapi", .str "3.0.0"),
    ("info", .obj [("title", .str "Files"), ("version", .str "1")]),
    ("paths", .obj [("/files/\x7bid\x7d", .obj [
      ("parameters", .arr [ref "parameters/" "Id"]),
      ("post", .obj [
        ("requestBody", .obj [("content", content "multipart/form-data" (ref "schemas/" "Upload"))]),
        ("responses", .obj [("200", ref "responses/" "Done")])])])]),
    ("components", .obj [
      ("schemas", .obj [
        ("Upload", .obj [("allOf", .arr [ref "schemas/" "File",
          .obj [("properties", .obj [("labels", .obj [("type", .str "array"),
            ("items", .obj [("enum", .arr [.str "new", .str "old"])])])])]])]),
        ("File", .obj [("properties", .obj [("next", ref "schemas/" "File")])])]),
      ("parameters", .obj [("Id", .obj [("name", .str "id"), ("in", .str "path"),
        ("required", .bool true), ("schema", .obj [("type", .str "string")])])]),
      ("responses", .obj [("Done", .obj [("description", .str "done"),
        ("content", content "application/json" (.obj [("oneOf", .arr [ref "schemas/" "File",
          ref "schemas/" "Upload"])]))])])])]

/-- The manifest of the description is built. -/
theorem build_succeeds_upload :
    uploadTree.keysDistinct = true ∧ ∃ document, Document.read ⟨0⟩ uploadTree = .ok document ∧
      (Generator.collect ⟨.standard, false⟩ document .empty).result = .ok () ∧
      (∃ described, (Builder.build ⟨"1", ⟨document, []⟩, .standard⟩
        ((Generator.collect ⟨.standard, false⟩ document .empty).registry.emitted []) []).result =
          .ok described) ∧
      ∀ found ∈ (Builder.build ⟨"1", ⟨document, []⟩, .standard⟩
          ((Generator.collect ⟨.standard, false⟩ document .empty).registry.emitted []) []).found,
        found ∈ (Generator.collect ⟨.standard, false⟩ document .empty).found := by
  have distinct : uploadTree.keysDistinct = true := by decide +kernel
  have run : ((Document.read ⟨0⟩ uploadTree).toOption.map fun document =>
      ((Generator.collect ⟨.standard, false⟩ document .empty).result.toOption,
        (Builder.build ⟨"1", ⟨document, []⟩, .standard⟩
          ((Generator.collect ⟨.standard, false⟩ document .empty).registry.emitted []) []).result.isOk)) =
        some (some (), true) := by decide +kernel
  obtain ⟨document, found, run⟩ := Option.map_eq_some_iff.1 run
  have read := toOption_eq_some.1 found
  obtain ⟨ended, built⟩ := Prod.mk.inj run
  have collected := toOption_eq_some.1 ended
  refine ⟨distinct, document, read, collected, ?_⟩
  obtain ⟨ends, known⟩ :=
    build_succeeds_after_collect read distinct collected ⟨"1", ⟨document, []⟩, .standard⟩ rfl []
  refine ⟨?_, known⟩
  rcases ends with described | endless
  · exact described
  · rw [endless] at built
    cases built

end OpenApiManifest
