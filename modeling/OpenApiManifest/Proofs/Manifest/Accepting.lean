import OpenApiManifest.Proofs.Manifest.Endpoints
import OpenApiManifest.Proofs.Manifest.Faultless

/-!
# What operations accept

An operation accepts the media types of its responses, or anything at all if one of them has no content
(`Operation.accepted_eq`).  The warning about accepting anything is inferred from the list alone, so it is also
given where the responses have no other media type than the one of anything (`Generator.version_accepts`).
-/

namespace OpenApiManifest

/-- Adding the texts of a list one by one drops repetitions. -/
lemma OrderedSet.ofList_eq_eraseDups (texts : List String) : ofList texts = texts.eraseDups := by
  induction texts using List.reverseRecOn with
  | nil => rfl
  | append_singleton rest text ih =>
    rw [ofList_append, eraseDups_concat, ← ih]
    rfl

/-- What is taken of some values is mapped. -/
lemma flatMap_ite_singleton {α β : Type} (takes : α → Prop) [DecidablePred takes] (f : α → β)
    (values : List α) :
    (values.flatMap fun value => if takes value then [f value] else []) =
      (values.filter fun value => decide (takes value)).map f := by
  induction values with
  | nil => rfl
  | cons value rest ih =>
    by_cases taken : takes value
    · simp [taken, ih]
    · simp [taken, ih]

namespace Response

/-- Some responses, with references to them followed. -/
def ResolveTo (document : Document) (slots : List (Slot Response)) (responses : List Response) : Prop :=
  List.Forall₂ (fun slot response => (slot.resolve document).result = .ok response) slots responses

/-- Whether some response has no content. -/
def SomeEmpty (responses : List Response) : Prop :=
  ∃ response ∈ responses, response.content = []

instance (responses : List Response) : Decidable (SomeEmpty responses) :=
  inferInstanceAs (Decidable (∃ response ∈ responses, response.content = []))

/-- The media types of some responses, each once, in the order in which they first occur. -/
def mediaTypes (responses : List Response) : List String :=
  (responses.flatMap fun response => response.content.keys).eraseDups

variable {document : Document}

/-- Some response has no content if the first has none or one of the others. -/
lemma someEmpty_cons {response : Response} {rest : List Response} :
    SomeEmpty (response :: rest) ↔ response.content = [] ∨ SomeEmpty rest := by
  simp [SomeEmpty]

/-- Slots resolve to one list of responses at most. -/
lemma ResolveTo.unique {slots : List (Slot Response)} {responses others : List Response}
    (h : ResolveTo document slots responses) (h' : ResolveTo document slots others) :
    responses = others := by
  induction h generalizing others with
  | nil =>
    cases h'
    rfl
  | cons found _ ih =>
    cases h' with
    | cons found' h' => rw [Except.ok.inj (found.symm.trans found'), ih h']

end Response

namespace Operation

variable {document : Document} {operation : Operation}

/-- The responses are gone through until one has no content. -/
lemma accepted_go_eq {slots : List (Slot Response)} {responses : List Response} (seen : List String)
    (resolved : Response.ResolveTo document slots responses) :
    (accepted.go document slots (OrderedSet.ofList seen)).result =
      .ok (if Response.SomeEmpty responses then ["*/*"] else
        OrderedSet.ofList (seen ++ responses.flatMap fun response => response.content.keys)) := by
  induction resolved generalizing seen with
  | nil => simp [accepted.go, Response.SomeEmpty]
  | @cons slot response slots responses found _ ih =>
    rw [accepted.go, Run.result_bind, found]
    change (if response.content.isEmpty then _ else _ : Run (List String)).result = _
    by_cases empty : response.content = []
    · rw [if_pos (List.isEmpty_iff.2 empty), if_pos (Response.someEmpty_cons.2 (.inl empty))]
      rfl
    · have others : Response.SomeEmpty (response :: responses) ↔ Response.SomeEmpty responses :=
        Response.someEmpty_cons.trans (or_iff_right empty)
      rw [if_neg (mt List.isEmpty_iff.1 empty), ← OrderedSet.ofList_append, ih, List.flatMap_cons,
        List.append_assoc]
      simp only [others]

/-- An operation accepts anything if one of its responses has no content, and otherwise the media types of
its responses. -/
theorem accepted_eq {responses : List Response}
    (resolved : Response.ResolveTo document operation.responses.values responses) :
    (operation.accepted document).result =
      .ok (if Response.SomeEmpty responses then ["*/*"] else Response.mediaTypes responses) := by
  rw [Response.mediaTypes, ← OrderedSet.ofList_eq_eraseDups]
  exact accepted_go_eq [] resolved

end Operation

namespace Warning

/-- Whether a warning is about accepting anything. -/
def isAcceptsAnything : Warning → Bool
  | .acceptsAnything .. => true
  | _ => false

end Warning

section Spelled

variable [Spelling]

namespace Builder

variable {builder : Builder}

omit [Spelling] in
/-- The warnings about parameters are not about accepting anything. -/
lemma filter_parameterWarnings {operationId : String} {slots : List (Slot Parameter)}
    {warnings : List Warning} (h : (builder.parameterWarnings operationId slots).result = .ok warnings) :
    warnings.filter Warning.isAcceptsAnything = [] := by
  refine Run.foldlM_keeps (fun warnings => warnings.filter Warning.isAcceptsAnything = []) rfl ?_ h
  intro before slot after _ kept step
  obtain ⟨parameter, -, step⟩ := Run.bind_result_eq_ok.1 step
  split at step
  · rw [← pure_eq_ok.1 step, List.filter_append, kept]
    rfl
  · rw [← pure_eq_ok.1 step, kept]

/-- Of the warnings about an operation, one is about accepting anything if it does. -/
lemma DescribesOperation.filter_warnings {entry : OperationEntry} {own : MethodEntry}
    {warnings : List Warning} (h : builder.DescribesOperation entry own warnings) :
    warnings.filter Warning.isAcceptsAnything =
      if own.accept = ["*/*"] then [.acceptsAnything builder.version own.operationId] else [] := by
  obtain ⟨missing, hm, rfl⟩ := h.warned
  rw [List.filter_append, filter_parameterWarnings hm, List.nil_append, h.operationId]
  split
  · rfl
  · rfl

/-- The warnings about properties are not about accepting anything. -/
lemma filter_warnings_of_properties {name : String} {schema : Schema} {described : Properties}
    (h : (builder.properties name schema).result = .ok described) :
    described.warnings.filter Warning.isAcceptsAnything = [] := by
  unfold properties at h
  split at h
  case isFalse =>
    rw [← pure_eq_ok.1 h]
    rfl
  case isTrue =>
    obtain ⟨flattened, -, h⟩ := Run.bind_result_eq_ok.1 h
    obtain ⟨entries, he, h⟩ := Run.bind_result_eq_ok.1 h
    have none : (entries.flatMap Prod.snd).filter Warning.isAcceptsAnything = [] := by
      rw [List.filter_flatMap, List.flatMap_eq_nil_iff]
      intro entry hm
      obtain ⟨property, -, made⟩ := Run.exists_of_mem_mapM he hm
      obtain ⟨type, -, made⟩ := Run.bind_result_eq_ok.1 made
      obtain ⟨value, -, made⟩ := Run.bind_result_eq_ok.1 made
      rw [← pure_eq_ok.1 made]
      dsimp only
      split
      · rfl
      · rfl
    cases ha : flattened.additional.bind AdditionalProperties.slot? with
    | none =>
      rw [ha] at h
      obtain ⟨_, -, h⟩ := Run.bind_result_eq_ok.1 h
      rwa [← pure_eq_ok.1 h]
    | some slot =>
      rw [ha] at h
      obtain ⟨_, -, h⟩ := Run.bind_result_eq_ok.1 h
      rwa [← pure_eq_ok.1 h]

/-- No warning about a model is about accepting anything. -/
lemma filter_warnings_of_model {name : String} {registered : Registered} {entry : ModelEntry}
    {warnings : List Warning} (h : (builder.model name registered).result = .ok (entry, warnings)) :
    warnings.filter Warning.isAcceptsAnything = [] := by
  rw [model_eq] at h
  obtain ⟨described, hd, h⟩ := Run.bind_result_eq_ok.1 h
  obtain ⟨oneOf, -, h⟩ := Run.bind_result_eq_ok.1 h
  obtain ⟨parameters, -, h⟩ := Run.bind_result_eq_ok.1 h
  obtain ⟨type, -, h⟩ := Run.bind_result_eq_ok.1 h
  obtain ⟨references, -, h⟩ := Run.bind_result_eq_ok.1 h
  obtain ⟨members, -, h⟩ := Run.bind_result_eq_ok.1 h
  cases h
  exact filter_warnings_of_properties hd

/-- Describing models adds no warning about accepting anything. -/
lemma filter_warnings_of_models {registry : Registry} {statistics after : Statistics}
    {models : Entries ModelEntry}
    (h : (builder.models registry statistics).result = .ok (models, after)) :
    after.warnings.filter Warning.isAcceptsAnything =
      statistics.warnings.filter Warning.isAcceptsAnything := by
  refine Run.foldlM_keeps (fun state : Entries ModelEntry × Statistics =>
    state.2.warnings.filter Warning.isAcceptsAnything =
      statistics.warnings.filter Warning.isAcceptsAnything) rfl ?_ h
  rintro ⟨before, counted⟩ ⟨name, registered⟩ state - kept step
  obtain ⟨⟨model, warnings⟩, hm, step⟩ := Run.bind_result_eq_ok.1 step
  obtain rfl := pure_eq_ok.1 step
  have added : ((counted.countModel model.kind).warn warnings).warnings = counted.warnings ++ warnings := by
    cases model.kind <;> rfl
  rw [added, List.filter_append, kept, filter_warnings_of_model hm, List.append_nil]

end Builder

/-- The responses that a document declares at an endpoint, with references followed. -/
def Document.Responds (document : Document) (endpoint : Endpoint) (responses : List Response) : Prop :=
  ∃ entry ∈ document.operations, entry.endpoint = endpoint ∧
    Response.ResolveTo document entry.operation.responses.values responses

namespace Generator

variable {generator : Generator} {name : String} {tree : Json} {manifest : VersionManifest}
  {statistics : Statistics}

/-- The operations of a version are described one after the other, and of the warnings about them, those about
accepting anything are all that there are. -/
lemma exists_described_of_version (h : generator.version name tree = .ok (manifest, statistics)) :
    ∃ document, Document.read ⟨0⟩ tree = .ok document ∧
      (generator.collect document .empty).result = .ok () ∧
      (∀ operation ∈ manifest.apis.flatMap ApiEntry.operations, ∃ entry ∈ document.operations, ∃ warnings,
        (generator.builder name document).DescribesOperation entry operation warnings) ∧
      statistics.warnings.filter Warning.isAcceptsAnything =
        ((manifest.apis.flatMap ApiEntry.operations).filter fun operation =>
          decide (operation.accept = ["*/*"])).map
            fun operation => .acceptsAnything name operation.operationId := by
  obtain ⟨document, read, collected, built⟩ := version_eq_ok_iff.1 h
  obtain ⟨counted, after, ha, hm, -, rfl⟩ := Builder.build_eq_ok_iff.1 built
  obtain ⟨described, listed, warned, made⟩ := Builder.exists_described_of_apis ha
  have describes : ∀ own ∈ described, ∃ entry ∈ document.operations,
      (generator.builder name document).DescribesOperation entry own.1 own.2 := by
    intro own ho
    obtain ⟨entry, he, hd⟩ := made own ho
    exact ⟨entry, he, Builder.describes_of_operation hd⟩
  rw [listed]
  refine ⟨document, read, collected, fun operation ho => ?_, ?_⟩
  · obtain ⟨own, hd, rfl⟩ := List.mem_map.1 ho
    obtain ⟨entry, he, hd⟩ := describes own hd
    exact ⟨entry, he, own.2, hd⟩
  -- No other warning is about accepting anything, so that each operation has its warning or none.
  · have own : ∀ own ∈ described, own.2.filter Warning.isAcceptsAnything =
        if own.1.accept = ["*/*"] then [.acceptsAnything name own.1.operationId] else [] := by
      intro own ho
      obtain ⟨entry, -, hd⟩ := describes own ho
      exact hd.filter_warnings
    calc after.warnings.filter Warning.isAcceptsAnything
        = (described.flatMap Prod.snd).filter Warning.isAcceptsAnything := by
          rw [Builder.filter_warnings_of_models hm, warned]
          rfl
      _ = described.flatMap fun own =>
            if own.1.accept = ["*/*"] then [.acceptsAnything name own.1.operationId] else [] := by
          rw [List.filter_flatMap]
          exact List.flatMap_congr own
      _ = _ := by
          rw [List.filter_map, List.map_map]
          exact flatMap_ite_singleton _ _ _

/-- An operation accepts anything if one of its responses has no content, and otherwise the media types of its
responses, each once, in the order in which they first occur.  There is a warning for each operation that accepts
anything: this agrees with one of its responses having no content unless the only media type of its responses is
the one of anything. -/
theorem version_accepts (distinct : tree.keysDistinct = true)
    (h : generator.version name tree = .ok (manifest, statistics)) :
    ∃ document, Document.read ⟨0⟩ tree = .ok document ∧
      (∀ operation ∈ manifest.apis.flatMap ApiEntry.operations, ∃ responses,
        document.Responds operation.endpoint responses ∧
        (∀ others, document.Responds operation.endpoint others → others = responses) ∧
        operation.accept =
          (if Response.SomeEmpty responses then ["*/*"] else Response.mediaTypes responses) ∧
        ((operation.accept = ["*/*"] ↔ Response.SomeEmpty responses) ↔
          Response.SomeEmpty responses ∨ Response.mediaTypes responses ≠ ["*/*"])) ∧
      statistics.warnings.filter Warning.isAcceptsAnything =
        ((manifest.apis.flatMap ApiEntry.operations).filter fun operation =>
          decide (operation.accept = ["*/*"])).map
            fun operation => .acceptsAnything name operation.operationId := by
  obtain ⟨document, read, collected, described, warned⟩ := exists_described_of_version h
  have safe : ∀ item ∈ document.paths.values, item.Safe document _ fun _ => True :=
    safe_of_collect (Visit.gives_of_ok collected) fun _ _ => trivial
  -- The responses at an endpoint are determined, as no two operations have the same endpoint.
  have apart : ∀ entry ∈ document.operations, ∀ other ∈ document.operations,
      entry.endpoint = other.endpoint → entry = other := by
    refine List.inj_on_of_nodup_map ?_
    rw [Document.endpoints_of_read read]
    exact Document.nodup_endpoints distinct
  refine ⟨document, read, fun operation ho => ?_, warned⟩
  obtain ⟨entry, he, warnings, describes⟩ := described operation ho
  have here : entry.endpoint = operation.endpoint :=
    Prod.ext describes.endpoint.1.symm describes.endpoint.2.symm
  obtain ⟨responses, resolved⟩ :
      ∃ responses, Response.ResolveTo document entry.operation.responses.values responses := by
    refine exists_forall₂_iff.2 fun declared hd => ?_
    obtain ⟨response, hr, -⟩ := (Document.operations_safe safe entry he).operation.responses declared hd
    exact ⟨response, hr.result⟩
  have accepts : operation.accept =
      if Response.SomeEmpty responses then ["*/*"] else Response.mediaTypes responses :=
    Except.ok.inj (describes.accept.symm.trans (Operation.accepted_eq resolved))
  refine ⟨responses, ⟨entry, he, here, resolved⟩, ?_, accepts, ?_⟩
  · rintro others ⟨other, ho, there, resolved'⟩
    obtain rfl := apart other ho entry he (there.trans here.symm)
    exact resolved'.unique resolved
  · rw [accepts]
    by_cases empty : Response.SomeEmpty responses
    · simp [empty]
    · simp [empty]

end Generator

end Spelled

attribute [local instance] Spelling.german

/-- A description of a feed and of files.  The feed answers in two media types or with a failure, takes entries
without an answer, and files are of any media type. -/
def feedTree : Json :=
  let content (mediaTypes : List String) : Json :=
    .obj [("content", .obj (mediaTypes.map fun mediaType => (mediaType, .obj [])))]
  let operation (id : String) (responses : List (String × Json)) : Json :=
    .obj [("operationId", .str id), ("responses", .obj responses)]
  .obj [
    ("openapi", .str "3.0.0"),
    ("info", .obj [("title", .str "Feed"), ("version", .str "1")]),
    ("paths", .obj [
      ("/feed", .obj [
        ("get", operation "get_feed" [("200", content ["application/json", "text/csv"]),
          ("default", .obj [("$ref", .str "#/components/responses/Failure")])]),
        ("post", operation "post_feed" [("204", .obj [])])]),
      ("/file", .obj [("get", operation "get_file" [("200", content ["*/*"])])])]),
    ("components", .obj [("responses", .obj [
      ("Failure", content ["application/json", "application/problem+json"])])])]

/-- What the operations of the feed accept, and what their responses hold. -/
lemma feedTree_evaluates :
    feedTree.keysDistinct = true ∧
      (Generator.version ⟨.standard, false⟩ "1" feedTree).toOption.map (fun version =>
        version.2.warnings) =
          some [.acceptsAnything "1" "post_feed", .acceptsAnything "1" "get_file"] ∧
      (Generator.version ⟨.standard, false⟩ "1" feedTree).toOption.map (fun version =>
        (version.1.apis.flatMap ApiEntry.operations).map fun operation =>
          (operation.operationId, operation.endpoint, operation.accept)) =
        some [("get_feed", ("/feed", .get), ["application/json", "text/csv", "application/problem+json"]),
          ("post_feed", ("/feed", .post), ["*/*"]), ("get_file", ("/file", .get), ["*/*"])] ∧
      ((Document.read ⟨0⟩ feedTree).toOption.bind fun document =>
        document.operations[2]?.map fun entry => (entry.endpoint,
          (entry.operation.responses.values.mapM fun slot : Slot Response => slot.resolve document).result.toOption.map
            (List.map fun response : Response => response.content.keys))) =
        some (("/file", .get), some [["*/*"]]) := by
  -- One evaluation for all the facts: the kernel then reads the description once.
  decide +kernel

/-- The feed is read in the three media types of its two responses. -/
theorem Generator.version_accepts_feed :
    feedTree.keysDistinct = true ∧ ∃ manifest statistics document,
      Generator.version ⟨.standard, false⟩ "1" feedTree = .ok (manifest, statistics) ∧
      Document.read ⟨0⟩ feedTree = .ok document ∧
      (manifest.apis.flatMap ApiEntry.operations).map MethodEntry.endpoint =
        [("/feed", .get), ("/feed", .post), ("/file", .get)] ∧
      ∀ operation ∈ manifest.apis.flatMap ApiEntry.operations, operation.endpoint = ("/feed", .get) →
        ∃ responses, document.Responds ("/feed", .get) responses ∧ ¬ Response.SomeEmpty responses ∧
          Response.mediaTypes responses =
            ["application/json", "text/csv", "application/problem+json"] := by
  obtain ⟨distinct, -, run, -⟩ := feedTree_evaluates
  obtain ⟨⟨manifest, statistics⟩, found, operations⟩ := Option.map_eq_some_iff.1 run
  have h := toOption_eq_some.1 found
  obtain ⟨document, read, accepts, -⟩ := version_accepts distinct h
  refine ⟨distinct, manifest, statistics, document, h, read, ?_, fun operation ho here => ?_⟩
  · have endpoints := congrArg (List.map fun own => own.2.1) operations
    rw [List.map_map] at endpoints
    exact endpoints
  · obtain ⟨responses, responds, -, accept, -⟩ := accepts operation ho
    have listed : (operation.operationId, operation.endpoint, operation.accept) ∈
        (manifest.apis.flatMap ApiEntry.operations).map fun operation =>
          (operation.operationId, operation.endpoint, operation.accept) :=
      List.mem_map.2 ⟨operation, ho, rfl⟩
    rw [operations, here] at listed
    obtain ⟨-, feed⟩ : operation.operationId = "get_feed" ∧
        operation.accept = ["application/json", "text/csv", "application/problem+json"] := by
      simpa using listed
    rw [feed] at accept
    rw [here] at responds
    by_cases empty : Response.SomeEmpty responses
    · rw [if_pos empty] at accept
      simp at accept
    · exact ⟨responses, responds, empty, (if_neg empty).symm.trans accept.symm⟩

/-- The warning about files says that a response has no content, and all of them have. -/
theorem Generator.version_accepts_file :
    feedTree.keysDistinct = true ∧ ∃ manifest statistics document operation responses,
      Generator.version ⟨.standard, false⟩ "1" feedTree = .ok (manifest, statistics) ∧
      Document.read ⟨0⟩ feedTree = .ok document ∧
      operation ∈ manifest.apis.flatMap ApiEntry.operations ∧
      ((manifest.apis.flatMap ApiEntry.operations).map MethodEntry.operationId).Nodup ∧
      document.Responds operation.endpoint responses ∧
      .acceptsAnything "1" operation.operationId ∈ statistics.warnings ∧
      ¬ Response.SomeEmpty responses := by
  obtain ⟨distinct, warned, run, declared⟩ := feedTree_evaluates
  obtain ⟨⟨manifest, statistics⟩, found, operations⟩ := Option.map_eq_some_iff.1 run
  rw [found] at warned
  have warnings : statistics.warnings = _ := Option.some.inj warned
  obtain ⟨document, read, declared⟩ := Option.bind_eq_some_iff.1 declared
  obtain ⟨entry, he, declared⟩ := Option.map_eq_some_iff.1 declared
  obtain ⟨here, declared⟩ := Prod.mk.inj declared
  obtain ⟨responses, resolved, contents⟩ := Option.map_eq_some_iff.1 declared
  have mem : ("get_file", ("/file", Method.get), ["*/*"]) ∈
      (manifest.apis.flatMap ApiEntry.operations).map fun operation =>
        (operation.operationId, operation.endpoint, operation.accept) := by
    rw [operations]
    decide
  obtain ⟨operation, ho, e⟩ := List.mem_map.1 mem
  obtain ⟨named, rest⟩ := Prod.mk.inj e
  obtain ⟨there, -⟩ := Prod.mk.inj rest
  have names := congrArg (List.map Prod.fst) operations
  rw [List.map_map] at names
  refine ⟨distinct, manifest, statistics, document, operation, responses, toOption_eq_some.1 found,
    toOption_eq_some.1 read, ho, ?_, ⟨entry, List.mem_of_getElem? he, here.trans there.symm,
      Run.mapM_eq_ok.1 (toOption_eq_some.1 resolved)⟩, ?_, ?_⟩
  · change ((manifest.apis.flatMap ApiEntry.operations).map
      (Prod.fst ∘ fun operation => (operation.operationId, operation.endpoint, operation.accept))).Nodup
    rw [names]
    decide
  · rw [warnings, named]
    decide
  · rintro ⟨response, hr, empty⟩
    have keys : response.content.keys ∈ [["*/*"]] := contents ▸ List.mem_map.2 ⟨response, hr, rfl⟩
    rw [empty] at keys
    revert keys
    decide

end OpenApiManifest
