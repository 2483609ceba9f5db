import OpenApiManifest.Generation
import OpenApiManifest.Proofs.Walk.Ending

/-!
# The roots of walks

A walk of everything from a root of a document visits the positions at which the root starts
(`WalkRoot.Starts`), one after the other, and so it collects what is reached from there
(`WalkRoot.collects`).
-/

namespace OpenApiManifest

/-- The positions at which a walk from a root starts.  The parameters and responses of an operation are
those to which its own references lead. -/
inductive WalkRoot.Starts (document : Document) : WalkRoot → SchemaSlot → Prop
  | slot {slot : SchemaSlot} : Starts document (.slot slot) slot
  | schema {schema : Schema} : Starts document (.schema schema) (.owned schema)
  | parameter {parameter : Parameter} {slot : SchemaSlot} :
    slot ∈ parameter.slots → Starts document (.parameter parameter) slot
  | operationParameter {operation : Operation} {declared : Slot Parameter} {parameter : Parameter}
    {slot : SchemaSlot} :
    declared ∈ operation.parameters → (declared.resolve document).result = .ok parameter →
      slot ∈ parameter.slots → Starts document (.operation operation) slot
  | requestBody {operation : Operation} {body : RequestBody} {slot : SchemaSlot} :
    operation.requestBody = some body → slot ∈ MediaType.schemas body.content →
      Starts document (.operation operation) slot
  | response {operation : Operation} {declared : Slot Response} {response : Response}
    {slot : SchemaSlot} :
    declared ∈ operation.responses.values → (declared.resolve document).result = .ok response →
      slot ∈ MediaType.schemas response.content → Starts document (.operation operation) slot
  | pathParameter {item : PathItem} {declared : Slot Parameter} {parameter : Parameter}
    {slot : SchemaSlot} :
    declared ∈ item.parameters → (declared.resolve document).result = .ok parameter →
      slot ∈ parameter.slots → Starts document (.pathItem item) slot
  | pathOperation {item : PathItem} {method : Method} {operation : Operation} {slot : SchemaSlot} :
    (method, operation) ∈ item.operations → Starts document (.operation operation) slot →
      Starts document (.pathItem item) slot
  | components {slot : SchemaSlot} :
    slot ∈ document.components.schemas.values → Starts document .components slot
  | paths {item : PathItem} {slot : SchemaSlot} :
    item ∈ document.paths.values → Starts document (.pathItem item) slot →
      Starts document .paths slot

/-- A root that belongs to a document. -/
def WalkRoot.Of (document : Document) : WalkRoot → Prop
  | .slot s => document.Contains s
  | .schema s => document.Contains (.owned s)
  | .parameter p => ∀ slot ∈ p.slots, document.Contains slot
  | .operation o => ∃ item ∈ document.paths.values, ∃ method, (method, o) ∈ item.operations
  | .pathItem item => item ∈ document.paths.values
  | .components | .paths => True

section Contains

variable {document : Document} {slot : SchemaSlot}

/-- What stands in a path of a document is contained in it. -/
lemma Document.contains_of_pathItem {item : PathItem} (hi : item ∈ document.paths.values)
    (hs : slot ∈ item.slots) : document.Contains slot :=
  .outer (List.mem_append_right _ (List.mem_flatMap.2 ⟨item, hi, hs⟩))

/-- What stands in the components of a document is contained in it. -/
lemma Document.contains_of_components (hs : slot ∈ document.components.slots) :
    document.Contains slot :=
  .outer (List.mem_append_left _ hs)

/-- The positions in a parameter that is declared in place are among those of all parameters. -/
lemma Parameter.mem_slotsOfAll {parameters : List (Slot Parameter)} {parameter : Parameter}
    (hp : .owned parameter ∈ parameters) (hs : slot ∈ parameter.slots) :
    slot ∈ slotsOfAll parameters :=
  List.mem_flatMap.2 ⟨parameter, List.mem_filterMap.2 ⟨_, hp, rfl⟩, hs⟩

/-- The positions in a response that is declared in place are among those of all responses. -/
lemma Response.mem_slotsOfAll {responses : List (Slot Response)} {response : Response}
    (hr : .owned response ∈ responses) (hs : slot ∈ MediaType.schemas response.content) :
    slot ∈ slotsOfAll responses :=
  List.mem_flatMap.2 ⟨response, List.mem_filterMap.2 ⟨_, hr, rfl⟩, hs⟩

/-- A position in a parameter is in the document if those in the declarations are. -/
lemma Parameter.contains_of_resolve {parameters : List (Slot Parameter)}
    {declared : Slot Parameter} {parameter : Parameter}
    (within : ∀ slot ∈ slotsOfAll parameters, document.Contains slot) (hd : declared ∈ parameters)
    (h : (declared.resolve document).result = .ok parameter) (hs : slot ∈ parameter.slots) :
    document.Contains slot := by
  rcases Slot.eq_or_exists_of_resolve h with rfl | ⟨name, held⟩
  · exact within slot (mem_slotsOfAll hd hs)
  · have stored : .owned parameter ∈ document.components.parameters.values :=
      List.mem_map.2 ⟨_, Entries.mem_of_get? held, rfl⟩
    refine Document.contains_of_components (List.mem_append_left _ ?_)
    exact List.mem_append_right _ (mem_slotsOfAll stored hs)

/-- A position in a response is in the document if those in the declarations are. -/
lemma Response.contains_of_resolve {responses : List (Slot Response)}
    {declared : Slot Response} {response : Response}
    (within : ∀ slot ∈ slotsOfAll responses, document.Contains slot) (hd : declared ∈ responses)
    (h : (declared.resolve document).result = .ok response)
    (hs : slot ∈ MediaType.schemas response.content) : document.Contains slot := by
  rcases Slot.eq_or_exists_of_resolve h with rfl | ⟨name, held⟩
  · exact within slot (mem_slotsOfAll hd hs)
  · have stored : .owned response ∈ document.components.responses.values :=
      List.mem_map.2 ⟨_, Entries.mem_of_get? held, rfl⟩
    exact Document.contains_of_components (List.mem_append_right _ (mem_slotsOfAll stored hs))

/-- A walk of an operation starts at positions in the document if those in the operation are. -/
lemma Operation.contains_of_starts {operation : Operation}
    (within : ∀ slot ∈ operation.slots, document.Contains slot)
    (hs : (WalkRoot.operation operation).Starts document slot) : document.Contains slot := by
  cases hs with
  | operationParameter hd h hs =>
    refine Parameter.contains_of_resolve (fun slot hs => within slot ?_) hd h hs
    exact List.mem_append_left _ (List.mem_append_left _ hs)
  | requestBody hb hs =>
    refine within slot (List.mem_append_left _ (List.mem_append_right _ ?_))
    exact List.mem_flatMap.2 ⟨_, Option.mem_toList.2 hb, hs⟩
  | response hd h hs =>
    refine Response.contains_of_resolve (fun slot hs => within slot ?_) hd h hs
    exact List.mem_append_right _ hs

/-- A walk of a path of the document starts at positions in the document. -/
lemma PathItem.contains_of_starts {item : PathItem} (hi : item ∈ document.paths.values)
    (hs : (WalkRoot.pathItem item).Starts document slot) : document.Contains slot := by
  have within : ∀ slot ∈ item.slots, document.Contains slot :=
    fun slot hs => Document.contains_of_pathItem hi hs
  cases hs with
  | pathParameter hd h hs =>
    refine Parameter.contains_of_resolve (fun slot hs => within slot ?_) hd h hs
    exact List.mem_append_left _ hs
  | pathOperation hm hs =>
    refine Operation.contains_of_starts (fun slot hs => within slot ?_) hs
    exact List.mem_append_right _ (List.mem_flatMap.2 ⟨_, hm, hs⟩)

/-- A walk from a root of a document starts at positions of the document. -/
lemma WalkRoot.Of.contains {root : WalkRoot} (h : root.Of document) (hs : root.Starts document slot) :
    document.Contains slot := by
  cases root with
  | slot => cases hs; exact h
  | schema => cases hs; exact h
  | parameter =>
    cases hs with
    | parameter hs => exact h _ hs
  | operation operation =>
    obtain ⟨item, hi, method, hm⟩ := h
    refine Operation.contains_of_starts (fun slot hs => Document.contains_of_pathItem hi ?_) hs
    exact List.mem_append_right _ (List.mem_flatMap.2 ⟨_, hm, hs⟩)
  | pathItem item => exact PathItem.contains_of_starts h hs
  | components =>
    cases hs with
    | components hs =>
      exact Document.contains_of_components (List.mem_append_left _ (List.mem_append_left _ hs))
  | paths =>
    cases hs with
    | paths hi hs => exact PathItem.contains_of_starts hi hs

end Contains

/-- The calls for some positions from which a walk starts. -/
def Call.From (starts : SchemaSlot → Prop) (call : Call) : Prop :=
  ∃ slot, starts slot ∧ call = .child slot none none

variable [Spelling]

/-- A walk from the schema at a position carries out the plan for the position. -/
lemma walkSchema_eq {document : Document} {slot : SchemaSlot} {schema : Schema}
    (hs : (slot.resolve document).result = .ok schema) :
    ∃ plan, ((Call.child slot none none).plan document .everything).result = .ok plan ∧
      walkSchema document .everything schema =
        plan.carryOut (Call.walk document .everything (document.steps schema.size)) := by
  cases hn : schema.name? with
  | none =>
    refine ⟨_, Call.plan_child_of_nameless hs hn, ?_⟩
    simp [walkSchema, hn, Plan.carryOut, Call.walk]
  | some name =>
    refine ⟨_, Call.plan_child_of_name hs hn, ?_⟩
    rw [Call.carryOut_register .everything _ name ⟨schema, .component⟩ rfl]
    simp [walkSchema, hn, WalkOptions.everything, Call.walk]

/-- A part of a walk of everything that starts at some positions: it collects what is reached from
there, and it comes to an end. -/
structure Walk.Visits {α : Type} (document : Document) (starts : SchemaSlot → Prop) (walk : Walk α) :
    Prop where
  collects : walk.Collects document .everything (Call.From starts)
  ends : ∀ registry : Registry, registry.Proper document →
    (walk registry).result ≠ .error .outOfSteps

namespace Walk.Visits

variable {α β : Type} {document : Document} {starts more : SchemaSlot → Prop}

/-- A part of a walk that only gives a value starts nowhere. -/
lemma pure (value : α) : (Pure.pure value : Walk α).Visits document fun _ => False where
  collects := (Collects.pure value).congr fun call => by simp [Call.From]
  ends _ _ := nofun

/-- What a part of a walk visits does not depend on how the positions are described. -/
lemma congr {walk : Walk α} (h : walk.Visits document starts)
    (e : ∀ slot, starts slot ↔ more slot) : walk.Visits document more := by
  obtain rfl : starts = more := funext fun slot => propext (e slot)
  exact h

/-- Two parts of a walk start where either of them does. -/
lemma bind {walk : Walk α} {next : α → Walk β} (h : walk.Visits document starts)
    (hn : ∀ value, (next value).Visits document more) :
    (walk >>= next).Visits document fun slot => starts slot ∨ more slot where
  collects := (h.collects.bind fun value => (hn value).collects).congr fun call => by
    simp [Call.From, or_and_right, exists_or]
  ends registry proper := by
    have visit := h.collects registry proper
    have ends := h.ends registry proper
    rcases hw : walk registry with ⟨after, found, halt | value⟩
    · rw [bind_apply_of_error hw]
      rw [hw] at ends
      intro e
      cases e
      exact ends rfl
    · rw [bind_apply_of_ok hw]
      rw [hw] at visit
      exact (hn value).ends after (visit fun _ => False).proper

/-- A part of a walk that goes on with what a slot resolves to starts where it does so. -/
lemma follow_bind [Component α] {slot : Slot α} {next : α → Walk β} {starts : α → SchemaSlot → Prop}
    (h : ∀ value, (slot.resolve document).result = .ok value →
      (next value).Visits document (starts value)) :
    (Walk.follow (slot.resolve document) >>= next).Visits document fun position =>
      ∃ value, (slot.resolve document).result = .ok value ∧ starts value position where
  collects := by
    refine .follow_bind fun value hv registry proper known _ => ?_
    have rest : (next value).Collects document .everything (Call.From fun position =>
        ∃ value, (slot.resolve document).result = .ok value ∧ starts value position) :=
      (h value hv).collects.congr fun call => by simp [Call.From, hv]
    exact rest registry proper known
  ends registry proper := by
    rcases hr : slot.resolve document with ⟨found, halt | value⟩
    · rw [bind_apply_of_error (follow_apply _ _)]
      intro e
      cases e
      exact Slot.resolve_ne_outOfSteps (congrArg Run.result hr)
    · rw [bind_apply_of_ok (follow_apply _ _)]
      exact (h value (congrArg Run.result hr)).ends registry proper

/-- The parts of a walk for several values start where one of them does. -/
lemma forM {values : List α} {next : α → Walk Unit} {starts : α → SchemaSlot → Prop}
    (h : ∀ value ∈ values, (next value).Visits document (starts value)) :
    (values.forM next).Visits document fun slot => ∃ value ∈ values, starts value slot := by
  induction values with
  | nil => exact (pure ()).congr fun slot => by simp
  | cons value rest ih =>
    have others := ih fun value hv => h value (List.mem_cons_of_mem _ hv)
    have both := (h value List.mem_cons_self).bind fun _ => others
    exact both.congr fun slot => by simp

end Walk.Visits

section Roots

variable {document : Document} (coherent : document.Coherent)
include coherent

/-- The walk from a position starts there. -/
lemma walkSlot_visits {slot : SchemaSlot} (h : document.Contains slot) :
    (walkSlot document .everything slot).Visits document (· = slot) := by
  have within : (Call.child slot none none).Within document := h
  constructor
  · have collects : (walkSlot document .everything slot).Collects document .everything
        fun call => call = .child slot none none := by
      refine .follow_bind fun schema hs registry proper known seen => ?_
      obtain ⟨plan, planned, e⟩ := walkSchema_eq hs
      rw [e]
      -- The plan of the call finds the references of the position, which have just been followed.
      have gives : ((Call.child slot none none).plan document .everything).Gives known plan := by
        refine ⟨planned, ?_⟩
        rw [Call.found_plan rfl]
        exact seen
      exact .carryOut coherent gives (within.plan planned) proper fun later hl =>
        Call.collects coherent _ hl
    exact collects.congr fun call => by simp [Call.From]
  · intro registry proper
    unfold walkSlot
    rcases hr : slot.resolve document with ⟨found, halt | schema⟩
    · rw [Walk.bind_apply_of_error (Walk.follow_apply _ _)]
      intro e
      cases e
      exact Slot.resolve_ne_outOfSteps (congrArg Run.result hr)
    · have hs := congrArg Run.result hr
      obtain ⟨plan, planned, e⟩ := walkSchema_eq hs
      rw [Walk.bind_apply_of_ok (Walk.follow_apply _ _), e]
      refine Call.carryOut_ends coherent planned within proper (Document.need_le_steps ?_)
        fun later after within proper enough => Call.ends coherent within proper enough
      have le := Schema.slotSize_le_of_resolve hs
      rw [Call.weight]
      omega

/-- The walk of a parameter starts at its positions. -/
lemma walkParameter_visits {parameter : Parameter}
    (h : ∀ slot ∈ parameter.slots, document.Contains slot) :
    (walkParameter document .everything parameter).Visits document (· ∈ parameter.slots) := by
  unfold walkParameter
  cases hp : parameter.schema with
  | none => exact (Walk.Visits.pure ()).congr fun slot => by simp [Parameter.slots, hp]
  | some own =>
    have mem : own ∈ parameter.slots := Option.mem_toList.2 hp
    exact (walkSlot_visits coherent (h own mem)).congr fun slot => by
      simp [Parameter.slots, hp, eq_comm]

/-- The walk of some parameters starts at the positions of each of them. -/
lemma walkParameters_visits {parameters : List (Slot Parameter)}
    (h : ∀ declared ∈ parameters, ∀ parameter, (declared.resolve document).result = .ok parameter →
      ∀ slot ∈ parameter.slots, document.Contains slot) :
    (walkParameters document .everything parameters).Visits document fun slot =>
      ∃ declared ∈ parameters, ∃ parameter, (declared.resolve document).result = .ok parameter ∧
        slot ∈ parameter.slots :=
  .forM fun declared hd => .follow_bind fun parameter hp =>
    walkParameter_visits coherent (h declared hd parameter hp)

/-- The walk of some content starts at its schemas. -/
lemma walkContent_visits {content : Entries MediaType}
    (h : ∀ slot ∈ MediaType.schemas content, document.Contains slot) :
    (walkContent document .everything content).Visits document (· ∈ MediaType.schemas content) :=
  (Walk.Visits.forM fun slot hs => walkSlot_visits coherent (h slot hs)).congr fun slot => by simp

/-- The walk of an operation starts where that root says. -/
lemma walkOperation_visits {operation : Operation}
    (h : ∀ slot, (WalkRoot.operation operation).Starts document slot → document.Contains slot) :
    (walkOperation document .everything operation).Visits document
      ((WalkRoot.operation operation).Starts document) := by
  have parameters := walkParameters_visits coherent fun declared hd parameter hp slot hs =>
    h slot (.operationParameter hd hp hs)
  have responses : (operation.responses.values.forM fun declared => do
      let response ← Walk.follow (declared.resolve document)
      walkContent document .everything response.content).Visits document fun slot =>
        ∃ declared ∈ operation.responses.values, ∃ response : Response,
          (declared.resolve document).result = Except.ok response ∧
            slot ∈ MediaType.schemas response.content :=
    .forM fun declared hd => .follow_bind fun response hr =>
      walkContent_visits coherent fun slot hs => h slot (.response hd hr hs)
  have all : (walkOperation document .everything operation).Visits document fun slot =>
      (∃ declared ∈ operation.parameters, ∃ parameter : Parameter,
        (declared.resolve document).result = Except.ok parameter ∧ slot ∈ parameter.slots) ∨
      (∃ body, operation.requestBody = some body ∧ slot ∈ MediaType.schemas body.content) ∨
      ∃ declared ∈ operation.responses.values, ∃ response : Response,
        (declared.resolve document).result = Except.ok response ∧
          slot ∈ MediaType.schemas response.content := by
    unfold walkOperation
    cases hb : operation.requestBody with
    | none =>
      refine (parameters.bind fun _ => (Walk.Visits.pure ()).bind fun _ => responses).congr ?_
      simp
    | some body =>
      have content := walkContent_visits coherent fun slot hs => h slot (.requestBody hb hs)
      refine (parameters.bind fun _ => content.bind fun _ => responses).congr ?_
      simp
  refine all.congr fun slot => ?_
  constructor
  · rintro (⟨declared, hd, parameter, hp, hs⟩ | ⟨body, hb, hs⟩ | ⟨declared, hd, response, hr, hs⟩)
    · exact .operationParameter hd hp hs
    · exact .requestBody hb hs
    · exact .response hd hr hs
  · intro hs
    cases hs with
    | operationParameter hd hp hs => exact .inl ⟨_, hd, _, hp, hs⟩
    | requestBody hb hs => exact .inr (.inl ⟨_, hb, hs⟩)
    | response hd hr hs => exact .inr (.inr ⟨_, hd, _, hr, hs⟩)

/-- The walk of a path starts where that root says. -/
lemma walkPathItem_visits {item : PathItem}
    (h : ∀ slot, (WalkRoot.pathItem item).Starts document slot → document.Contains slot) :
    (walkPathItem document .everything item).Visits document
      ((WalkRoot.pathItem item).Starts document) := by
  have parameters := walkParameters_visits coherent fun declared hd parameter hp slot hs =>
    h slot (.pathParameter hd hp hs)
  have operations : (item.operations.forM fun entry =>
      walkOperation document .everything entry.2).Visits document fun slot =>
        ∃ entry ∈ item.operations, (WalkRoot.operation entry.2).Starts document slot :=
    .forM fun entry he => walkOperation_visits coherent fun slot hs => h slot (.pathOperation he hs)
  refine (parameters.bind fun _ => operations).congr fun slot => ?_
  constructor
  · rintro (⟨declared, hd, parameter, hp, hs⟩ | ⟨entry, he, hs⟩)
    · exact .pathParameter hd hp hs
    · exact .pathOperation he hs
  · intro hs
    cases hs with
    | pathParameter hd hp hs => exact .inl ⟨_, hd, _, hp, hs⟩
    | pathOperation he hs => exact .inr ⟨_, he, hs⟩

/-- A walk from a root of a document starts at the positions of that root. -/
theorem WalkRoot.Of.visits {root : WalkRoot} (h : root.Of document) :
    (root.walk document .everything).Visits document (root.Starts document) := by
  cases root with
  | slot own =>
    refine (walkSlot_visits coherent h).congr fun slot => ⟨?_, ?_⟩
    · rintro rfl
      exact .slot
    · rintro ⟨⟩
      rfl
  | schema schema =>
    refine (walkSlot_visits coherent h).congr fun slot => ⟨?_, ?_⟩
    · rintro rfl
      exact .schema
    · rintro ⟨⟩
      rfl
  | parameter parameter =>
    refine (walkParameter_visits coherent h).congr fun slot => ⟨.parameter, ?_⟩
    rintro ⟨⟩
    assumption
  | operation operation => exact walkOperation_visits coherent fun slot hs => h.contains hs
  | pathItem item => exact walkPathItem_visits coherent fun slot hs => h.contains hs
  | components =>
    have each := Walk.Visits.forM fun slot (hs : slot ∈ document.components.schemas.values) =>
      walkSlot_visits coherent (h.contains (.components hs))
    refine each.congr fun slot => ⟨?_, ?_⟩
    · rintro ⟨_, hs, rfl⟩
      exact .components hs
    · rintro ⟨⟩
      exact ⟨slot, ‹_›, rfl⟩
  | paths =>
    have each := Walk.Visits.forM fun item (hi : item ∈ document.paths.values) =>
      walkPathItem_visits coherent fun slot hs => h.contains (.paths hi hs)
    refine each.congr fun slot => ⟨?_, ?_⟩
    · rintro ⟨item, hi, hs⟩
      exact .paths hi hs
    · intro hs
      cases hs with
      | paths hi hs => exact ⟨_, hi, hs⟩

/-- The models of a version are collected from its paths, and from its components if all schemas are
asked for. -/
theorem Generator.collect_visits (generator : Generator) :
    (generator.collect document).Visits document fun slot =>
      WalkRoot.paths.Starts document slot ∨
        generator.allSchemas = true ∧ WalkRoot.components.Starts document slot := by
  have paths : WalkRoot.paths.Of document := trivial
  have components : WalkRoot.components.Of document := trivial
  refine (paths.visits coherent).bind fun _ => ?_
  split
  · rename_i all
    exact (components.visits coherent).congr fun slot => by simp [all]
  · rename_i some
    exact (Walk.Visits.pure ()).congr fun slot => by simp [some]

end Roots

omit [Spelling] in
/-- The positions at which collecting the models starts stand in the document. -/
lemma Generator.contains_of_starts {document : Document} {generator : Generator}
    {slot : SchemaSlot}
    (h : WalkRoot.paths.Starts document slot ∨
      generator.allSchemas = true ∧ WalkRoot.components.Starts document slot) : document.Contains slot := by
  rcases h with starts | ⟨-, starts⟩
  · have paths : WalkRoot.paths.Of document := trivial
    exact paths.contains starts
  · have components : WalkRoot.components.Of document := trivial
    exact components.contains starts

end OpenApiManifest
