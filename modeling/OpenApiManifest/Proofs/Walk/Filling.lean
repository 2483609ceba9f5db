import OpenApiManifest.Proofs.Walk.Roots

/-!
# What a walk does to its registry

Whatever its options are, and whether it succeeds or not, a walk fills its registry: it adds models at
the end, each under a name that was not taken, and each for a call that is reached from the first ones
(`Registry.Filled`).  When it fails, a reference of its root leads nowhere (`WalkRoot.Breaks`), or one
of those calls fails (`Call.Fails`).  That is what the parts of a walk keep (`Walk.Keeps`), and so it
holds of the walks from all roots (`WalkRoot.fills`), none of which runs out of steps
(`WalkRoot.ends`).
-/

namespace OpenApiManifest

/-- A part of a walk that keeps what holds of the registry, and fails for certain reasons only. -/
def Walk.Keeps {α : Type} (holds : Registry → Prop) (fails : Registry → Halt → Prop)
    (walk : Walk α) : Prop :=
  ∀ registry, holds registry → holds (walk registry).registry ∧
    ∀ halt, (walk registry).result = .error halt → fails (walk registry).registry halt

namespace Walk.Keeps

variable {α β : Type} {holds : Registry → Prop} {fails : Registry → Halt → Prop}

/-- A part of a walk that only gives a value keeps everything. -/
lemma pure (value : α) : (Pure.pure value : Walk α).Keeps holds fails :=
  fun _ start => ⟨start, nofun⟩

/-- A part of a walk keeps what it keeps, also where more reasons to fail are admitted. -/
lemma weaken {walk : Walk α} {more : Registry → Halt → Prop} (h : walk.Keeps holds fails)
    (weaker : ∀ registry halt, fails registry halt → more registry halt) : walk.Keeps holds more := by
  intro registry start
  obtain ⟨kept, failed⟩ := h registry start
  exact ⟨kept, fun halt e => weaker _ halt (failed halt e)⟩

/-- Two parts of a walk keep together what each of them keeps. -/
lemma bind {walk : Walk α} {next : α → Walk β} (h : walk.Keeps holds fails)
    (hn : ∀ value, (next value).Keeps holds fails) : (walk >>= next).Keeps holds fails := by
  intro registry start
  obtain ⟨kept, failed⟩ := h registry start
  rcases hw : walk registry with ⟨middle, found, halt | value⟩
  · rw [hw] at kept failed
    rw [bind_apply_of_error hw]
    refine ⟨kept, fun reason e => failed reason ?_⟩
    cases e
    rfl
  · rw [hw] at kept
    rw [bind_apply_of_ok hw]
    exact hn value middle kept

/-- Following references leaves the registry alone. -/
lemma follow_bind {run : Run α} {next : α → Walk β}
    (failed : ∀ halt, run.result = .error halt → ∀ registry, holds registry → fails registry halt)
    (hn : ∀ value, run.result = .ok value → (next value).Keeps holds fails) :
    (Walk.follow run >>= next).Keeps holds fails := by
  intro registry start
  rcases run with ⟨found, halt | value⟩
  · rw [bind_apply_of_error (follow_apply _ _)]
    refine ⟨start, fun reason e => failed reason ?_ registry start⟩
    cases e
    rfl
  · rw [bind_apply_of_ok (follow_apply _ _)]
    exact hn value rfl registry start

/-- The parts of a walk for several values keep together what each of them keeps. -/
lemma forM {values : List α} {next : α → Walk Unit}
    (h : ∀ value ∈ values, (next value).Keeps holds fails) :
    (values.forM next).Keeps holds fails := by
  induction values with
  | nil => exact pure ()
  | cons value rest ih =>
    have others := ih fun value hv => h value (List.mem_cons_of_mem _ hv)
    exact (h value List.mem_cons_self).bind fun _ => others

end Walk.Keeps

/-- A reason for which a walk from a root fails that is none of its calls: a reference of its own leads
nowhere. -/
inductive WalkRoot.Breaks (document : Document) : WalkRoot → Halt → Prop
  | start {root : WalkRoot} {slot : SchemaSlot} {halt : Halt} :
    root.Starts document slot → (slot.resolve document).result = .error halt →
      Breaks document root halt
  | operationParameter {operation : Operation} {declared : Slot Parameter} {halt : Halt} :
    declared ∈ operation.parameters → (declared.resolve document).result = .error halt →
      Breaks document (.operation operation) halt
  | response {operation : Operation} {declared : Slot Response} {halt : Halt} :
    declared ∈ operation.responses.values → (declared.resolve document).result = .error halt →
      Breaks document (.operation operation) halt
  | pathParameter {item : PathItem} {declared : Slot Parameter} {halt : Halt} :
    declared ∈ item.parameters → (declared.resolve document).result = .error halt →
      Breaks document (.pathItem item) halt
  | pathOperation {item : PathItem} {method : Method} {operation : Operation} {halt : Halt} :
    (method, operation) ∈ item.operations → Breaks document (.operation operation) halt →
      Breaks document (.pathItem item) halt
  | paths {item : PathItem} {halt : Halt} :
    item ∈ document.paths.values → Breaks document (.pathItem item) halt → Breaks document .paths halt

/-- A root breaks a walk by a reference that leads nowhere. -/
lemma WalkRoot.Breaks.dangles {document : Document} {root : WalkRoot} {halt : Halt}
    (h : root.Breaks document halt) : halt.Dangles := by
  induction h with
  | start _ e => exact Slot.dangles_of_resolve e
  | operationParameter _ e => exact Slot.dangles_of_resolve e
  | response _ e => exact Slot.dangles_of_resolve e
  | pathParameter _ e => exact Slot.dangles_of_resolve e
  | pathOperation _ _ ih => exact ih
  | paths _ _ ih => exact ih

variable [Spelling]

section Roots

variable {document : Document} {options : WalkOptions} {holds : Registry → Prop}
  {fails : Registry → Halt → Prop}

/-- The walk of some parameters keeps what the walks from their positions keep. -/
lemma walkParameters_keeps {parameters : List (Slot Parameter)}
    (hb : ∀ declared ∈ parameters, ∀ halt, (declared.resolve document).result = .error halt →
      ∀ registry, holds registry → fails registry halt)
    (hs : ∀ declared ∈ parameters, ∀ parameter, (declared.resolve document).result = .ok parameter →
      ∀ slot ∈ parameter.slots, (walkSlot document options slot).Keeps holds fails) :
    (walkParameters document options parameters).Keeps holds fails := by
  refine .forM fun declared hd => .follow_bind (hb declared hd) fun parameter hp => ?_
  unfold walkParameter
  cases own : parameter.schema with
  | none => exact .pure ()
  | some slot => exact hs declared hd parameter hp slot (Option.mem_toList.2 own)

/-- The walk of an operation keeps what the walks from its positions keep. -/
lemma walkOperation_keeps {operation : Operation}
    (hb : ∀ halt, (WalkRoot.operation operation).Breaks document halt →
      ∀ registry, holds registry → fails registry halt)
    (hs : ∀ slot, (WalkRoot.operation operation).Starts document slot →
      (walkSlot document options slot).Keeps holds fails) :
    (walkOperation document options operation).Keeps holds fails := by
  have parameters : (walkParameters document options operation.parameters).Keeps holds fails := by
    apply walkParameters_keeps
    · intro declared hd halt e
      exact hb halt (.operationParameter hd e)
    · intro declared hd parameter hp slot hm
      exact hs slot (.operationParameter hd hp hm)
  have responses : (operation.responses.values.forM fun declared => do
      let response ← Walk.follow (declared.resolve document)
      walkContent document options response.content).Keeps holds fails := by
    refine .forM fun declared hd => .follow_bind ?_ fun response hr => ?_
    · intro halt e
      exact hb halt (.response hd e)
    · exact .forM fun slot hm => hs slot (.response hd hr hm)
  refine parameters.bind fun _ => ?_
  cases hr : operation.requestBody with
  | none => exact (Walk.Keeps.pure ()).bind fun _ => responses
  | some body =>
    have content : (walkContent document options body.content).Keeps holds fails :=
      .forM fun slot hm => hs slot (.requestBody hr hm)
    exact content.bind fun _ => responses

/-- The walk of a path keeps what the walks from its positions keep. -/
lemma walkPathItem_keeps {item : PathItem}
    (hb : ∀ halt, (WalkRoot.pathItem item).Breaks document halt →
      ∀ registry, holds registry → fails registry halt)
    (hs : ∀ slot, (WalkRoot.pathItem item).Starts document slot →
      (walkSlot document options slot).Keeps holds fails) :
    (walkPathItem document options item).Keeps holds fails := by
  have parameters : (walkParameters document options item.parameters).Keeps holds fails := by
    apply walkParameters_keeps
    · intro declared hd halt e
      exact hb halt (.pathParameter hd e)
    · intro declared hd parameter hp slot hm
      exact hs slot (.pathParameter hd hp hm)
  refine parameters.bind fun _ => .forM fun entry he => ?_
  apply walkOperation_keeps
  · intro halt h
    exact hb halt (.pathOperation he h)
  · intro slot h
    exact hs slot (.pathOperation he h)

/-- A walk from a root keeps what the walks from the positions keep at which the root starts. -/
theorem WalkRoot.keeps {root : WalkRoot}
    (hb : ∀ halt, root.Breaks document halt → ∀ registry, holds registry → fails registry halt)
    (hs : ∀ slot, root.Starts document slot → (walkSlot document options slot).Keeps holds fails) :
    (root.walk document options).Keeps holds fails := by
  cases root with
  | slot own => exact hs own .slot
  | schema schema => exact hs (.owned schema) .schema
  | parameter parameter =>
    rw [walk, walkParameter]
    cases own : parameter.schema with
    | none => exact .pure ()
    | some slot => exact hs slot (.parameter (Option.mem_toList.2 own))
  | operation operation => exact walkOperation_keeps hb hs
  | pathItem item => exact walkPathItem_keeps hb hs
  | components => exact .forM fun slot hm => hs slot (.components hm)
  | paths =>
    refine .forM fun item hi => walkPathItem_keeps ?_ ?_
    · intro halt h
      exact hb halt (.paths hi h)
    · intro slot h
      exact hs slot (.paths hi h)

end Roots

/-- A registry that was filled from an earlier one by the calls that are reached from some first ones. -/
inductive Registry.Filled (document : Document) (options : WalkOptions) (first : Call → Prop)
    (before : Registry) : Registry → Prop
  | refl : Filled document options first before before
  | add {registry : Registry} {call : Call} {name : String} {model : Registered} :
    Filled document options first before registry → call.Reached document options first →
      call.Registers document options name model → registry.get? name = none →
      Filled document options first before ⟨registry.models ++ [(name, model)]⟩

namespace Registry.Filled

variable {document : Document} {options : WalkOptions} {first : Call → Prop}
  {before after : Registry}

/-- Filling a registry keeps what it holds, in its order. -/
lemma grows (h : Filled document options first before after) : before.models <+: after.models := by
  induction h with
  | refl => exact List.prefix_refl _
  | add _ _ _ _ ih => exact ih.trans (List.prefix_append _ _)

/-- What is in a filled registry was there before, or stems from a call that is reached. -/
lemma entered (h : Filled document options first before after) {name : String} {model : Registered}
    (held : (name, model) ∈ after.models) :
    (name, model) ∈ before.models ∨
      ∃ call : Call, call.Reached document options first ∧
        call.Registers document options name model := by
  induction h with
  | refl => exact .inl held
  | @add _ call _ _ _ reached registers _ ih =>
    rcases List.mem_append.1 held with held | new
    · exact ih held
    · cases List.mem_singleton.1 new
      exact .inr ⟨call, reached, registers⟩

/-- Calls about a document fill a proper registry with proper models. -/
lemma proper (h : Filled document options first before after) (start : before.Proper document)
    (within : ∀ call, first call → call.Within document) : after.Proper document := by
  induction h with
  | refl => exact start
  | add _ reached registers fresh ih =>
    obtain ⟨plan, planned, hm⟩ := registers
    exact ih.add fresh (((reached.within within).plan planned).model _ _ hm)

end Registry.Filled

/-- There is no plan for a call only if a reference leads nowhere, or if the call is for a nameless
enumeration that has no name to take, a malformation where the enumeration stands. -/
lemma Call.plan_fails {document : Document} {options : WalkOptions} {call : Call} {halt : Halt}
    (h : (call.plan document options).result = .error halt) :
    halt.Dangles ∨ ∃ schema owner, call = .nameless schema none (some owner) ∧
      halt = .error (.malformed schema.pointer (.namelessEnum owner)) := by
  cases call with
  | child slot candidate owner =>
    rcases Run.bind_result_eq_error.1 h with dangles | ⟨schema, -, h⟩
    · exact .inl (Slot.dangles_of_resolve dangles)
    · split at h <;> cases h
  | nameless schema candidate owner =>
    simp only [plan] at h
    split at h
    case h_4 =>
      split at h
      case h_1 =>
        cases h
        exact .inr ⟨schema, _, rfl, rfl⟩
      all_goals cases h
    all_goals cases h
  | inside schema context => cases h
  | member slot context =>
    rcases Run.bind_result_eq_error.1 h with dangles | ⟨schema, -, h⟩
    · exact .inl (Slot.dangles_of_resolve dangles)
    · split at h
      · cases h
      · split at h <;> cases h

/-- A call that ends a walk: there is no plan for it, the name of its model is taken by a schema of
another place, or it has no steps left. -/
inductive Call.Fails (document : Document) (options : WalkOptions) (registry : Registry) (call : Call) :
    Halt → Prop
  | plan {halt : Halt} : (call.plan document options).result = .error halt →
    Fails document options registry call halt
  | taken {name : String} {model known : Registered} :
    call.Registers document options name model → registry.get? name = some known →
      known.schema.place ≠ model.schema.place →
      Fails document options registry call
        (.error (.ambiguous name known.schema.pointer model.schema.pointer))
  | outOfSteps : Fails document options registry call .outOfSteps

/-- A walk that is about some first calls was ended by one that is reached. -/
def Call.Ended (document : Document) (options : WalkOptions) (first : Call → Prop)
    (registry : Registry) (halt : Halt) : Prop :=
  ∃ call : Call, call.Reached document options first ∧ call.Fails document options registry halt

section Calls

variable {document : Document} {options : WalkOptions} {first : Call → Prop} {before : Registry}

/-- Registering the model of a call that is reached adds it, or fails with that call. -/
lemma Walk.register_fills {call : Call} {name : String} {model : Registered}
    (reached : call.Reached document options first)
    (registers : call.Registers document options name model) :
    (Walk.register name model.schema model.origin).Keeps (Registry.Filled document options first before)
      (Call.Ended document options first) := by
  intro registry filled
  rcases Walk.register_cases registry name model with ⟨known, hk, other, e⟩ | ⟨_, _, _, e⟩ | ⟨fresh, e⟩
  · rw [e]
    refine ⟨filled, fun halt failed => ?_⟩
    cases failed
    exact ⟨call, reached, .taken registers hk other⟩
  · rw [e]
    exact ⟨filled, nofun⟩
  · rw [e]
    exact ⟨filled.add reached registers fresh, nofun⟩

/-- Carrying out the plan of a call that is reached, if the calls that follow are carried out so. -/
lemma Call.carryOut_fills {call : Call} {plan : Plan} {walk : Call → Walk Unit}
    (reached : call.Reached document options first)
    (planned : (call.plan document options).result = .ok plan)
    (h : ∀ later : Call, later.Reached document options first →
      (walk later).Keeps (Registry.Filled document options first before)
        (Call.Ended document options first)) :
    (plan.carryOut walk).Keeps (Registry.Filled document options first before)
      (Call.Ended document options first) := by
  have next : (plan.next.forM walk).Keeps (Registry.Filled document options first before)
      (Call.Ended document options first) :=
    .forM fun later hl => h later (reached.of_plan planned hl)
  obtain ⟨model?, calls⟩ := plan
  cases model? with
  | none => exact next
  | some entry =>
    obtain ⟨name, model⟩ := entry
    refine (Walk.register_fills reached ⟨_, planned, rfl⟩).bind fun new => ?_
    cases new with
    | true => exact next
    | false => exact .pure ()

/-- A call that is reached fills the registry, or is ended by a call that is reached. -/
theorem Call.fills (steps : Nat) {call : Call} (reached : call.Reached document options first) :
    (call.walk document options steps).Keeps (Registry.Filled document options first before)
      (Call.Ended document options first) := by
  -- By induction on the steps: the calls that a plan goes on with have one step less.
  induction steps generalizing call with
  | zero =>
    rw [walk_zero]
    intro registry filled
    refine ⟨filled, fun halt e => ?_⟩
    cases e
    exact ⟨call, reached, .outOfSteps⟩
  | succ steps ih =>
    rw [walk_succ]
    refine .follow_bind (fun halt e registry _ => ⟨call, reached, .plan e⟩) fun plan planned => ?_
    exact carryOut_fills reached planned fun later going => ih going

end Calls

/-- The calls with which a walk opens that starts at some positions.  It goes into a schema of the
components at once if its options leave the root out, or do not let it go on into what it registers. -/
inductive Call.Opens (document : Document) (starts : SchemaSlot → Prop) : Call → Prop
  | slot {slot : SchemaSlot} : starts slot → Opens document starts (.child slot none none)
  | inside {slot : SchemaSlot} {schema : Schema} {name : String} : starts slot →
    (slot.resolve document).result = .ok schema → schema.name? = some name →
      Opens document starts (.inside schema (some name))

omit [Spelling] in
/-- A walk that starts at positions of a document opens with calls about the document. -/
lemma Call.Opens.within {document : Document} {starts : SchemaSlot → Prop} {call : Call}
    (h : Call.Opens document starts call) (hs : ∀ slot, starts slot → document.Contains slot) :
    call.Within document := by
  cases h with
  | slot h => exact hs _ h
  | inside h resolves _ => exact Document.Contains.resolve (hs _ h) resolves

section Starts

variable {document : Document} {options : WalkOptions} {starts : SchemaSlot → Prop}
  {before : Registry}

/-- A walk from the schema at a position opens with the calls for that position. -/
lemma walkSchema_fills {slot : SchemaSlot} {schema : Schema} (h : starts slot)
    (hs : (slot.resolve document).result = .ok schema) :
    (walkSchema document options schema).Keeps
      (Registry.Filled document options (Call.Opens document starts) before)
      (Call.Ended document options (Call.Opens document starts)) := by
  have start : (Call.child slot none none).Reached document options (Call.Opens document starts) :=
    .first (.slot h)
  unfold walkSchema
  cases hn : schema.name? with
  | none =>
    have going : (Call.nameless schema none none).Reached document options
        (Call.Opens document starts) :=
      start.of_plan (Call.plan_child_of_nameless hs hn) (List.mem_singleton_self _)
    exact Call.fills (document.steps schema.size) going
  | some name =>
    have inside : (Call.inside schema (some name)).Reached document options
        (Call.Opens document starts) := .first (.inside h hs hn)
    have descends : (descend document options (document.steps schema.size) schema (some name)).Keeps
        (Registry.Filled document options (Call.Opens document starts) before)
        (Call.Ended document options (Call.Opens document starts)) :=
      Call.fills (document.steps schema.size) inside
    dsimp only
    split
    · have registers : (Call.child slot none none).Registers document options name
          ⟨schema, .component⟩ := ⟨_, Call.plan_child_of_name hs hn, rfl⟩
      refine (Walk.register_fills start registers).bind fun new => ?_
      cases new with
      | true => exact descends
      | false => exact .pure ()
    · exact descends

/-- A walk from a root fills the registry by the calls with which it opens. -/
theorem WalkRoot.fills {root : WalkRoot} (hs : ∀ slot, root.Starts document slot → starts slot) :
    (root.walk document options).Keeps
      (Registry.Filled document options (Call.Opens document starts) before)
      (fun registry halt => root.Breaks document halt ∨
        Call.Ended document options (Call.Opens document starts) registry halt) := by
  apply WalkRoot.keeps
  · intro halt broken registry _
    exact .inl broken
  · intro slot starts_
    refine .follow_bind (fun halt e registry _ => .inl (.start starts_ e)) fun schema resolves => ?_
    intro registry filled
    have visit := walkSchema_fills (hs slot starts_) resolves registry filled
    exact ⟨visit.1, fun halt e => .inr (visit.2 halt e)⟩

end Starts

section Ends

variable {document : Document} (coherent : document.Coherent) {options : WalkOptions}
include coherent

/-- A walk from a schema of a document comes to an end. -/
lemma walkSchema_ends {schema : Schema} {registry : Registry}
    (contains : document.Contains (.owned schema)) (proper : registry.Proper document) :
    (walkSchema document options schema registry).result ≠ .error .outOfSteps := by
  -- A root has the steps for a call to the position of its schema, and the walk starts one call later.
  have enough : ∀ after : Registry,
      (Call.child (.owned schema) none none).need document after ≤ document.steps schema.size :=
    fun after => Document.need_le_steps (Nat.le_refl _)
  unfold walkSchema
  cases hn : schema.name? with
  | none =>
    have within : (Call.nameless schema none none).Within document := ⟨contains, hn⟩
    have lighter : (Call.nameless schema none none).need document registry <
        (Call.child (.owned schema) none none).need document registry :=
      Nat.add_lt_add_left (Nat.lt_succ_self _) _
    exact Call.ends coherent within proper (Nat.lt_of_lt_of_le lighter (enough registry))
  | some name =>
    have descends : ∀ after : Registry, after.Proper document →
        (descend document options (document.steps schema.size) schema (some name) after).result ≠
          .error .outOfSteps := by
      intro after proper
      have within : (Call.inside schema (some name)).Within document := contains
      have lighter : (Call.inside schema (some name)).need document after <
          (Call.child (.owned schema) none none).need document after :=
        Nat.add_lt_add_left (Nat.lt_add_of_pos_right (Nat.succ_pos 1)) _
      exact Call.ends coherent within proper (Nat.lt_of_lt_of_le lighter (enough after))
    dsimp only
    split
    · exact Walk.register_ends name ⟨schema, .component⟩ fun fresh =>
        descends _ (proper.add fresh ⟨contains, hn⟩)
    · exact descends registry proper

/-- A walk from a root of a document keeps the registry proper and comes to an end. -/
theorem WalkRoot.Of.ends {root : WalkRoot} (h : root.Of document) :
    (root.walk document options).Keeps (Registry.Proper document) fun _ halt => halt ≠ .outOfSteps := by
  apply WalkRoot.keeps
  · intro halt broken registry _
    rintro rfl
    cases broken.dangles
  · intro slot starts
    have contains := h.contains starts
    refine .follow_bind ?_ fun schema resolves => ?_
    · rintro halt e registry _ rfl
      exact Slot.resolve_ne_outOfSteps e
    · intro registry proper
      have visit : Registry.Filled document options (Call.Opens document document.Contains) registry
          (walkSchema document options schema registry).registry :=
        (walkSchema_fills contains resolves registry .refl).1
      refine ⟨visit.proper proper fun call opens => opens.within fun _ => id, ?_⟩
      rintro halt e rfl
      exact walkSchema_ends coherent (contains.resolve resolves) proper e

end Ends

end OpenApiManifest
