import OpenApiManifest.Proofs.References
import OpenApiManifest.Proofs.Runs
import OpenApiManifest.Registry.Walk

/-!
# The calls of a walk

A walk is made of calls of its parts.  Each call has a plan (`Call.plan`): the model that it registers,
if it registers one, and the calls that it goes on with.  A call with steps left carries its plan out
(`Call.walk_succ`), so all that is to be known of the parts of a walk is in their plans.
-/

namespace OpenApiManifest

namespace Walk

variable {α β : Type}

/-- After a first part that succeeds, the second part goes on with its value and its registry. -/
lemma bind_apply_of_ok {walk : Walk α} {next : α → Walk β} {registry after : Registry}
    {found : List Found} {value : α} (h : walk registry = ⟨after, found, .ok value⟩) :
    (walk >>= next) registry =
      ⟨(next value after).registry, found ++ (next value after).found, (next value after).result⟩ := by
  change andThen walk next registry = _
  simp only [andThen, h]

/-- A part of a walk that fails ends it. -/
lemma bind_apply_of_error {walk : Walk α} {next : α → Walk β} {registry after : Registry}
    {found : List Found} {halt : Halt} (h : walk registry = ⟨after, found, .error halt⟩) :
    (walk >>= next) registry = ⟨after, found, .error halt⟩ := by
  change andThen walk next registry = _
  simp only [andThen, h]

/-- Parts of walks may be grouped in any way. -/
instance : LawfulMonad Walk :=
  LawfulMonad.mk' Walk
    (by
      intro α walk
      funext registry
      change (walk >>= fun value => pure value) registry = _
      rcases h : walk registry with ⟨after, found, halt | value⟩
      · rw [bind_apply_of_error h]
      · rw [bind_apply_of_ok h, pure_apply, List.append_nil])
    (by
      intro α β value next
      rfl)
    (by
      intro α β γ walk next last
      funext registry
      rcases h : walk registry with ⟨after, found, halt | value⟩
      · rw [bind_apply_of_error h, bind_apply_of_error (bind_apply_of_error h)]
      · rw [bind_apply_of_ok h]
        rcases hn : next value after with ⟨after', found', halt | value'⟩
        · have first : (walk >>= next) registry = ⟨after', found ++ found', .error halt⟩ := by
            rw [bind_apply_of_ok h, hn]
          rw [bind_apply_of_error first, bind_apply_of_error hn]
        · have first : (walk >>= next) registry = ⟨after', found ++ found', .ok value'⟩ := by
            rw [bind_apply_of_ok h, hn]
          rw [bind_apply_of_ok first, bind_apply_of_ok hn, List.append_assoc])

/-- Work in two parts is followed part by part. -/
@[simp] lemma follow_bind (run : Run α) (next : α → Run β) :
    follow (run >>= next) = (follow run >>= fun value => follow (next value)) := by
  funext registry
  change (⟨registry, (run.andThen next).found, (run.andThen next).result⟩ : Visit β) = _
  rcases run with ⟨found, halt | value⟩
  · rw [bind_apply_of_error (follow_apply _ _)]
    rfl
  · rw [bind_apply_of_ok (follow_apply _ _)]
    rfl

/-- Work that only gives a value is followed by giving the value. -/
@[simp] lemma follow_pure (value : α) : follow (pure value) = pure value := rfl

end Walk

/-- A call of a part of a walk. -/
inductive Call where
  | child (slot : SchemaSlot) (candidate owner : Option String)
  | nameless (schema : Schema) (candidate owner : Option String)
  | inside (schema : Schema) (context : Option String)
  | member (slot : SchemaSlot) (context : Option String)

/-- The position that a call is for. -/
def Call.slot? : Call → Option SchemaSlot
  | .child slot _ _ | .member slot _ => some slot
  | .nameless .. | .inside .. => none

/-- What a call is about to do: the model that it registers, and the calls that it goes on with, which
it does after registering a model only if the model is new. -/
structure Plan where
  model? : Option (String × Registered)
  next : List Call

/-- The calls that are left out if a walk does not go on into schemas. -/
def WalkOptions.onward (options : WalkOptions) (calls : List Call) : List Call :=
  if options.recursive then calls else []

/-- A walk goes on with some of the calls that it may go on with, and with no others. -/
lemma WalkOptions.mem_of_mem_onward (options : WalkOptions) {call : Call} {calls : List Call}
    (h : call ∈ options.onward calls) : call ∈ calls := by
  unfold onward at h
  split at h
  · exact h
  · cases h

/-- The calls that a walk goes on with where it has registered a new model. -/
def Registered.calls (options : WalkOptions) (name : String) (model : Registered) : List Call :=
  match model.origin, model.schema.kind with
  | .synthetic, .enum _ => []
  | _, _ => options.onward [.inside model.schema (some name)]

/-- Where a walk of everything does not go on after it has registered a model there are no positions. -/
lemma Registered.slots_eq_nil_of_calls {name : String} {model : Registered}
    (h : model.calls .everything name = []) : model.schema.slots = [] := by
  unfold calls at h
  split at h
  · rename_i hk
    rw [Schema.slots, hk]
    rfl
  · cases h

/-- A walk of everything goes on into a new model that is no enumeration. -/
lemma Registered.calls_of_tag {name : String} {model : Registered} (h : model.schema.tag ≠ .enum) :
    model.calls .everything name = [.inside model.schema (some name)] := by
  unfold calls
  split
  · rename_i enum
    rw [Schema.tag, enum] at h
    exact absurd rfl h
  · rfl

namespace Plan

/-- The plan to register a model. -/
def register (options : WalkOptions) (name : String) (model : Registered) : Plan :=
  ⟨some (name, model), model.calls options name⟩

/-- After a model is registered, a walk goes on inside its schema only, under its name. -/
lemma eq_inside_of_mem_register {options : WalkOptions} {name : String} {model : Registered}
    {later : Call} (h : later ∈ (register options name model).next) :
    later = .inside model.schema (some name) := by
  change later ∈ model.calls options name at h
  unfold Registered.calls at h
  split at h
  · cases h
  · exact List.mem_singleton.1 (options.mem_of_mem_onward h)

/-- The plan for a nameless schema, which is registered if it wants a name and there is one for it. -/
def forNameless (options : WalkOptions) (schema : Schema) (candidate : Option String) : Plan :=
  match schema.wantsName, candidate with
  | true, some name => .register options name ⟨schema, .synthetic⟩
  | _, _ => ⟨none, options.onward [.inside schema candidate]⟩

/-- Carries a plan out with a way to carry out calls. -/
def carryOut (walk : Call → Walk Unit) (plan : Plan) : Walk Unit :=
  match plan.model? with
  | none => plan.next.forM walk
  | some (name, model) => do
    if ← Walk.register name model.schema model.origin then plan.next.forM walk

end Plan

/-- The plan for a nameless schema that may become a model registers it or goes on into it. -/
lemma Call.forNameless_cases {options : WalkOptions} (schema : Schema) (candidate : Option String) :
    (∃ name, candidate = some name ∧ schema.wantsName = true ∧
        Plan.forNameless options schema candidate = .register options name ⟨schema, .synthetic⟩) ∨
      Plan.forNameless options schema candidate = ⟨none, options.onward [.inside schema candidate]⟩ := by
  unfold Plan.forNameless
  split
  · rename_i name wants
    exact .inl ⟨name, rfl, wants, rfl⟩
  · exact .inr rfl

variable [Spelling]

/-- The calls for the positions directly inside a schema. -/
def Schema.calls (schema : Schema) (context : Option String) : List Call :=
  match schema.kind with
  | .object properties _ additional =>
    properties.map (fun entry => .child entry.2 (context.map (Naming.syntheticName · entry.1)) context)
      ++ additional.slot?.toList.map (.child · none context)
  | .array items _ _ => [.child items (context.map Naming.itemName) context]
  | .allOf members => members.map (.member · context)
  | .oneOf members | .anyOf members => members.map (.member · none)
  | .enum _ | .primitive .. => []

/-- There is one call for each position directly inside a schema. -/
lemma Schema.map_slot?_calls (schema : Schema) (context : Option String) :
    (schema.calls context).map Call.slot? = schema.slots.map some := by
  unfold calls slots SchemaKind.slots
  cases schema.kind with
  | object properties required additional =>
    simp [Call.slot?, Entries.values, Function.comp_def]
  | oneOf members => simp [Call.slot?, Function.comp_def]
  | allOf members => simp [Call.slot?, Function.comp_def]
  | anyOf members => simp [Call.slot?, Function.comp_def]
  | _ => rfl

/-- The calls for what is inside a schema are for positions directly inside it. -/
lemma Schema.exists_slot_of_mem_calls {schema : Schema} {context : Option String} {later : Call}
    (h : later ∈ schema.calls context) : ∃ slot ∈ schema.slots, later.slot? = some slot := by
  have mem : later.slot? ∈ schema.slots.map some := by
    rw [← schema.map_slot?_calls context]
    exact List.mem_map.2 ⟨later, h, rfl⟩
  obtain ⟨slot, hs, e⟩ := List.mem_map.1 mem
  exact ⟨slot, hs, e.symm⟩

namespace Call

variable (document : Document) (options : WalkOptions)

/-- The plan of a call. -/
def plan : Call → Run Plan
  | .child slot candidate owner => do
    let schema ← slot.resolve document
    match schema.name? with
    | some name => return .register options name ⟨schema, .component⟩
    | none => return ⟨none, [.nameless schema candidate owner]⟩
  | .nameless schema candidate owner =>
    match schema.kind with
    | .allOf [only] => return ⟨none, [.child only candidate owner]⟩
    | .primitive .. => return ⟨none, []⟩
    | .array items _ _ => return ⟨none, [.child items candidate owner]⟩
    | .enum _ =>
      match candidate, owner with
      | none, some owner => .fail (.malformed schema.pointer (.namelessEnum owner))
      | none, none => return ⟨none, []⟩
      | some name, _ => return .register options name ⟨schema, .synthetic⟩
    | _ => return .forNameless options schema candidate
  | .inside schema context => return ⟨none, schema.calls context⟩
  | .member slot context => do
    let schema ← slot.resolve document
    match schema.name? with
    | some name => return .register options name ⟨schema, .component⟩
    | none =>
      match schema.kind with
      | .array items _ _ => return ⟨none, options.onward [.child items none none]⟩
      | .enum _ | .primitive .. => return ⟨none, []⟩
      | _ => return ⟨none, options.onward [.inside schema context]⟩

variable {document options}

/-- The plan of a call for a position finds the references of the position. -/
lemma found_plan {call : Call} {slot : SchemaSlot} (h : call.slot? = some slot) :
    (call.plan document options).found = (slot.resolve document).found := by
  cases call with
  | child own candidate owner =>
    cases h
    refine Run.found_bind_of_nil fun schema => ?_
    cases schema.name? <;> rfl
  | member own context =>
    cases h
    refine Run.found_bind_of_nil fun schema => ?_
    cases schema.name? with
    | some name => rfl
    | none => cases schema.kind <;> rfl
  | nameless => cases h
  | inside => cases h

/-- The plan for a position, by the schema to which the position resolves. -/
lemma exists_of_plan_child {slot : SchemaSlot} {candidate owner : Option String} {plan : Plan}
    (h : ((child slot candidate owner).plan document options).result = .ok plan) :
    ∃ schema, (slot.resolve document).result = .ok schema ∧
      ((∃ name, schema.name? = some name ∧ plan = .register options name ⟨schema, .component⟩) ∨
        (schema.name? = none ∧ plan = ⟨none, [.nameless schema candidate owner]⟩)) := by
  obtain ⟨schema, hs, h⟩ := Run.bind_result_eq_ok.1 h
  refine ⟨schema, hs, ?_⟩
  cases hn : schema.name? with
  | some name =>
    rw [hn] at h
    exact .inl ⟨name, rfl, (Except.ok.inj h).symm⟩
  | none =>
    rw [hn] at h
    exact .inr ⟨rfl, (Except.ok.inj h).symm⟩

/-- At a position whose schema has a name, the plan is to register the schema under it. -/
lemma plan_child_of_name {slot : SchemaSlot} {candidate owner : Option String} {schema : Schema}
    {name : String} (hs : (slot.resolve document).result = .ok schema)
    (hn : schema.name? = some name) :
    ((child slot candidate owner).plan document options).result =
      .ok (.register options name ⟨schema, .component⟩) := by
  refine Run.bind_result_eq_ok.2 ⟨schema, hs, ?_⟩
  rw [hn]
  rfl

/-- At a position whose schema has no name, the plan is to go on with the nameless schema. -/
lemma plan_child_of_nameless {slot : SchemaSlot} {candidate owner : Option String} {schema : Schema}
    (hs : (slot.resolve document).result = .ok schema) (hn : schema.name? = none) :
    ((child slot candidate owner).plan document options).result =
      .ok ⟨none, [.nameless schema candidate owner]⟩ := by
  refine Run.bind_result_eq_ok.2 ⟨schema, hs, ?_⟩
  rw [hn]
  rfl

/-- The plan for a nameless object, choice or composition that does not stand for its only member is that for
schemas that may become models. -/
lemma plan_nameless_of_tag {schema : Schema} {candidate owner : Option String}
    (hk : schema.tag = .object ∨ schema.tag = .oneOf ∨ schema.tag = .anyOf ∨
      schema.tag = .allOf ∧ schema.onlyMember? = none) :
    ((nameless schema candidate owner).plan document options).result =
      .ok (.forNameless options schema candidate) := by
  unfold Schema.tag Schema.onlyMember? at hk
  simp only [Call.plan]
  split <;> simp_all

/-- The plan for a nameless schema. -/
lemma plan_nameless_cases {schema : Schema} {candidate owner : Option String} {plan : Plan}
    (h : ((nameless schema candidate owner).plan document options).result = .ok plan) :
    (schema.slots = [] ∧ plan = ⟨none, []⟩) ∨
      (∃ slot, schema.slots = [slot] ∧ plan = ⟨none, [.child slot candidate owner]⟩) ∨
      (∃ name, candidate = some name ∧ schema.wantsName = true ∧
        plan = .register options name ⟨schema, .synthetic⟩) ∨
      plan = ⟨none, options.onward [.inside schema candidate]⟩ := by
  simp only [Call.plan] at h
  unfold Schema.slots
  split at h
  case h_1 only hk =>
    cases h
    rw [hk]
    exact .inr (.inl ⟨only, rfl, rfl⟩)
  case h_2 hk =>
    cases h
    rw [hk]
    exact .inl ⟨rfl, rfl⟩
  case h_3 items _ _ hk =>
    cases h
    rw [hk]
    exact .inr (.inl ⟨items, rfl, rfl⟩)
  case h_4 values hk =>
    cases candidate with
    | some name =>
      cases h
      refine .inr (.inr (.inl ⟨name, rfl, ?_, rfl⟩))
      simp [Schema.wantsName, hk]
    | none =>
      cases owner with
      | none =>
        cases h
        rw [hk]
        exact .inl ⟨rfl, rfl⟩
      | some owner => cases h
  case h_5 =>
    cases h
    rcases forNameless_cases schema candidate with named | going
    · exact .inr (.inr (.inl named))
    · exact .inr (.inr (.inr going))

/-- The plan for a member, by the schema to which the member resolves. -/
lemma exists_of_plan_member {slot : SchemaSlot} {context : Option String} {plan : Plan}
    (h : ((member slot context).plan document options).result = .ok plan) :
    ∃ schema, (slot.resolve document).result = .ok schema ∧
      ((∃ name, schema.name? = some name ∧ plan = .register options name ⟨schema, .component⟩) ∨
        (schema.name? = none ∧ ((schema.slots = [] ∧ plan = ⟨none, []⟩) ∨
          (∃ items, schema.slots = [items] ∧ plan = ⟨none, options.onward [.child items none none]⟩) ∨
          plan = ⟨none, options.onward [.inside schema context]⟩))) := by
  obtain ⟨schema, hs, h⟩ := Run.bind_result_eq_ok.1 h
  refine ⟨schema, hs, ?_⟩
  cases hn : schema.name? with
  | some name =>
    rw [hn] at h
    exact .inl ⟨name, rfl, (Except.ok.inj h).symm⟩
  | none =>
    rw [hn] at h
    refine .inr ⟨rfl, ?_⟩
    unfold Schema.slots
    cases hk : schema.kind with
    | array items _ _ =>
      rw [hk] at h
      cases h
      exact .inr (.inl ⟨items, rfl, rfl⟩)
    | enum values =>
      rw [hk] at h
      cases h
      exact .inl ⟨rfl, rfl⟩
    | primitive type constraints =>
      rw [hk] at h
      cases h
      exact .inl ⟨rfl, rfl⟩
    | _ =>
      rw [hk] at h
      cases h
      exact .inr (.inr rfl)

/-- At a member whose schema has a name, the plan is to register the schema under it. -/
lemma plan_member_of_name {slot : SchemaSlot} {context : Option String} {schema : Schema}
    {name : String} (hs : (slot.resolve document).result = .ok schema)
    (hn : schema.name? = some name) :
    ((member slot context).plan document options).result =
      .ok (.register options name ⟨schema, .component⟩) := by
  refine Run.bind_result_eq_ok.2 ⟨schema, hs, ?_⟩
  rw [hn]
  rfl

/-- At a nameless member that is an object, a choice or a composition, the plan is to go on inside it. -/
lemma plan_member_of_tag {slot : SchemaSlot} {context : Option String} {schema : Schema}
    (hs : (slot.resolve document).result = .ok schema) (hn : schema.name? = none)
    (hk : schema.tag = .object ∨ schema.tag = .oneOf ∨ schema.tag = .anyOf ∨ schema.tag = .allOf) :
    ((member slot context).plan document options).result =
      .ok ⟨none, options.onward [.inside schema context]⟩ := by
  refine Run.bind_result_eq_ok.2 ⟨schema, hs, ?_⟩
  rw [hn]
  unfold Schema.tag at hk
  dsimp only
  split <;> simp_all

/-- A plan with a model is the plan to register that model. -/
lemma eq_register_of_model {call : Call} {plan : Plan} {name : String} {model : Registered}
    (planned : (call.plan document options).result = .ok plan)
    (h : plan.model? = some (name, model)) : plan = .register options name model := by
  cases call with
  | child slot candidate owner =>
    obtain ⟨schema, -, ⟨_, -, rfl⟩ | ⟨-, rfl⟩⟩ := exists_of_plan_child planned
    · cases h
      rfl
    · cases h
  | nameless schema candidate owner =>
    rcases plan_nameless_cases planned with ⟨-, rfl⟩ | ⟨_, -, rfl⟩ | ⟨_, -, -, rfl⟩ | rfl
    · cases h
    · cases h
    · cases h
      rfl
    · cases h
  | inside schema context =>
    cases planned
    cases h
  | member slot context =>
    obtain ⟨schema, -, ⟨_, -, rfl⟩ | ⟨-, ⟨-, rfl⟩ | ⟨_, -, rfl⟩ | rfl⟩⟩ :=
      exists_of_plan_member planned
    · cases h
      rfl
    · cases h
    · cases h
    · cases h

variable (document options)

/-- Carries a call out within some steps. -/
def walk (steps : Nat) : Call → Walk Unit
  | .child slot candidate owner => visitChild document options steps slot candidate owner
  | .nameless schema candidate owner => visitNameless document options steps schema candidate owner
  | .inside schema context => descend document options steps schema context
  | .member slot context => visitMember document options steps slot context

omit [Spelling] in
/-- The calls that are left out are not carried out. -/
lemma forM_onward (walk : Call → Walk Unit) (call : Call) :
    (options.onward [call]).forM walk = if options.recursive then walk call else pure () := by
  unfold WalkOptions.onward
  split <;> simp

omit [Spelling] in
/-- Registering a model and going on into it. -/
lemma carryOut_register (walk : Call → Walk Unit) (name : String) (model : Registered)
    (h : model.calls options name = options.onward [.inside model.schema (some name)]) :
    Plan.carryOut walk (.register options name model) = (do
      if (← Walk.register name model.schema model.origin) && options.recursive then
        walk (.inside model.schema (some name))) := by
  simp only [Plan.carryOut, Plan.register, h, forM_onward]
  refine congrArg _ (funext fun new => ?_)
  cases new with
  | false => rfl
  | true => rw [Bool.true_and, if_pos rfl]

omit [Spelling] in
/-- How a nameless schema is gone on with if it may become a model of its own. -/
lemma carryOut_forNameless (walk : Call → Walk Unit) (schema : Schema) (candidate : Option String)
    (h : ∀ values, schema.kind ≠ .enum values) :
    Plan.carryOut walk (.forNameless options schema candidate) =
      if schema.wantsName then
        match candidate with
        | some name => do
          if (← Walk.register name schema .synthetic) && options.recursive then
            walk (.inside schema (some name))
        | none => if options.recursive then walk (.inside schema none) else return
      else if options.recursive then walk (.inside schema candidate)
      else return := by
  unfold Plan.forNameless
  cases schema.wantsName with
  | false => rw [if_neg Bool.false_ne_true, Plan.carryOut, forM_onward]
  | true =>
    rw [if_pos rfl]
    cases candidate with
    | none => rw [Plan.carryOut, forM_onward]
    | some name =>
      have calls : Registered.calls options name ⟨schema, .synthetic⟩ =
          options.onward [.inside schema (some name)] := by
        unfold Registered.calls
        split
        · rename_i hk
          exact absurd hk (h _)
        · rfl
      exact carryOut_register options walk name ⟨schema, .synthetic⟩ calls

/-- Without steps a call comes to nothing. -/
lemma walk_zero (call : Call) : call.walk document options 0 = .follow .outOfSteps := by
  cases call with
  | child => rfl
  | nameless => rfl
  | inside => rfl
  | member => rfl

/-- A call with steps left carries its plan out. -/
theorem walk_succ (steps : Nat) (call : Call) :
    call.walk document options (steps + 1) =
      (Walk.follow (call.plan document options) >>=
        Plan.carryOut (walk document options steps)) := by
  cases call with
  | child slot candidate owner =>
    rw [walk, visitChild, plan, Walk.follow_bind, bind_assoc]
    refine congrArg _ (funext fun schema => ?_)
    cases schema.name? with
    | none => simp [Plan.carryOut, walk]
    | some name =>
      exact (carryOut_register options (walk document options steps) name ⟨schema, .component⟩ rfl).symm
  | nameless schema candidate owner =>
    simp only [walk, visitNameless, plan]
    have named := carryOut_forNameless options (walk document options steps) schema candidate
    cases hk : schema.kind with
    | primitive type constraints => rfl
    | array items _ _ => simp [Plan.carryOut, walk]
    | enum values =>
      cases candidate with
      | none => cases owner <;> rfl
      | some name => simp [Plan.carryOut, Plan.register, Registered.calls, hk]
    -- These become models or are gone into, all in one way.
    | object properties required additional => exact (named (by simp [hk])).symm
    | oneOf members => exact (named (by simp [hk])).symm
    | anyOf members => exact (named (by simp [hk])).symm
    | allOf members =>
      cases members with
      | nil => exact (named (by simp [hk])).symm
      | cons first rest =>
        cases rest with
        | nil => simp [Plan.carryOut, walk]
        | cons second rest => exact (named (by simp [hk])).symm
  | inside schema context =>
    rw [walk, descend, plan, Walk.follow_pure, pure_bind]
    unfold Schema.calls
    cases schema.kind with
    | object properties required additional =>
      dsimp only
      cases additional.slot? with
      | none => simp [Plan.carryOut, walk]
      | some value => simp [Plan.carryOut, walk]
    | array items _ _ => simp [Plan.carryOut, walk]
    | enum values => rfl
    | primitive type constraints => rfl
    | oneOf members => simp [Plan.carryOut, walk]
    | allOf members => simp [Plan.carryOut, walk]
    | anyOf members => simp [Plan.carryOut, walk]
  | member slot context =>
    rw [walk, visitMember, plan, Walk.follow_bind, bind_assoc]
    refine congrArg _ (funext fun schema => ?_)
    cases schema.name? with
    | none =>
      cases schema.kind with
      | enum values => simp [Plan.carryOut]
      | primitive type constraints => simp [Plan.carryOut]
      | _ => simp [Plan.carryOut, forM_onward, walk]
    | some name =>
      exact (carryOut_register options (walk document options steps) name ⟨schema, .component⟩ rfl).symm

end Call

end OpenApiManifest
