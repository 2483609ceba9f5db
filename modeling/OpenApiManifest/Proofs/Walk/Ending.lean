import Mathlib.Data.Finset.Card
import OpenApiManifest.Proofs.Walk.Collecting

/-!
# Walks end

A call always comes to a smaller position, unless it registers a schema of the components that was not
registered before, and of those there are finitely many.  So the steps that a call needs are bounded
by the names that are left and the size of its position (`Call.need`), and with that many steps it does
not run out of them (`Call.ends`).
-/

namespace OpenApiManifest

namespace Schema

/-- Every schema has a size. -/
lemma size_pos (schema : Schema) : 0 < schema.size := by
  obtain ⟨info, kind⟩ := schema
  cases kind <;> simp [size]

/-- A slot is no larger than the schema that it resolves to. -/
lemma slotSize_le_of_resolve {document : Document} {slot : SchemaSlot} {schema : Schema}
    (h : (slot.resolve document).result = .ok schema) : slotSize slot ≤ schema.size := by
  cases slot with
  | owned own =>
    cases h
    exact Nat.le_refl _
  | ref reference => exact schema.size_pos

end Schema

section Need

variable (document : Document)

/-- The number of names of the components that are not registered. -/
def Registry.pending (registry : Registry) : Nat :=
  (document.components.schemas.keys.toFinset \ registry.names.toFinset).card

/-- The size of what a call is about, weighed so that each call comes to a lighter one. -/
def Call.weight : Call → Nat
  | .child slot _ _ => 3 * Schema.slotSize slot + 2
  | .nameless schema _ _ => 3 * schema.size + 1
  | .inside schema _ => 3 * schema.size
  | .member slot _ => 3 * Schema.slotSize slot + 1

/-- The number of steps that is left for each name of the components. -/
def Document.stride : Nat :=
  3 * Schema.propertiesSize document.components.schemas + 3

/-- The number of steps that a call needs at most. -/
def Call.need (registry : Registry) (call : Call) : Nat :=
  registry.pending document * document.stride + call.weight

variable {document}

/-- The more is registered the fewer names are left. -/
lemma Registry.pending_le {before after : Registry} (le : before.models <+: after.models) :
    after.pending document ≤ before.pending document := by
  apply Finset.card_le_card
  apply Finset.sdiff_subset_sdiff (Finset.Subset.refl _)
  intro name h
  rw [List.mem_toFinset] at h ⊢
  exact (le.map Prod.fst).subset h

/-- Registering a schema of the components leaves fewer names. -/
lemma Registry.pending_lt {registry : Registry} {name : String} {model : Registered}
    (known : name ∈ document.components.schemas.keys) (fresh : registry.get? name = none) :
    Registry.pending document ⟨registry.models ++ [(name, model)]⟩ < registry.pending document := by
  apply Finset.card_lt_card
  rw [Finset.ssubset_iff_of_subset]
  · refine ⟨name, ?_, ?_⟩
    · rw [Finset.mem_sdiff, List.mem_toFinset, List.mem_toFinset]
      exact ⟨known, Entries.get?_eq_none_iff.1 fresh⟩
    · simp [Registry.names, Entries.keys]
  · apply Finset.sdiff_subset_sdiff (Finset.Subset.refl _)
    intro other h
    rw [List.mem_toFinset] at h ⊢
    simp only [names, Entries.keys, List.map_append, List.mem_append]
    exact .inl h

/-- No more components are pending than there are. -/
lemma Registry.pending_le_length (registry : Registry) :
    registry.pending document ≤ document.components.schemas.length := by
  refine Nat.le_trans (Finset.card_le_card Finset.sdiff_subset) ?_
  refine Nat.le_trans (List.toFinset_card_le _) ?_
  rw [Entries.keys, List.length_map]

/-- The calls for what stands in a schema weigh less than the schema. -/
lemma Call.weight_lt_of_mem_calls [Spelling] {schema : Schema} {context : Option String} {later : Call}
    (h : later ∈ schema.calls context) : later.weight < 3 * schema.size := by
  obtain ⟨slot, hs, e⟩ := Schema.exists_slot_of_mem_calls h
  have lt := Schema.slotSize_lt_size hs
  cases later with
  | child => cases e; rw [weight]; omega
  | member => cases e; rw [weight]; omega
  | nameless => cases e
  | inside => cases e

/-- A call goes on with lighter calls, unless it registers a schema of the components. -/
lemma Call.weight_lt_of_plan [Spelling] {options : WalkOptions} (coherent : document.Coherent) {call : Call}
    {plan : Plan} (planned : (call.plan document options).result = .ok plan)
    (h : ∀ name model, plan.model? = some (name, model) → model.origin = .synthetic) :
    ∀ later ∈ plan.next, later.weight < call.weight := by
  intro later hl
  -- A schema of the components would be registered, so that only what stands in place is gone into.
  cases call with
  | child slot candidate owner =>
    obtain ⟨schema, hs, ⟨name, -, rfl⟩ | ⟨hn, rfl⟩⟩ := exists_of_plan_child planned
    · cases h name _ rfl
    · obtain rfl := coherent.eq_owned hs hn
      obtain rfl := List.mem_singleton.1 hl
      simp only [weight, Schema.slotSize]
      omega
  | nameless schema candidate owner =>
    rcases plan_nameless_cases planned with ⟨-, rfl⟩ | ⟨slot, hs, rfl⟩ | ⟨name, -, -, rfl⟩ | rfl
    · cases hl
    · have lt := Schema.slotSize_lt_size (hs ▸ List.mem_singleton_self slot)
      obtain rfl := List.mem_singleton.1 hl
      simp only [weight]
      omega
    · obtain rfl := Plan.eq_inside_of_mem_register hl
      exact Nat.lt_succ_self _
    · obtain rfl := List.mem_singleton.1 (options.mem_of_mem_onward hl)
      exact Nat.lt_succ_self _
  | inside schema context =>
    cases planned
    exact weight_lt_of_mem_calls hl
  | member slot context =>
    obtain ⟨schema, hs, ⟨name, -, rfl⟩ | ⟨hn, hp⟩⟩ := exists_of_plan_member planned
    · cases h name _ rfl
    · obtain rfl := coherent.eq_owned hs hn
      rcases hp with ⟨-, rfl⟩ | ⟨items, hi, rfl⟩ | rfl
      · cases hl
      · have lt := Schema.slotSize_lt_size (hi ▸ List.mem_singleton_self items)
        obtain rfl := List.mem_singleton.1 (options.mem_of_mem_onward hl)
        simp only [weight, Schema.slotSize]
        omega
      · obtain rfl := List.mem_singleton.1 (options.mem_of_mem_onward hl)
        exact Nat.lt_succ_self _

/-- What is inside a schema of the components is lighter than the stride. -/
lemma Call.weight_lt_stride {name : String} {schema : Schema} {context : Option String}
    (h : document.schema? name = some (.owned schema)) :
    (Call.inside schema context).weight < document.stride := by
  have stored : .owned schema ∈ document.components.schemas.values :=
    List.mem_map.2 ⟨_, Entries.mem_of_get? h, rfl⟩
  have le := Schema.slotSize_le_propertiesSize stored
  rw [Schema.slotSize] at le
  simp only [weight, Document.stride]
  omega

end Need

/-- Registering a model and then doing what follows ends, if what follows does once the model is added. -/
lemma Walk.register_ends {registry : Registry} (name : String) (model : Registered) {next : Walk Unit}
    (ends : registry.get? name = none →
      (next ⟨registry.models ++ [(name, model)]⟩).result ≠ .error .outOfSteps) :
    ((do if ← Walk.register name model.schema model.origin then next : Walk Unit) registry).result ≠
      .error .outOfSteps := by
  rcases Walk.register_cases registry name model with ⟨_, _, _, e⟩ | ⟨_, _, _, e⟩ | ⟨fresh, e⟩
  · rw [Walk.bind_apply_of_error e]
    nofun
  · rw [Walk.bind_apply_of_ok e]
    nofun
  · rw [Walk.bind_apply_of_ok e]
    exact ends fresh

section Ends

variable {document : Document} {options : WalkOptions} (coherent : document.Coherent)
include coherent

/-- The calls that follow the registration of a new model need fewer steps. -/
lemma Call.need_lt_of_register [Spelling] {call later : Call} {name : String} {model : Registered}
    {registry after : Registry}
    (planned : (call.plan document options).result = .ok (.register options name model))
    (proper : model.Proper document name) (fresh : registry.get? name = none)
    (le : registry.models ++ [(name, model)] <+: after.models)
    (hl : later ∈ model.calls options name) :
    later.need document after < call.need document registry := by
  have fewer : after.pending document ≤
      Registry.pending document ⟨registry.models ++ [(name, model)]⟩ := Registry.pending_le le
  cases ho : model.origin with
  | synthetic =>
    -- Nothing of the components was used up, but the walk goes on with what is inside the schema.
    have lighter := weight_lt_of_plan coherent planned (fun _ _ e => by cases e; exact ho) later hl
    have le : Registry.pending document ⟨registry.models ++ [(name, model)]⟩ ≤
        registry.pending document := Registry.pending_le (List.prefix_append _ _)
    have := Nat.mul_le_mul_right document.stride (Nat.le_trans fewer le)
    unfold need
    omega
  | component =>
    -- The call may be heavier than before, but one name of the components less is left.
    have named := proper.name?
    rw [ho] at named
    have stored := (coherent.name?_eq_some_iff proper.contains).1 named
    have known : name ∈ document.components.schemas.keys :=
      List.mem_map.2 ⟨_, Entries.mem_of_get? stored, rfl⟩
    obtain rfl := Plan.eq_inside_of_mem_register hl
    have light : (Call.inside model.schema (some name)).weight < document.stride :=
      weight_lt_stride stored
    have lt : Registry.pending document ⟨registry.models ++ [(name, model)]⟩ <
        registry.pending document := Registry.pending_lt known fresh
    have := Nat.mul_le_mul_right document.stride (Nat.le_trans (Nat.succ_le_succ fewer) lt)
    rw [Nat.succ_mul] at this
    unfold need
    omega

omit coherent in
/-- Making a plan does not run out of steps. -/
lemma Call.plan_ne_outOfSteps [Spelling] (call : Call) :
    (call.plan document options).result ≠ .error .outOfSteps := by
  cases call with
  | child slot candidate owner =>
    refine Run.bind_ne_outOfSteps Slot.resolve_ne_outOfSteps fun schema _ e => ?_
    split at e
    · cases e
    · cases e
  | nameless schema candidate owner =>
    intro e
    simp only [plan] at e
    split at e
    case h_4 =>
      split at e
      · cases e
      · cases e
      · cases e
    all_goals cases e
  | inside schema context =>
    intro e
    cases e
  | member slot context =>
    refine Run.bind_ne_outOfSteps Slot.resolve_ne_outOfSteps fun schema _ e => ?_
    split at e
    · cases e
    · split at e
      all_goals cases e

/-- Several calls end one after the other if each of them ends in every registry that they may come to. -/
lemma Call.forM_ends [Spelling] {steps : Nat} {calls : List Call} {registry : Registry}
    (proper : registry.Proper document) (within : ∀ call ∈ calls, call.Within document)
    (ends : ∀ call ∈ calls, ∀ after : Registry, after.Proper document →
      registry.models <+: after.models →
      (call.walk document options steps after).result ≠ .error .outOfSteps) :
    ((calls.forM (Call.walk document options steps)) registry).result ≠ .error .outOfSteps := by
  induction calls generalizing registry with
  | nil =>
    intro e
    cases e
  | cons call rest ih =>
    change ((call.walk document options steps >>= fun _ =>
      rest.forM (Call.walk document options steps)) registry).result ≠ _
    have first := ends call List.mem_cons_self registry proper (List.prefix_refl _)
    have visit : (call.walk document options steps registry).Collects document options registry
        (fun _ => False) fun c => c = call :=
      Call.collects coherent steps (within call List.mem_cons_self) registry proper _
    rcases hw : call.walk document options steps registry with ⟨after, found, halt | value⟩
    · rw [Walk.bind_apply_of_error hw]
      rw [hw] at first
      exact first
    · rw [Walk.bind_apply_of_ok hw]
      rw [hw] at visit
      -- The first call may have registered more, which leaves fewer names for the rest.
      refine ih visit.proper (fun call hc => within call (List.mem_cons_of_mem _ hc)) ?_
      intro call hc later proper le
      exact ends call (List.mem_cons_of_mem _ hc) later proper (visit.grows.trans le)

/-- Carrying out a plan ends with the steps that its call needs if the calls after it end with fewer. -/
lemma Call.carryOut_ends [Spelling] {steps : Nat} {call : Call} {plan : Plan} {registry : Registry}
    (planned : (call.plan document options).result = .ok plan) (within : call.Within document)
    (proper : registry.Proper document) (enough : call.need document registry ≤ steps)
    (ends : ∀ (later : Call) (after : Registry), later.Within document → after.Proper document →
      later.need document after < steps →
      (later.walk document options steps after).result ≠ .error .outOfSteps) :
    (plan.carryOut (Call.walk document options steps) registry).result ≠ .error .outOfSteps := by
  have here := within.plan planned
  obtain ⟨model?, next⟩ := plan
  cases model? with
  -- Nothing is registered, so that the call after it has to be lighter.
  | none =>
    refine Call.forM_ends coherent proper here.next fun later hl after proper le => ?_
    have lighter := weight_lt_of_plan coherent planned (fun _ _ e => by cases e) later hl
    have le : after.pending document ≤ registry.pending document := Registry.pending_le le
    have fewer := Nat.mul_le_mul_right document.stride le
    refine ends later after (here.next later hl) proper ?_
    unfold need at enough ⊢
    omega
  -- A model is registered.  If it is new, one name less is left, which makes up for the weight of its schema.
  | some entry =>
    obtain ⟨name, model⟩ := entry
    have planned' := planned
    rw [Call.eq_register_of_model planned rfl] at planned'
    obtain rfl : next = model.calls options name :=
      congrArg Plan.next (Call.eq_register_of_model planned rfl)
    have own := here.model name model rfl
    change ((do
      if ← Walk.register name model.schema model.origin then
        (model.calls options name).forM (Call.walk document options steps) : Walk Unit)
          registry).result ≠ _
    refine Walk.register_ends name model fun fresh => ?_
    refine Call.forM_ends coherent (proper.add fresh own) here.next fun later hl last proper le => ?_
    have lighter := need_lt_of_register coherent planned' own fresh le hl
    exact ends later last (here.next later hl) proper (Nat.lt_of_lt_of_le lighter enough)

/-- A call with the steps that it needs does not run out of them. -/
theorem Call.ends [Spelling] {steps : Nat} {call : Call} {registry : Registry} (within : call.Within document)
    (proper : registry.Proper document) (enough : call.need document registry < steps) :
    (call.walk document options steps registry).result ≠ .error .outOfSteps := by
  induction steps generalizing call registry with
  | zero => exact absurd enough (Nat.not_lt_zero _)
  | succ steps ih =>
    rw [walk_succ]
    rcases hp : call.plan document options with ⟨found, halt | plan⟩
    · rw [Walk.bind_apply_of_error (Walk.follow_apply _ _)]
      intro e
      cases e
      exact call.plan_ne_outOfSteps (congrArg Run.result hp)
    · rw [Walk.bind_apply_of_ok (Walk.follow_apply _ _)]
      exact carryOut_ends coherent (congrArg Run.result hp) within proper (Nat.le_of_lt_succ enough)
        fun later after within proper enough => ih within proper enough

omit coherent in
/-- A call that weighs no more than a schema of some size needs no more steps than there are for that size.
-/
lemma Document.need_le_steps {registry : Registry} {call : Call} {size : Nat}
    (h : call.weight ≤ 3 * size + 2) : call.need document registry ≤ document.steps size := by
  have few : registry.pending document ≤ document.components.schemas.length :=
    registry.pending_le_length
  have stride : document.stride ≤
      4 * (size + Schema.propertiesSize document.components.schemas + 2) := by
    unfold Document.stride
    omega
  calc
    call.need document registry
    _ ≤ document.components.schemas.length
          * (4 * (size + Schema.propertiesSize document.components.schemas + 2))
        + 2 * (4 * (size + Schema.propertiesSize document.components.schemas + 2)) := by
      refine Nat.add_le_add (Nat.mul_le_mul few stride) ?_
      omega
    _ = document.steps size := by
      unfold Document.steps
      rw [← Nat.add_mul, ← Nat.mul_assoc, Nat.mul_comm 4]

end Ends

end OpenApiManifest
