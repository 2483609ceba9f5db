import OpenApiManifest.Proofs.Faultless
import OpenApiManifest.Proofs.References
import OpenApiManifest.Proofs.Walk.Calls

/-!
# What a walk collects

A call keeps what was registered before it, and whatever it registers is proper: a schema of the
document, under its own name or nameless (`Call.collects`).  When a walk from the empty registry
succeeds, the registry holds exactly the models of the calls that are reached from its first ones
(`Walk.Collects.walked`), and the walk has found all references on their way (`Walk.Collects.gives_plan`).
The invariant that carries this is that every call that has ended is settled: its models are registered,
and so are those of the calls that it went on with, up to the next model.
-/

namespace OpenApiManifest

namespace Registry

variable {registry before after : Registry} {name : String} {model : Registered}

/-- What is registered stays so in a registry to which models are added at the end. -/
lemma get?_of_prefix (le : before.models <+: after.models) (h : before.get? name = some model) :
    after.get? name = some model := by
  obtain ⟨more, e⟩ := le
  rw [get?] at h ⊢
  rw [← e, Entries.get?_append, h, Option.some_or]

end Registry

/-- Registering a model fails where a schema of another place has the name, changes nothing where the schema has it
already, and adds the model at the end where nothing has it. -/
lemma Walk.register_cases (registry : Registry) (name : String) (model : Registered) :
    (∃ known, registry.get? name = some known ∧ known.schema.place ≠ model.schema.place ∧
      register name model.schema model.origin registry =
        ⟨registry, [], .error (.error (.ambiguous name known.schema.pointer model.schema.pointer))⟩) ∨
    (∃ known, registry.get? name = some known ∧ known.schema.place = model.schema.place ∧
      register name model.schema model.origin registry = ⟨registry, [], .ok false⟩) ∨
    (registry.get? name = none ∧
      register name model.schema model.origin registry =
        ⟨⟨registry.models ++ [(name, model)]⟩, [], .ok true⟩) := by
  cases held : registry.get? name with
  | some known =>
    by_cases same : known.schema.place = model.schema.place
    · refine .inr (.inl ⟨known, rfl, same, ?_⟩)
      simp only [register, Registry.register, held, if_pos same]
    · refine .inl ⟨known, rfl, same, ?_⟩
      simp only [register, Registry.register, held, if_neg same]
  | none =>
    refine .inr (.inr ⟨rfl, ?_⟩)
    simp only [register, Registry.register, held]

/-- A model that stands in a document and has its name, if it is a schema of the components, or none. -/
structure Registered.Proper (document : Document) (name : String) (model : Registered) : Prop where
  contains : document.Contains (.owned model.schema)
  name? : model.schema.name? = match model.origin with
    | .component => some name
    | .synthetic => none

/-- Two proper models with one name and one place are the same. -/
lemma Registered.Proper.unique {document : Document} {name : String} {model other : Registered}
    (coherent : document.Coherent) (h : model.Proper document name) (h' : other.Proper document name)
    (same : model.schema.place = other.schema.place) : model = other := by
  obtain ⟨schema, origin⟩ := model
  obtain ⟨schema', origin'⟩ := other
  obtain rfl : schema = schema' := coherent.eq_of_place h.contains h'.contains same
  have e := h.name?.symm.trans h'.name?
  cases origin <;> cases origin' <;> first | rfl | cases e

/-- The schema of a proper model has no other name than the model. -/
lemma Registered.Proper.eq_of_name? {document : Document} {name own : String} {model : Registered}
    (h : model.Proper document name) (named : model.schema.name? = some own) : own = name := by
  have e := named.symm.trans h.name?
  cases origin : model.origin with
  | component =>
    rw [origin] at e
    exact Option.some.inj e
  | synthetic =>
    rw [origin] at e
    cases e

/-- A registry of proper models under distinct names. -/
structure Registry.Proper (document : Document) (registry : Registry) : Prop where
  models : ∀ name model, (name, model) ∈ registry.models → model.Proper document name
  distinct : registry.names.Nodup

namespace Registry.Proper

variable {document : Document} {registry : Registry} {name : String} {model : Registered}

/-- A registry without models is proper. -/
lemma empty : Registry.empty.Proper document where
  models _ _ h := absurd h List.not_mem_nil
  distinct := List.nodup_nil

/-- In a proper registry a model is found under each name that it is registered under. -/
lemma get?_eq_some_iff (proper : registry.Proper document) :
    registry.get? name = some model ↔ (name, model) ∈ registry.models :=
  ⟨Entries.mem_of_get?, Entries.get?_of_mem proper.distinct⟩

/-- A proper registry stays so when a model is added under a name that is free. -/
lemma add (proper : registry.Proper document) (fresh : registry.get? name = none)
    (h : model.Proper document name) :
    Registry.Proper document ⟨registry.models ++ [(name, model)]⟩ where
  models other found hm := by
    rcases List.mem_append.1 hm with hm | hm
    · exact proper.models other found hm
    · cases List.mem_singleton.1 hm
      exact h
  distinct := by
    have absent := Entries.get?_eq_none_iff.1 fresh
    rw [names, Entries.keys, List.map_append, List.nodup_append]
    refine ⟨proper.distinct, List.pairwise_singleton _ _, fun own hown other hother => ?_⟩
    rintro rfl
    rw [List.mem_singleton.1 hother] at hown
    exact absent hown

end Registry.Proper

/-- The schemas that a call is about stand in a document, and those that it takes for nameless are. -/
def Call.Within (document : Document) : Call → Prop
  | .child slot _ _ | .member slot _ => document.Contains slot
  | .nameless schema _ _ => document.Contains (.owned schema) ∧ schema.name? = none
  | .inside schema _ => document.Contains (.owned schema)

/-- A plan for a document: the calls that it goes on with are about the document, and the model that it
registers is a proper one. -/
structure Plan.Within (document : Document) (plan : Plan) : Prop where
  next : ∀ later ∈ plan.next, later.Within document
  model : ∀ name model, plan.model? = some (name, model) → model.Proper document name

section Plans

variable {document : Document} {options : WalkOptions}

/-- The plan to register a proper model is one for its document. -/
lemma Registered.Proper.within_register {name : String} {model : Registered}
    (h : model.Proper document name) : (Plan.register options name model).Within document where
  next later hl := by
    obtain rfl := Plan.eq_inside_of_mem_register hl
    exact h.contains
  model := by
    rintro _ _ ⟨⟩
    exact h

/-- A plan that goes on with one call at most is one for the document of the call. -/
lemma Plan.within_of_next {calls : List Call} (h : ∀ later ∈ calls, later.Within document) :
    Plan.Within document ⟨none, calls⟩ where
  next := h
  model := nofun

/-- A plan that goes on with a call, if the walk goes on at all, is one for the document of the call. -/
lemma Plan.within_of_onward {later : Call} (h : later.Within document) :
    Plan.Within document ⟨none, options.onward [later]⟩ := by
  refine within_of_next fun call hc => ?_
  obtain rfl := List.mem_singleton.1 (options.mem_of_mem_onward hc)
  exact h

end Plans

variable [Spelling]

namespace Call

variable (document : Document) (options : WalkOptions)

/-- A call registers a model under a name. -/
def Registers (call : Call) (name : String) (model : Registered) : Prop :=
  ∃ plan, (call.plan document options).result = .ok plan ∧ plan.model? = some (name, model)

/-- A call goes on with a later one. -/
def Next (call later : Call) : Prop :=
  ∃ plan, (call.plan document options).result = .ok plan ∧ later ∈ plan.next

/-- The calls that are reached from some first ones. -/
inductive Reached (first : Call → Prop) : Call → Prop
  | first {call : Call} : first call → Reached first call
  | next {call later : Call} : Reached first call → Next document options call later →
    Reached first later

/-- A call that has ended: the references on its way are known, what it registers is registered, and if it
registers nothing the calls that it went on with have ended, too. -/
inductive Settled (registry : Registry) (known : Found → Prop) : Call → Prop
  | intro {call : Call} {plan : Plan} :
    (call.plan document options).Gives known plan →
    (∀ name model, plan.model? = some (name, model) → registry.get? name = some model) →
    (plan.model? = none → ∀ later ∈ plan.next, Settled registry known later) →
    Settled registry known call

variable {document options}

/-- The calls that a call which is reached goes on with are reached. -/
lemma Reached.of_plan {first : Call → Prop} {call later : Call} {plan : Plan}
    (h : Reached document options first call)
    (planned : (call.plan document options).result = .ok plan) (hl : later ∈ plan.next) :
    Reached document options first later :=
  .next h ⟨plan, planned, hl⟩

/-- What is reached from reached calls is reached. -/
lemma Reached.trans {first inner : Call → Prop} {call : Call}
    (h : Reached document options inner call)
    (start : ∀ call, inner call → Reached document options first call) :
    Reached document options first call := by
  induction h with
  | first h => exact start _ h
  | next _ hn ih => exact .next ih hn

/-- A call that has ended stays ended when more is registered and more is known. -/
lemma Settled.mono {before after : Registry} {known more : Found → Prop} {call : Call}
    (h : Settled document options before known call) (le : before.models <+: after.models)
    (still : ∀ found, known found → more found) : Settled document options after more call := by
  induction h with
  | intro planned kept _ ih =>
    refine .intro ⟨planned.result, fun found hf => still found (planned.found found hf)⟩ ?_ ih
    intro name model hm
    exact Registry.get?_of_prefix le (kept name model hm)

/-- A name that is built is registered by a call about a nameless schema that wants it. -/
lemma Registers.eq_nameless {call : Call} {name : String} {schema : Schema}
    (h : call.Registers document options name ⟨schema, .synthetic⟩) :
    schema.wantsName = true ∧ ∃ owner, call = .nameless schema (some name) owner := by
  obtain ⟨plan, planned, hm⟩ := h
  obtain rfl := eq_register_of_model planned hm
  cases call with
  | child slot candidate owner =>
    obtain ⟨found, -, ⟨own, -, e⟩ | ⟨-, e⟩⟩ := exists_of_plan_child planned <;> cases e
  | nameless own candidate owner =>
    rcases plan_nameless_cases planned with ⟨-, e⟩ | ⟨_, -, e⟩ | ⟨_, rfl, wants, e⟩ | e
    · cases e
    · cases e
    · cases e
      exact ⟨wants, owner, rfl⟩
    · cases e
  | inside own context => cases planned
  | member slot context =>
    obtain ⟨found, -, ⟨own, -, e⟩ | ⟨-, ⟨-, e⟩ | ⟨_, -, e⟩ | e⟩⟩ := exists_of_plan_member planned <;>
      cases e

/-- The calls for what stands in a schema of a document are within the document. -/
lemma within_of_mem_calls {schema : Schema} {context : Option String} {later : Call}
    (hs : document.Contains (.owned schema)) (hl : later ∈ schema.calls context) :
    later.Within document := by
  obtain ⟨slot, hm, e⟩ := Schema.exists_slot_of_mem_calls hl
  cases later with
  | child => cases e; exact hs.inside hm
  | member => cases e; exact hs.inside hm
  | nameless => cases e
  | inside => cases e

end Call

section Within

variable {document : Document} {options : WalkOptions}

/-- The plan of a call about a document is one for that document. -/
lemma Call.Within.plan {call : Call} {plan : Plan} (h : call.Within document)
    (planned : (call.plan document options).result = .ok plan) : plan.Within document := by
  cases call with
  | child slot candidate owner =>
    obtain ⟨schema, hs, hp⟩ := Call.exists_of_plan_child planned
    have contains := Document.Contains.resolve h hs
    rcases hp with ⟨name, hn, rfl⟩ | ⟨hn, rfl⟩
    · exact Registered.Proper.within_register ⟨contains, hn⟩
    · refine Plan.within_of_next fun later hl => ?_
      obtain rfl := List.mem_singleton.1 hl
      exact ⟨contains, hn⟩
  | nameless schema candidate owner =>
    obtain ⟨contains, hn⟩ := h
    rcases Call.plan_nameless_cases planned with ⟨-, rfl⟩ | ⟨slot, hs, rfl⟩ | ⟨name, -, -, rfl⟩ | rfl
    · exact Plan.within_of_next nofun
    · refine Plan.within_of_next fun later hl => ?_
      obtain rfl := List.mem_singleton.1 hl
      exact contains.inside (hs ▸ List.mem_singleton_self slot)
    · exact Registered.Proper.within_register ⟨contains, hn⟩
    · exact Plan.within_of_onward contains
  | inside schema context =>
    cases planned
    exact Plan.within_of_next fun later hl => Call.within_of_mem_calls h hl
  | member slot context =>
    obtain ⟨schema, hs, hp⟩ := Call.exists_of_plan_member planned
    have contains := Document.Contains.resolve h hs
    rcases hp with ⟨name, hn, rfl⟩ | ⟨-, ⟨-, rfl⟩ | ⟨items, hi, rfl⟩ | rfl⟩
    · exact Registered.Proper.within_register ⟨contains, hn⟩
    · exact Plan.within_of_next nofun
    · exact Plan.within_of_onward (contains.inside (hi ▸ List.mem_singleton_self items))
    · exact Plan.within_of_onward contains

/-- The calls that are reached are about the document if the first ones are. -/
lemma Call.Reached.within {first : Call → Prop} {call : Call}
    (reached : call.Reached document options first)
    (start : ∀ call, first call → call.Within document) : call.Within document := by
  induction reached with
  | first h => exact start _ h
  | next _ hn ih =>
    obtain ⟨plan, planned, hl⟩ := hn
    exact (ih.plan planned).next _ hl

end Within

/-- The references that are known after part of a walk: those that were known before, and those that it
found. -/
def Visit.Knows {α : Type} (visit : Visit α) (known : Found → Prop) (found : Found) : Prop :=
  known found ∨ found ∈ visit.found

/-- What part of a walk has done, if it was about some calls: it kept what was registered before, what
it registered is proper and stems from calls that are reached from those, and if it succeeded those
calls have ended, and so have those that follow each model that it registered. -/
structure Visit.Collects {α : Type} (document : Document) (options : WalkOptions) (before : Registry)
    (known : Found → Prop) (calls : Call → Prop) (visit : Visit α) : Prop where
  grows : before.models <+: visit.registry.models
  proper : visit.registry.Proper document
  entered : ∀ name model, (name, model) ∈ visit.registry.models → (name, model) ∈ before.models ∨
    ∃ call : Call, call.Reached document options calls ∧ call.Registers document options name model
  settled : ∀ value, visit.result = .ok value → ∀ call, calls call →
    call.Settled document options visit.registry (visit.Knows known)
  closed : ∀ value, visit.result = .ok value → ∀ name model,
    (name, model) ∈ visit.registry.models → (name, model) ∈ before.models ∨
      ∀ later ∈ model.calls options name,
        later.Settled document options visit.registry (visit.Knows known)

/-- A part of a walk that is about some calls, whatever was registered and known before. -/
def Walk.Collects {α : Type} (document : Document) (options : WalkOptions) (calls : Call → Prop)
    (walk : Walk α) : Prop :=
  ∀ registry : Registry, registry.Proper document → ∀ known : Found → Prop,
    (walk registry).Collects document options registry known calls

namespace Walk.Collects

variable {α β : Type} {document : Document} {options : WalkOptions} {calls more : Call → Prop}

/-- A part of a walk that fails before it registers anything is about any calls. -/
lemma halt {walk : Walk α} {reason : Halt}
    (h : ∀ registry, ∃ found, walk registry = ⟨registry, found, .error reason⟩) :
    walk.Collects document options calls := by
  intro registry proper known
  obtain ⟨found, e⟩ := h registry
  rw [e]
  exact
    { grows := List.prefix_refl _
      proper := proper
      entered := fun _ _ h => .inl h
      settled := nofun
      closed := nofun }

/-- A part of a walk that only gives a value is about no calls. -/
lemma pure (value : α) : (Pure.pure value : Walk α).Collects document options fun _ => False := by
  intro registry proper known
  exact
    { grows := List.prefix_refl _
      proper := proper
      entered := fun _ _ h => .inl h
      settled := fun _ _ _ h => h.elim
      closed := fun _ _ _ _ h => .inl h }

/-- Two parts of a walk are about the calls of both. -/
lemma bind {walk : Walk α} {next : α → Walk β} (h : walk.Collects document options calls)
    (hn : ∀ value, (next value).Collects document options more) :
    (walk >>= next).Collects document options fun call => calls call ∨ more call := by
  intro registry proper known
  have first := h registry proper known
  have start : ∀ {inner : Call → Prop} {call : Call}, (∀ call, inner call → calls call ∨ more call) →
      call.Reached document options inner →
      call.Reached document options fun call => calls call ∨ more call :=
    fun le reached => reached.trans fun call hc => .first (le call hc)
  rcases hw : walk registry with ⟨middle, found, halt | value⟩
  · rw [hw] at first
    rw [bind_apply_of_error hw]
    exact
      { grows := first.grows
        proper := first.proper
        entered := fun name model hm => (first.entered name model hm).imp_right
          fun ⟨call, reached, registers⟩ => ⟨call, start (fun _ => .inl) reached, registers⟩
        settled := nofun
        closed := nofun }
  · rw [hw] at first
    rw [bind_apply_of_ok hw]
    have second := hn value middle first.proper known
    have rest : ∀ {seen : Found}, (next value middle).Knows known seen →
        known seen ∨ seen ∈ found ++ (next value middle).found :=
      fun h => h.imp_right (List.mem_append_right _)
    have both : ∀ {seen : Found}, (known seen ∨ seen ∈ found) →
        known seen ∨ seen ∈ found ++ (next value middle).found :=
      fun h => h.imp_right (List.mem_append_left _)
    refine
      { grows := first.grows.trans second.grows
        proper := second.proper
        entered := fun name model hm => ?_
        settled := fun result hr call hc => ?_
        closed := fun result hr name model hm => ?_ }
    -- What the second part registers is its own, or what it found there from the first.
    · rcases second.entered name model hm with hm | ⟨call, reached, registers⟩
      · rcases first.entered name model hm with hm | ⟨call, reached, registers⟩
        · exact .inl hm
        · exact .inr ⟨call, start (fun _ => .inl) reached, registers⟩
      · exact .inr ⟨call, start (fun _ => .inr) reached, registers⟩
    · rcases hc with hc | hc
      · exact (first.settled value rfl call hc).mono second.grows fun _ => both
      · exact (second.settled result hr call hc).mono (List.prefix_refl _) fun _ => rest
    · rcases second.closed result hr name model hm with hm | hl
      · rcases first.closed value rfl name model hm with hm | hl
        · exact .inl hm
        · exact .inr fun later hc => (hl later hc).mono second.grows fun _ => both
      · exact .inr fun later hc => (hl later hc).mono (List.prefix_refl _) fun _ => rest

/-- A part of a walk is about whatever calls are the same. -/
lemma congr {walk : Walk α} (h : walk.Collects document options calls)
    (e : ∀ call, calls call ↔ more call) : walk.Collects document options more := by
  obtain rfl : calls = more := funext fun call => propext (e call)
  exact h

/-- Following a reference and going on with what it leads to is about the calls of the rest, for which the
references on the way are known. -/
lemma follow_bind {run : Run α} {next : α → Walk β}
    (h : ∀ value, run.result = .ok value → ∀ registry : Registry, registry.Proper document →
      ∀ known : Found → Prop, (∀ found ∈ run.found, known found) →
        (next value registry).Collects document options registry known calls) :
    (Walk.follow run >>= next).Collects document options calls := by
  rcases hr : run.result with reason | value
  · apply halt
    intro registry
    have e : (Walk.follow run) registry = ⟨registry, run.found, .error reason⟩ := by
      rw [follow_apply, hr]
    exact ⟨run.found, bind_apply_of_error e⟩
  · intro registry proper known
    have next := h value hr registry proper (fun found => known found ∨ found ∈ run.found)
      fun _ => .inr
    have e : (Walk.follow run) registry = ⟨registry, run.found, .ok value⟩ := by
      rw [follow_apply, hr]
    rw [bind_apply_of_ok e]
    have all : ∀ {seen : Found} {last : List Found}, ((known seen ∨ seen ∈ run.found) ∨ seen ∈ last) →
        known seen ∨ seen ∈ run.found ++ last := by
      intro seen last h
      rcases h with (before | here) | later
      · exact .inl before
      · exact .inr (List.mem_append_left _ here)
      · exact .inr (List.mem_append_right _ later)
    exact
      { grows := next.grows
        proper := next.proper
        entered := next.entered
        settled := fun result hv call hc =>
          (next.settled result hv call hc).mono (List.prefix_refl _) fun _ => all
        closed := fun result hv name model hm =>
          (next.closed result hv name model hm).imp_right fun hl later hc =>
            (hl later hc).mono (List.prefix_refl _) fun _ => all }

/-- Going through some values is about the calls of each of them. -/
lemma forM {values : List α} {next : α → Walk Unit} {calls : α → Call → Prop}
    (h : ∀ value ∈ values, (next value).Collects document options (calls value)) :
    (values.forM next).Collects document options fun call => ∃ value ∈ values, calls value call := by
  induction values with
  | nil => exact (pure ()).congr fun call => by simp
  | cons value rest ih =>
    have others := ih fun value hv => h value (List.mem_cons_of_mem _ hv)
    have both := (h value List.mem_cons_self).bind fun _ => others
    exact both.congr fun call => by simp

end Walk.Collects

section Calls

variable {document : Document} {options : WalkOptions}

/-- Registering the model of a call, and then doing what follows if the model is new. -/
lemma Visit.Collects.register {call : Call} {name : String} {model : Registered} {next : Walk Unit}
    {registry : Registry} {known : Found → Prop} (coherent : document.Coherent)
    (planned : (call.plan document options).Gives known (.register options name model))
    (h : model.Proper document name) (proper : registry.Proper document)
    (hn : next.Collects document options fun later => later ∈ model.calls options name) :
    Visit.Collects document options registry known (fun c => c = call) ((do
      if ← Walk.register name model.schema model.origin then next) registry) := by
  have registers : call.Registers document options name model := ⟨_, planned.result, rfl⟩
  rcases Walk.register_cases registry name model with ⟨_, _, _, e⟩ | ⟨own, hk, same, e⟩ | ⟨fresh, e⟩
  · rw [Walk.bind_apply_of_error e]
    exact
      { grows := List.prefix_refl _
        proper := proper
        entered := fun _ _ h => .inl h
        settled := nofun
        closed := nofun }
  · rw [Walk.bind_apply_of_ok e]
    -- The model that has the name has the same place, so it is this one.
    have known_eq : own = model :=
      (proper.models name own (Entries.mem_of_get? hk)).unique coherent h same
    exact
      { grows := List.prefix_refl _
        proper := proper
        entered := fun _ _ h => .inl h
        settled := fun _ _ c hc => by
          obtain rfl := hc
          refine .intro ⟨planned.result, fun found hf => .inl (planned.found found hf)⟩ ?_ nofun
          rintro _ _ ⟨⟩
          exact known_eq ▸ hk
        closed := fun _ _ _ _ h => .inl h }
  · rw [Walk.bind_apply_of_ok e]
    -- The walk goes on from the registry to which the model is added.
    have later := hn _ (proper.add fresh h) known
    have kept := later.proper.get?_eq_some_iff.2
      (later.grows.subset (List.mem_append_right _ (List.mem_singleton_self _)))
    have here : ∀ other found, (other, found) ∈ registry.models ++ [(name, model)] →
        (other, found) ∈ registry.models ∨ (other = name ∧ found = model) := by
      intro other found hm
      rcases List.mem_append.1 hm with hm | hm
      · exact .inl hm
      · exact .inr (Prod.mk.inj (List.mem_singleton.1 hm))
    exact
      { grows := (List.prefix_append _ _).trans later.grows
        proper := later.proper
        entered := fun other found hm => by
          rcases later.entered other found hm with hm | ⟨c, reached, registers'⟩
          · rcases here other found hm with hm | ⟨rfl, rfl⟩
            · exact .inl hm
            · exact .inr ⟨call, .first rfl, registers⟩
          · refine .inr ⟨c, reached.trans fun l hl => ?_, registers'⟩
            exact .next (.first rfl) ⟨_, planned.result, hl⟩
        settled := fun _ _ c hc => by
          obtain rfl := hc
          refine .intro ⟨planned.result, fun found hf => .inl (planned.found found hf)⟩ ?_ nofun
          rintro _ _ ⟨⟩
          exact kept
        closed := fun value hv other found hm => by
          rcases later.closed value hv other found hm with hm | hl
          · rcases here other found hm with hm | ⟨rfl, rfl⟩
            · exact .inl hm
            · exact .inr (later.settled value hv)
          · exact .inr hl }

/-- Carrying out the plan of a call, if carrying out the calls that follow is about those calls. -/
lemma Visit.Collects.carryOut {call : Call} {plan : Plan} {walk : Call → Walk Unit} {registry : Registry}
    {known : Found → Prop} (coherent : document.Coherent)
    (planned : (call.plan document options).Gives known plan) (within : plan.Within document)
    (proper : registry.Proper document)
    (h : ∀ later, later.Within document → (walk later).Collects document options fun c => c = later) :
    (plan.carryOut walk registry).Collects document options registry known fun c => c = call := by
  have next : (plan.next.forM walk).Collects document options fun c => c ∈ plan.next :=
    (Walk.Collects.forM fun later hl => h later (within.next later hl)).congr fun c => by simp
  obtain ⟨model?, calls⟩ := plan
  cases model? with
  | none =>
    have next := next registry proper known
    exact
      { grows := next.grows
        proper := next.proper
        entered := fun name model hm => (next.entered name model hm).imp_right
          fun ⟨c, reached, registers⟩ => ⟨c, reached.trans fun later hl =>
            .next (.first rfl) ⟨_, planned.result, hl⟩, registers⟩
        settled := fun value hv c hc => by
          obtain rfl := hc
          refine .intro ⟨planned.result, fun found hf => .inl (planned.found found hf)⟩ nofun ?_
          exact fun _ => next.settled value hv
        closed := next.closed }
  | some entry =>
    obtain ⟨name, model⟩ := entry
    have e := Call.eq_register_of_model planned.result rfl
    obtain rfl : calls = model.calls options name := congrArg Plan.next e
    exact register coherent planned (within.model name model rfl) proper next

/-- A call about a document collects what it is about. -/
theorem Call.collects (coherent : document.Coherent) (steps : Nat) {call : Call}
    (h : call.Within document) :
    (call.walk document options steps).Collects document options fun c => c = call := by
  -- By induction on the steps: the calls that a plan goes on with have one step less.
  induction steps generalizing call with
  | zero =>
    rw [walk_zero]
    exact .halt fun registry => ⟨[], rfl⟩
  | succ steps ih =>
    rw [walk_succ]
    refine .follow_bind fun plan planned registry proper known seen => ?_
    exact .carryOut coherent ⟨planned, seen⟩ (h.plan planned) proper fun later within => ih within

end Calls

/-- What is registered when a walk from the empty registry has succeeded: the models of the calls that
are reached from some first ones, none of which fails. -/
structure Registry.Walked (document : Document) (options : WalkOptions) (first : Call → Prop)
    (registry : Registry) : Prop where
  proper : registry.Proper document
  planned {call : Call} : call.Reached document options first →
    ∃ plan, (call.plan document options).result = .ok plan
  kept {call : Call} {name : String} {model : Registered} : call.Reached document options first →
    call.Registers document options name model → registry.get? name = some model
  entered {name : String} {model : Registered} : registry.get? name = some model →
    ∃ call : Call, call.Reached document options first ∧ call.Registers document options name model

namespace Walk.Collects

variable {α : Type} {document : Document} {options : WalkOptions} {first : Call → Prop} {walk : Walk α}
  {value : α}

/-- The calls that are reached by a walk from the empty registry that succeeds have ended. -/
lemma settled_of_reached (h : walk.Collects document options first)
    (hr : (walk .empty).result = .ok value) {call : Call}
    (reached : call.Reached document options first) :
    call.Settled document options (walk .empty).registry (· ∈ (walk .empty).found) := by
  have visit := h .empty .empty fun _ => False
  have found : ∀ seen, (walk .empty).Knows (fun _ => False) seen → seen ∈ (walk .empty).found :=
    fun _ seen => seen.resolve_left id
  induction reached with
  | first hc => exact (visit.settled value hr _ hc).mono (List.prefix_refl _) found
  | next _ hn ih =>
    obtain ⟨plan, planned, hl⟩ := hn
    cases ih with
    | @intro _ plan' planned' kept next =>
      obtain rfl : plan' = plan := Except.ok.inj (planned'.result.symm.trans planned)
      cases hm : plan'.model? with
      -- A call that registers nothing has settled those that follow; what follows a model is closed.
      | none => exact next hm _ hl
      | some entry =>
        obtain ⟨name, model⟩ := entry
        have held := visit.proper.get?_eq_some_iff.1 (kept name model hm)
        rw [Call.eq_register_of_model planned hm] at hl
        rcases visit.closed value hr name model held with absent | closed
        · cases absent
        · exact (closed _ hl).mono (List.prefix_refl _) found

/-- A walk from the empty registry that succeeds has found the references on the way of each call that is
reached. -/
theorem gives_plan (h : walk.Collects document options first) (hr : (walk .empty).result = .ok value)
    {call : Call} (reached : call.Reached document options first) :
    ∃ plan, (call.plan document options).Gives (· ∈ (walk .empty).found) plan := by
  cases h.settled_of_reached hr reached with
  | intro planned => exact ⟨_, planned⟩

/-- A walk from the empty registry that succeeds registers the models of the calls that are reached. -/
theorem walked (h : walk.Collects document options first) (hr : (walk .empty).result = .ok value) :
    (walk .empty).registry.Walked document options first where
  proper := (h .empty .empty fun _ => False).proper
  planned reached := by
    obtain ⟨plan, planned⟩ := h.gives_plan hr reached
    exact ⟨plan, planned.result⟩
  kept reached registers := by
    obtain ⟨plan, planned, hm⟩ := registers
    cases h.settled_of_reached hr reached with
    | @intro _ plan' planned' kept _ =>
      obtain rfl : plan' = plan := Except.ok.inj (planned'.result.symm.trans planned)
      exact kept _ _ hm
  entered held := by
    have visit := h .empty .empty fun _ => False
    rcases visit.entered _ _ (visit.proper.get?_eq_some_iff.1 held) with absent | entered
    · cases absent
    · exact entered

end Walk.Collects

end OpenApiManifest
