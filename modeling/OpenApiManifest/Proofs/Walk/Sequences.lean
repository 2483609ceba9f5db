import OpenApiManifest.Proofs.Walk.Filling

/-!
# Walks one after another

Walks may go on with the registry that earlier ones have left, with options of their own, and whether
those succeeded or not.  At every point the registry holds schemas of the components under their names
and nameless schemas that need one, what is registered stays where it is, and a name is ambiguous only
if two schemas of the document claim it (`Registry.collect_sound`).  A schema claims the names under
which a walk of everything would register it that comes to its position (`Registered.Claims`); walks
with other options come to no other calls (`Call.Reached.of_opens`).
-/

namespace OpenApiManifest

/-- What is left of a plan where a walk does not go on into schemas. -/
structure Plan.PartOf (plan whole : Plan) : Prop where
  model? : whole.model? = plan.model?
  next : ∀ later ∈ plan.next, later ∈ whole.next

namespace Plan.PartOf

variable {options : WalkOptions}

/-- A plan is part of itself. -/
lemma refl (plan : Plan) : plan.PartOf plan where
  model? := rfl
  next _ h := h

/-- Going on with fewer calls is part of going on with all. -/
lemma onward (calls : List Call) :
    PartOf ⟨none, options.onward calls⟩ ⟨none, WalkOptions.everything.onward calls⟩ where
  model? := rfl
  next _ h := options.mem_of_mem_onward h

/-- Registering a model without going on is part of registering it and going on. -/
lemma register (name : String) (model : Registered) :
    PartOf (.register options name model) (.register .everything name model) where
  model? := rfl
  next later h := by
    change later ∈ model.calls options name at h
    change later ∈ model.calls .everything name
    unfold Registered.calls at h ⊢
    split at h
    · cases h
    · exact options.mem_of_mem_onward h

/-- What is planned for a nameless schema under some options is part of what is planned for everything. -/
lemma forNameless (schema : Schema) (candidate : Option String) :
    PartOf (.forNameless options schema candidate) (.forNameless .everything schema candidate) := by
  unfold Plan.forNameless
  split
  · exact register _ _
  · exact onward _

end Plan.PartOf

section Spelled

variable [Spelling]

section Options

variable {document : Document} {options : WalkOptions}

/-- Where a walk has a plan for a call, a walk of everything has one of which that is a part. -/
lemma Call.exists_plan_everything {call : Call} {plan : Plan}
    (planned : (call.plan document options).result = .ok plan) :
    ∃ whole, (call.plan document .everything).result = .ok whole ∧ plan.PartOf whole := by
  -- Only what is registered and what is gone into depends on the options; every other plan is the same.
  cases call with
  | child slot candidate owner =>
    obtain ⟨schema, hs, ⟨name, hn, rfl⟩ | ⟨hn, rfl⟩⟩ := exists_of_plan_child planned
    · exact ⟨_, plan_child_of_name hs hn, .register _ _⟩
    · exact ⟨_, plan_child_of_nameless hs hn, .refl _⟩
  | nameless schema candidate owner =>
    simp only [Call.plan] at planned ⊢
    split at planned
    · cases planned
      exact ⟨_, rfl, .refl _⟩
    · cases planned
      exact ⟨_, rfl, .refl _⟩
    · cases planned
      exact ⟨_, rfl, .refl _⟩
    · cases candidate with
      | some name =>
        cases planned
        exact ⟨_, rfl, .register _ _⟩
      | none =>
        cases owner with
        | none =>
          cases planned
          exact ⟨_, rfl, .refl _⟩
        | some owner => cases planned
    · cases planned
      exact ⟨_, rfl, .forNameless _ _⟩
  | inside schema context =>
    cases planned
    exact ⟨_, rfl, .refl _⟩
  | member slot context =>
    obtain ⟨schema, hs, planned⟩ := Run.bind_result_eq_ok.1 planned
    cases hn : schema.name? with
    | some name =>
      rw [hn] at planned
      cases planned
      exact ⟨_, plan_member_of_name hs hn, .register _ _⟩
    | none =>
      rw [hn] at planned
      simp only [Call.plan, Run.bind_result_eq_ok]
      cases hk : schema.kind with
      | enum _ | primitive _ _ =>
        rw [hk] at planned
        cases planned
        refine ⟨_, ⟨schema, hs, ?_⟩, .refl _⟩
        rw [hn, hk]
        rfl
      | _ =>
        rw [hk] at planned
        cases planned
        refine ⟨_, ⟨schema, hs, ?_⟩, .onward _⟩
        rw [hn, hk]
        rfl

/-- Where a walk of everything has a plan for a call, so has a walk with other options. -/
lemma Call.exists_plan_of_everything {call : Call} {whole : Plan}
    (planned : (call.plan document .everything).result = .ok whole) :
    ∃ plan, (call.plan document options).result = .ok plan := by
  cases call with
  | child slot candidate owner =>
    obtain ⟨schema, hs, -⟩ := exists_of_plan_child planned
    cases hn : schema.name? with
    | some name => exact ⟨_, plan_child_of_name hs hn⟩
    | none => exact ⟨_, plan_child_of_nameless hs hn⟩
  | nameless schema candidate owner =>
    simp only [Call.plan] at planned ⊢
    split at planned
    case h_4 =>
      split at planned
      · cases planned
      · exact ⟨_, rfl⟩
      · exact ⟨_, rfl⟩
    all_goals exact ⟨_, rfl⟩
  | inside schema context => exact ⟨_, rfl⟩
  | member slot context =>
    obtain ⟨schema, hs, -⟩ := exists_of_plan_member planned
    cases hn : schema.name? with
    | some name => exact ⟨_, plan_member_of_name hs hn⟩
    | none =>
      simp only [Call.plan, Run.bind_result_eq_ok]
      refine exists_comm.1 ⟨schema, ?_⟩
      simp only [hs, hn, true_and]
      split
      all_goals exact ⟨_, rfl⟩

/-- What a call registers it registers in a walk of everything. -/
lemma Call.Registers.everything {call : Call} {name : String} {model : Registered}
    (h : call.Registers document options name model) :
    call.Registers document .everything name model := by
  obtain ⟨plan, planned, hm⟩ := h
  obtain ⟨whole, complete, part⟩ := exists_plan_everything planned
  exact ⟨whole, complete, part.model?.trans hm⟩

/-- The calls with which a walk opens are those to which a walk of everything comes from the same
positions. -/
lemma Call.Opens.reached {starts : SchemaSlot → Prop} {call : Call}
    (h : Call.Opens document starts call) :
    call.Reached document .everything (Call.From starts) := by
  cases h with
  | slot h => exact .first ⟨_, h, rfl⟩
  | @inside slot schema name h hs hn =>
    have start : (Call.child slot none none).Reached document .everything (Call.From starts) :=
      .first ⟨slot, h, rfl⟩
    exact start.of_plan (plan_child_of_name hs hn) (List.mem_singleton_self _)

/-- A walk comes to no calls to which a walk of everything does not come from the same positions. -/
lemma Call.Reached.of_opens {starts : SchemaSlot → Prop} {call : Call}
    (h : call.Reached document options (Call.Opens document starts)) :
    call.Reached document .everything (Call.From starts) := by
  induction h with
  | first h => exact h.reached
  | next _ hn ih =>
    obtain ⟨plan, planned, hl⟩ := hn
    obtain ⟨whole, complete, part⟩ := exists_plan_everything planned
    exact ih.of_plan complete (part.next _ hl)

end Options

/-- A model claims a name: a walk of everything that comes to its position from some position of the
document registers it there under the name. -/
def Registered.Claims (document : Document) (name : String) (model : Registered) : Prop :=
  ∃ call : Call, call.Reached document .everything (Call.From document.Contains) ∧
    call.Registers document .everything name model

/-- The shapes of schemas that need a model of their own, and so a name if they have none. -/
inductive Schema.NeedsName : Schema → Prop
  | enum {info : SchemaInfo} {values : List EnumValue} : NeedsName ⟨info, .enum values⟩
  | oneOf {info : SchemaInfo} {members : List SchemaSlot} : NeedsName ⟨info, .oneOf members⟩
  | object {info : SchemaInfo} {properties : Entries SchemaSlot} {required : List String}
    {additional : AdditionalProperties SchemaSlot} :
    properties ≠ [] → NeedsName ⟨info, .object properties required additional⟩
  | allOf {info : SchemaInfo} {members : List SchemaSlot} :
    2 ≤ members.length → NeedsName ⟨info, .allOf members⟩

omit [Spelling] in
/-- A schema that wants a name needs one. -/
lemma Schema.needsName_of_wantsName {schema : Schema} (h : schema.wantsName = true) :
    schema.NeedsName := by
  obtain ⟨info, kind⟩ := schema
  unfold wantsName at h
  cases kind with
  | enum values => exact .enum
  | oneOf members => exact .oneOf
  | object properties required additional =>
    refine .object ?_
    rintro rfl
    cases h
  | allOf members => exact .allOf (of_decide_eq_true h)
  | primitive type constraints => cases h
  | array items minItems maxItems => cases h
  | anyOf members => cases h

/-- A model under a name that is right for it: a schema of the components under its own name, or a
nameless schema of the document that needs one. -/
inductive Registered.Sound (document : Document) : String → Registered → Prop
  | component {name : String} {schema : Schema} : document.schema? name = some (.owned schema) →
    Sound document name ⟨schema, .component⟩
  | synthetic {name : String} {schema : Schema} : document.Contains (.owned schema) →
    schema.name? = none → schema.NeedsName → Sound document name ⟨schema, .synthetic⟩

/-- Only nameless schemas that need a name are registered under one that is built. -/
lemma Call.Registers.needsName {document : Document} {options : WalkOptions} {call : Call}
    {name : String} {schema : Schema}
    (h : call.Registers document options name ⟨schema, .synthetic⟩) : schema.NeedsName :=
  Schema.needsName_of_wantsName h.eq_nameless.1

namespace Registered.Claims

variable {document : Document} {name : String} {model : Registered}

/-- What a walk registers that starts at positions of a document claims its name there. -/
lemma of_reached {options : WalkOptions} {call : Call}
    (reached : call.Reached document options (Call.Opens document document.Contains))
    (registers : call.Registers document options name model) : model.Claims document name :=
  ⟨call, reached.of_opens, registers.everything⟩

/-- A model that claims a name is a proper one. -/
lemma proper (h : model.Claims document name) : model.Proper document name := by
  obtain ⟨call, reached, plan, planned, hm⟩ := h
  have within : call.Within document := by
    refine reached.within ?_
    rintro _ ⟨slot, contains, rfl⟩
    exact contains
  exact (within.plan planned).model name model hm

/-- A model that claims a name is right for it. -/
lemma sound (coherent : document.Coherent) (h : model.Claims document name) :
    model.Sound document name := by
  have proper := h.proper
  obtain ⟨call, -, registers⟩ := h
  obtain ⟨schema, origin⟩ := model
  cases origin with
  | component =>
    have named : schema.name? = some name := proper.name?
    exact .component ((coherent.name?_eq_some_iff proper.contains).1 named)
  | synthetic =>
    have nameless : schema.name? = none := proper.name?
    exact .synthetic proper.contains nameless registers.needsName

end Registered.Claims

/-- A walk from a root of a document opens with calls for positions of the document. -/
lemma WalkRoot.Of.fills {document : Document} {root : WalkRoot} (of : root.Of document)
    (options : WalkOptions) (registry : Registry) :
    Registry.Filled document options (Call.Opens document document.Contains) registry
        (root.walk document options registry).registry ∧
      ∀ halt, (root.walk document options registry).result = .error halt →
        root.Breaks document halt ∨ Call.Ended document options
          (Call.Opens document document.Contains) (root.walk document options registry).registry halt :=
  WalkRoot.fills (fun _ starts => of.contains starts) registry .refl

/-- Collects the models of a document by walks from some roots, each with its own options.  A walk that
fails leaves behind what it registered. -/
def Registry.collect (document : Document) (walks : List (WalkRoot × WalkOptions)) : Registry :=
  walks.foldl (fun registry walk => (walk.1.walk document walk.2 registry).registry) .empty

/-- A registry of models that claim their names, under distinct names. -/
structure Registry.Claimed (document : Document) (registry : Registry) : Prop where
  claims : ∀ name model, (name, model) ∈ registry.models → model.Claims document name
  distinct : registry.names.Nodup

namespace Registry.Claimed

variable {document : Document} {registry : Registry}

/-- A registry without models holds models that claim their names. -/
lemma empty : Registry.empty.Claimed document where
  claims _ _ h := absurd h List.not_mem_nil
  distinct := List.nodup_nil

/-- A registry of models that claim their names is proper. -/
lemma proper (claimed : registry.Claimed document) : registry.Proper document where
  models name model h := (claimed.claims name model h).proper
  distinct := claimed.distinct

/-- A walk from a root of the document adds models that claim their names, whether it succeeds or not. -/
lemma walk (claimed : registry.Claimed document) {root : WalkRoot} (of : root.Of document)
    (options : WalkOptions) :
    Registry.Filled document options (Call.Opens document document.Contains) registry
        (root.walk document options registry).registry ∧
      (root.walk document options registry).registry.Claimed document := by
  have filled := (of.fills options registry).1
  have proper := filled.proper claimed.proper fun call opens => opens.within fun _ => id
  refine ⟨filled, ?_, proper.distinct⟩
  intro name model held
  rcases filled.entered held with earlier | ⟨call, reached, registers⟩
  · exact claimed.claims name model earlier
  · exact .of_reached reached registers

/-- A name is ambiguous only if two models claim it, the first of which is registered. -/
lemma exists_of_ambiguous (claimed : registry.Claimed document) {root : WalkRoot}
    (of : root.Of document) {options : WalkOptions} {name first second : String}
    (failed : (root.walk document options registry).result =
      .error (.error (.ambiguous name first second))) :
    ∃ known rival : Registered, known.Claims document name ∧ rival.Claims document name ∧
      known.schema.place ≠ rival.schema.place ∧
      (root.walk document options registry).registry.get? name = some known ∧
      first = known.schema.pointer ∧ second = rival.schema.pointer := by
  have after := (claimed.walk of options).2
  rcases (of.fills options registry).2 _ failed with broken | ⟨call, reached, fails⟩
  · cases broken.dangles
  · cases fails with
    | plan e =>
      rcases Call.plan_fails e with dangles | ⟨_, _, -, e⟩
      · cases dangles
      · cases e
    | @taken _ rival known registers held other =>
      have claims : known.Claims document name := after.claims name known (Entries.mem_of_get? held)
      exact ⟨known, rival, claims, .of_reached reached registers, other, held, rfl, rfl⟩

/-- Walks from roots of the document, one after another, leave models that claim their names. -/
lemma collect {walks : List (WalkRoot × WalkOptions)} (of : ∀ walk ∈ walks, walk.1.Of document) :
    (Registry.collect document walks).Claimed document :=
  List.foldlRecOn walks _ empty fun _ claimed walk mem => (claimed.walk (of walk mem) walk.2).2

end Registry.Claimed

/-- After any walks from roots of a document that is read, each with any options and whether it
succeeded or not, every model is right for its name, and no name stands twice.  A further walk comes to
an end, keeps what is registered in its order, and fails as a name is ambiguous only if two schemas at
different places of the document claim the name, the first of which is registered under it. -/
theorem Registry.collect_sound {id : DocumentId} {tree : Json} {document : Document}
    (read : Document.read id tree = .ok document) (distinct : tree.keysDistinct = true)
    {walks : List (WalkRoot × WalkOptions)} (of : ∀ walk ∈ walks, walk.1.Of document) :
    (∀ name model, (name, model) ∈ (collect document walks).models → model.Sound document name) ∧
      (collect document walks).names.Nodup ∧
      ∀ (root : WalkRoot) (options : WalkOptions), root.Of document →
        (root.walk document options (collect document walks)).result ≠ .error .outOfSteps ∧
        (collect document walks).models <+:
          (root.walk document options (collect document walks)).registry.models ∧
        ∀ name first second, (root.walk document options (collect document walks)).result =
            .error (.error (.ambiguous name first second)) →
          ∃ known rival : Registered, known.Claims document name ∧ rival.Claims document name ∧
            known.schema.place ≠ rival.schema.place ∧
            (root.walk document options (collect document walks)).registry.get? name = some known ∧
            first = known.schema.pointer ∧ second = rival.schema.pointer := by
  have coherent := Document.coherent_of_read read distinct
  have claimed := Claimed.collect of
  refine ⟨?_, claimed.distinct, fun root options here => ⟨?_, ?_, ?_⟩⟩
  · intro name model held
    exact (claimed.claims name model held).sound coherent
  · intro endless
    exact (here.ends coherent (collect document walks) claimed.proper).2 _ endless rfl
  · exact (claimed.walk here options).1.grows
  · intro name first second failed
    exact claimed.exists_of_ambiguous here failed

end Spelled

attribute [local instance] Spelling.german

/-- A description with an object whose property takes the name of another schema. -/
def rivalTree : Json :=
  .obj [
    ("openapi", .str "3.0.0"),
    ("info", .obj [("title", .str "Pets"), ("version", .str "1")]),
    ("paths", .obj []),
    ("components", .obj [("schemas", .obj [
      ("Pet", .obj [("properties", .obj [("status", .obj [("enum", .arr [.str "sold"])])])]),
      ("PetStatus", .obj [("type", .str "string")])])])]

/-- A walk from the components of the description fails, and so does the next one, as the property and
the schema claim one name. -/
theorem Registry.collect_sound_rivals :
    rivalTree.keysDistinct = true ∧ ∃ document, Document.read ⟨0⟩ rivalTree = .ok document ∧
      (Registry.collect document [(.components, .everything)]).names = ["Pet", "PetStatus"] ∧
      (∀ name model, (name, model) ∈ (collect document [(.components, .everything)]).models →
        model.Sound document name) ∧
      ∃ known rival : Registered, known.Claims document "PetStatus" ∧
        rival.Claims document "PetStatus" ∧ known.schema.place ≠ rival.schema.place ∧
        known.schema.pointer = "#/components/schemas/Pet/properties/status" ∧
        rival.schema.pointer = "#/components/schemas/PetStatus" := by
  have distinct : rivalTree.keysDistinct = true := by decide +kernel
  have run : ((Document.read ⟨0⟩ rivalTree).toOption.map fun document =>
      ((collect document [(.components, .everything)]).names,
        (WalkRoot.components.walk document .everything
          (collect document [(.components, .everything)])).result)) =
        some (["Pet", "PetStatus"], .error (.error (.ambiguous "PetStatus"
          "#/components/schemas/Pet/properties/status" "#/components/schemas/PetStatus"))) := by
    decide +kernel
  obtain ⟨document, found, run⟩ := Option.map_eq_some_iff.1 run
  have read := toOption_eq_some.1 found
  obtain ⟨names, failed⟩ := Prod.mk.inj run
  have of : ∀ walk ∈ [(WalkRoot.components, WalkOptions.everything)], walk.1.Of document := by
    intro walk mem
    obtain rfl := List.mem_singleton.1 mem
    trivial
  have here : WalkRoot.components.Of document := trivial
  obtain ⟨sound, -, next⟩ := collect_sound read distinct of
  obtain ⟨-, -, ambiguous⟩ := next .components .everything here
  obtain ⟨known, rival, claims, claims', other, -, first, second⟩ := ambiguous _ _ _ failed
  exact ⟨distinct, document, read, names, sound, known, rival, claims, claims', other, first.symm,
    second.symm⟩

end OpenApiManifest
