import OpenApiManifest.Proofs.Faultless
import OpenApiManifest.Proofs.Walk.Covering
import OpenApiManifest.Proofs.Walk.Roots

/-!
# What a walk has found safe

A walk that succeeds leaves nothing behind that does not resolve, and it has found all references on the
way: the positions to which it came are closed (`Registry.Walked.closed`), and so are the parameters and
responses of the operations from which it started (`Generator.exists_walked`).
-/

namespace OpenApiManifest

/-- A part of a walk that gives a value, and that finds only references that are known. -/
structure Visit.Gives {α : Type} (known : Found → Prop) (visit : Visit α) (value : α) : Prop where
  result : visit.result = .ok value
  found : ∀ found ∈ visit.found, known found

/-- A part of a walk that succeeds gives its value, whatever references it finds. -/
lemma Visit.gives_of_ok {α : Type} {visit : Visit α} {value : α} (h : visit.result = .ok value) :
    visit.Gives (fun _ => True) value where
  result := h
  found _ _ := trivial

namespace Walk

variable {α β : Type} {known : Found → Prop} {registry : Registry}

/-- If a walk in two parts gives a value, then the first part gives one, and so does the second, which
starts with it and with what the first has registered. -/
lemma exists_of_bind_gives {walk : Walk α} {next : α → Walk β} {value : β}
    (h : ((walk >>= next) registry).Gives known value) :
    ∃ middle, (walk registry).Gives known middle ∧
      (next middle (walk registry).registry).Gives known value := by
  rcases hw : walk registry with ⟨after, seen, halt | middle⟩
  · rw [bind_apply_of_error hw] at h
    cases h.result
  · rw [bind_apply_of_ok hw] at h
    exact ⟨middle, ⟨rfl, fun found hf => h.found found (List.mem_append_left _ hf)⟩, h.result,
      fun found hf => h.found found (List.mem_append_right _ hf)⟩

/-- A walk that goes through some values and gives a value has given one for each of them. -/
lemma exists_of_forM_gives {values : List α} {next : α → Walk Unit}
    (h : (values.forM next registry).Gives known ()) :
    ∀ value ∈ values, ∃ before, (next value before).Gives known () := by
  induction values generalizing registry with
  | nil => exact nofun
  | cons value rest ih =>
    obtain ⟨_, hv, hr⟩ := exists_of_bind_gives h
    intro other ho
    rcases List.mem_cons.1 ho with rfl | ho
    · exact ⟨registry, hv⟩
    · exact ih hr other ho

/-- A walk that follows a reference and gives a value has found the value at the end of the reference. -/
lemma exists_of_follow_bind_gives {run : Run α} {next : α → Walk β} {result : β}
    (h : ((follow run >>= next) registry).Gives known result) : ∃ value, run.Gives known value := by
  obtain ⟨value, hv, -⟩ := exists_of_bind_gives h
  exact ⟨value, hv.result, hv.found⟩

end Walk

/-- A parameter that resolves over known references, with a safe position. -/
def Parameter.Safe (document : Document) (known : Found → Prop) (safe : SchemaSlot → Prop)
    (declared : Slot Parameter) : Prop :=
  ∃ parameter, (declared.resolve document).Gives known parameter ∧ ∀ slot ∈ parameter.slots, safe slot

/-- A response that resolves over known references, with safe positions. -/
def Response.Safe (document : Document) (known : Found → Prop) (safe : SchemaSlot → Prop)
    (declared : Slot Response) : Prop :=
  ∃ response, (declared.resolve document).Gives known response ∧
    ∀ slot ∈ MediaType.schemas response.content, safe slot

/-- An operation whose parameters and responses resolve, with safe positions. -/
structure Operation.Safe (document : Document) (known : Found → Prop) (safe : SchemaSlot → Prop)
    (operation : Operation) : Prop where
  parameters : ∀ declared ∈ operation.parameters, Parameter.Safe document known safe declared
  body : ∀ body, operation.requestBody = some body →
    ∀ slot ∈ MediaType.schemas body.content, safe slot
  responses : ∀ declared ∈ operation.responses.values, Response.Safe document known safe declared

/-- A path whose parameters resolve, and whose operations are safe. -/
structure PathItem.Safe (document : Document) (known : Found → Prop) (safe : SchemaSlot → Prop)
    (item : PathItem) : Prop where
  parameters : ∀ declared ∈ item.parameters, Parameter.Safe document known safe declared
  operations : ∀ method operation, (method, operation) ∈ item.operations →
    operation.Safe document known safe

variable [Spelling]

section Success

variable {document : Document} {options : WalkOptions} {known : Found → Prop} {safe : SchemaSlot → Prop}
  {registry : Registry}

/-- The parameters from which a walk succeeded resolve. -/
lemma exists_of_walkParameters {parameters : List (Slot Parameter)}
    (h : (walkParameters document options parameters registry).Gives known ()) :
    ∀ declared ∈ parameters, ∃ parameter, (declared.resolve document).Gives known parameter := by
  intro declared hd
  obtain ⟨before, hb⟩ := Walk.exists_of_forM_gives h declared hd
  exact Walk.exists_of_follow_bind_gives hb

/-- An operation from which a walk succeeded is safe, if the positions are at which it started. -/
lemma Operation.safe_of_walk {operation : Operation}
    (h : (walkOperation document options operation registry).Gives known ())
    (starts : ∀ slot, (WalkRoot.operation operation).Starts document slot → safe slot) :
    operation.Safe document known safe := by
  obtain ⟨_, parameters, rest⟩ := Walk.exists_of_bind_gives h
  have responses : ∃ before, ((operation.responses.values.forM fun declared => do
      let response ← Walk.follow (declared.resolve document)
      walkContent document options response.content) before).Gives known () := by
    cases hb : operation.requestBody with
    | some body =>
      rw [hb] at rest
      obtain ⟨_, -, responses⟩ := Walk.exists_of_bind_gives rest
      exact ⟨_, responses⟩
    | none =>
      rw [hb] at rest
      exact ⟨_, rest⟩
  obtain ⟨middle, responses⟩ := responses
  constructor
  · intro declared hd
    obtain ⟨parameter, hp⟩ := exists_of_walkParameters parameters declared hd
    exact ⟨parameter, hp, fun slot hs => starts slot (.operationParameter hd hp.result hs)⟩
  · intro body hb slot hs
    exact starts slot (.requestBody hb hs)
  · intro declared hd
    obtain ⟨before, hb⟩ := Walk.exists_of_forM_gives responses declared hd
    obtain ⟨response, hr⟩ := Walk.exists_of_follow_bind_gives hb
    exact ⟨response, hr, fun slot hs => starts slot (.response hd hr.result hs)⟩

/-- A path from which a walk succeeded is safe, if the positions are at which it started. -/
lemma PathItem.safe_of_walk {item : PathItem}
    (h : (walkPathItem document options item registry).Gives known ())
    (starts : ∀ slot, (WalkRoot.pathItem item).Starts document slot → safe slot) :
    item.Safe document known safe := by
  obtain ⟨_, parameters, operations⟩ := Walk.exists_of_bind_gives h
  constructor
  · intro declared hd
    obtain ⟨parameter, hp⟩ := exists_of_walkParameters parameters declared hd
    exact ⟨parameter, hp, fun slot hs => starts slot (.pathParameter hd hp.result hs)⟩
  · intro method operation hm
    obtain ⟨before, hb⟩ := Walk.exists_of_forM_gives operations (method, operation) hm
    exact Operation.safe_of_walk hb fun slot hs => starts slot (.pathOperation hm hs)

/-- The paths of a document whose models are collected are safe, if the positions are at which the walk
from the paths started. -/
lemma Generator.safe_of_collect {generator : Generator}
    (h : (generator.collect document registry).Gives known ())
    (starts : ∀ slot, WalkRoot.paths.Starts document slot → safe slot) :
    ∀ item ∈ document.paths.values, item.Safe document known safe := by
  obtain ⟨_, paths, -⟩ := Walk.exists_of_bind_gives h
  intro item hi
  obtain ⟨before, hb⟩ := Walk.exists_of_forM_gives paths item hi
  exact PathItem.safe_of_walk hb fun slot hs => starts slot (.paths hi hs)

end Success

/-- A position to which a walk of everything comes. -/
def Document.Visited (document : Document) (first : Call → Prop) (slot : SchemaSlot) : Prop :=
  ∃ call : Call, call.Reached document .everything first ∧ call.slot? = some slot

namespace Registry.Walked

variable {document : Document} {first : Call → Prop} {registry : Registry}
  (walked : registry.Walked document .everything first)
include walked

/-- A walk came to all that is inside the schemas at the positions to which it came. -/
lemma visited_inside {slot : SchemaSlot} {schema : Schema} (h : document.Visited first slot)
    (hs : (slot.resolve document).result = .ok schema) :
    ∀ inner ∈ schema.slots, document.Visited first inner := by
  intro inner hi
  obtain ⟨call, reached, hc⟩ := h
  exact walked.exists_call_of_slot reached (Call.about_of_slot? hc hs) hi

/-- The positions to which a walk came are closed, over the references that it has found. -/
lemma closed {known : Found → Prop}
    (gives : ∀ {call : Call}, call.Reached document .everything first →
      ∃ plan, (call.plan document .everything).Gives known plan) :
    document.Closed known (document.Visited first) where
  resolves slot h := by
    obtain ⟨call, reached, hs⟩ := h
    obtain ⟨schema, hr⟩ := walked.exists_schema reached hs
    obtain ⟨plan, planned⟩ := gives reached
    have found := planned.found
    rw [Call.found_plan hs] at found
    exact ⟨schema, hr, found⟩
  inside _ _ h hs := walked.visited_inside h hs

/-- A walk came to all that is inside the schemas that it registered. -/
lemma visited_of_registered {name : String} {model : Registered}
    (held : registry.get? name = some model) :
    ∀ slot ∈ model.schema.slots, document.Visited first slot := by
  intro slot hs
  refine (walked.inside_of_registered held fun tag => ?_).exists_call hs
  unfold Schema.tag at tag
  split at tag
  all_goals cases tag
  rename_i hk
  rw [Schema.slots, hk] at hs
  cases hs

end Registry.Walked

/-- When the models of a document are collected, the registry holds what a walk came to that started at
positions of the document.  The positions to which it came are closed and the paths are safe, over the
references that the walk has found. -/
theorem Generator.exists_walked {document : Document} (coherent : document.Coherent)
    {generator : Generator} (collected : (generator.collect document .empty).result = .ok ()) :
    ∃ first, (generator.collect document .empty).registry.Walked document .everything first ∧
      (∀ call, first call → call.Within document) ∧
      document.Closed (· ∈ (generator.collect document .empty).found) (document.Visited first) ∧
      ∀ item ∈ document.paths.values,
        item.Safe document (· ∈ (generator.collect document .empty).found) (document.Visited first) := by
  have collects := (generator.collect_visits coherent).collects
  have walked := collects.walked collected
  refine ⟨_, walked, ?_, walked.closed (collects.gives_plan collected), ?_⟩
  · rintro _ ⟨slot, starts, rfl⟩
    exact contains_of_starts starts
  · refine Generator.safe_of_collect ⟨collected, fun _ hf => hf⟩ fun slot starts => ?_
    exact ⟨.child slot none none, .first ⟨slot, .inl starts, rfl⟩, rfl⟩

end OpenApiManifest
