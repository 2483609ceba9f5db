import OpenApiManifest.Proofs.Reading.Slots
import OpenApiManifest.Proofs.Runs

/-!
# Work that cannot fail

Work is faultless (`Run.Faultless`) if it never ends with an error: it gives a value or uses up its
steps.  On its way it finds no references but those that are known.  What follows references from
positions that are known to resolve, and whose schemas have none but such positions inside
(`Document.Closed`), is faultless if the rest of the work is.
-/

namespace OpenApiManifest

/-- Work that gives a value, and that finds only references that are known. -/
structure Run.Gives {α : Type} (known : Found → Prop) (run : Run α) (value : α) : Prop where
  result : run.result = .ok value
  found : ∀ found ∈ run.found, known found

/-- Work that never ends with an error, and that finds only references that are known. -/
structure Run.Faultless {α : Type} (known : Found → Prop) (run : Run α) : Prop where
  result : ∀ cause, run.result ≠ .error (.error cause)
  found : ∀ found ∈ run.found, known found

namespace Run.Faultless

variable {α β : Type} {known : Found → Prop}

/-- Work that gives a value is faultless. -/
lemma of_gives {run : Run α} {value : α} (h : run.Gives known value) : run.Faultless known where
  result cause e := by
    rw [h.result] at e
    cases e
  found := h.found

/-- Work that only gives a value is faultless. -/
lemma pure (value : α) : (Pure.pure value : Run α).Faultless known where
  result := nofun
  found := nofun

/-- Work that has no steps left is faultless. -/
lemma outOfSteps : (Run.outOfSteps : Run α).Faultless known where
  result := nofun
  found := nofun

/-- Work in two parts is faultless if the first part is, and the second for what the first gives. -/
lemma bind {run : Run α} {next : α → Run β} (h : run.Faultless known)
    (hn : ∀ value, run.result = .ok value → (next value).Faultless known) :
    (run >>= next).Faultless known := by
  rcases run with ⟨seen, halt | value⟩
  · refine ⟨fun cause e => ?_, h.found⟩
    cases e
    exact h.result cause rfl
  · have rest := hn value rfl
    change (⟨seen ++ (next value).found, (next value).result⟩ : Run β).Faultless known
    refine ⟨rest.result, fun found hf => ?_⟩
    rcases List.mem_append.1 hf with hf | hf
    · exact h.found found hf
    · exact rest.found found hf

/-- What is done with the value of faultless work is faultless. -/
lemma map {run : Run α} {change : α → β} (h : run.Faultless known) :
    (change <$> run).Faultless known := by
  rw [map_eq_pure_bind]
  exact h.bind fun value _ => pure (change value)

/-- Work on each of some values is faultless if it is for all of them. -/
lemma mapM {next : α → Run β} {values : List α} (h : ∀ value ∈ values, (next value).Faultless known) :
    (values.mapM next).Faultless known := by
  induction values with
  | nil =>
    rw [List.mapM_nil]
    exact pure []
  | cons value rest ih =>
    rw [List.mapM_cons]
    refine (h value List.mem_cons_self).bind fun first _ => ?_
    refine (ih fun other ho => h other (List.mem_cons_of_mem _ ho)).bind fun others _ => ?_
    exact pure (first :: others)

/-- Work that goes through some values is faultless if it is at each of them, however it came there. -/
lemma foldlM {next : β → α → Run β} {values : List α} {first : β}
    (h : ∀ before, ∀ value ∈ values, (next before value).Faultless known) :
    (values.foldlM next first).Faultless known := by
  induction values generalizing first with
  | nil =>
    rw [List.foldlM_nil]
    exact pure first
  | cons value rest ih =>
    rw [List.foldlM_cons]
    refine (h first value List.mem_cons_self).bind fun middle _ => ?_
    exact ih fun before other ho => h before other (List.mem_cons_of_mem _ ho)

/-- Faultless work that uses up no steps has a value. -/
lemma exists_ok_or {run : Run α} (h : run.Faultless known) :
    (∃ value, run.result = .ok value) ∨ run.result = .error .outOfSteps := by
  cases hr : run.result with
  | ok value => exact .inl ⟨value, rfl⟩
  | error halt =>
    cases halt with
    | outOfSteps => exact .inr rfl
    | error cause => exact absurd hr (h.result cause)

end Run.Faultless

/-- Positions of a document that resolve over known references, to schemas with none but such positions
inside. -/
structure Document.Closed (document : Document) (known : Found → Prop) (safe : SchemaSlot → Prop) :
    Prop where
  resolves : ∀ slot, safe slot → ∃ schema, (slot.resolve document).Gives known schema
  inside : ∀ slot schema, safe slot → (slot.resolve document).result = .ok schema →
    ∀ inner ∈ schema.slots, safe inner

/-- Resolving a safe position is faultless, and what is done with the schema there may take all that is
inside it for safe. -/
lemma Document.Closed.bind {α : Type} {document : Document} {known : Found → Prop}
    {safe : SchemaSlot → Prop} (closed : document.Closed known safe) {slot : SchemaSlot}
    {next : Schema → Run α} (h : safe slot)
    (hn : ∀ schema, (∀ inner ∈ schema.slots, safe inner) → (next schema).Faultless known) :
    (slot.resolve document >>= next).Faultless known := by
  obtain ⟨schema, hs⟩ := closed.resolves slot h
  exact (Run.Faultless.of_gives hs).bind fun found hf => hn found (closed.inside slot found h hf)

end OpenApiManifest
