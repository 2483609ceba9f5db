import OpenApiManifest.Proofs.Sessions

/-!
# Chains of references

A slot leads over a number of references to another (`Slot.Hops`).  It resolves to the value that stands
at the end of its chain, if that is no further than the limit; otherwise it fails as the first reference
that leads nowhere, and if there is none up to the one after the limit, as a chain without an end
(`Slot.resolve_exactly`).
-/

namespace OpenApiManifest

namespace Slot

section Hops

variable {α : Type} [Component α] {document : Document} {slot last : Slot α} {reference : Reference}
  {value : α} {halt : Halt} {origin : String} {hops limit : Nat}

/-- So many references lead from a slot to another, each found in the document. -/
inductive Hops (document : Document) : Nat → Slot α → Slot α → Prop
  | none {slot : Slot α} : Hops document 0 slot slot
  | more {hops : Nat} {reference : Reference} {next last : Slot α} :
    (reference.hop document).result = .ok next → Hops document hops next last →
      Hops document (hops + 1) (.ref reference) last

namespace Hops

/-- Hops after hops are as many hops as both together. -/
lemma trans {middle : Slot α} {more : Nat} (h : Hops document hops slot middle)
    (h' : Hops document more middle last) : Hops document (hops + more) slot last := by
  induction h with
  | none => rwa [Nat.zero_add]
  | more found _ ih =>
    rw [Nat.add_right_comm]
    exact .more found (ih h')

/-- A chain leads over fewer references to a slot from which the others lead on. -/
lemma split {fewer more : Nat} (h : Hops document (fewer + more) slot last) :
    ∃ middle, Hops document fewer slot middle ∧ Hops document more middle last := by
  induction fewer generalizing slot with
  | zero => exact ⟨slot, .none, Nat.zero_add more ▸ h⟩
  | succ fewer ih =>
    rw [Nat.add_right_comm] at h
    cases h with
    | more found rest =>
      obtain ⟨middle, first, second⟩ := ih rest
      exact ⟨middle, .more found first, second⟩

/-- What at least one reference leads to is held by the components. -/
lemma exists_entry (h : Hops document (hops + 1) slot last) :
    ∃ name, Entries.get? name (Component.entries document.components) = some last := by
  induction hops generalizing slot with
  | zero =>
    cases h with
    | more found rest =>
      cases rest
      exact ⟨_, Reference.get?_of_hop found⟩
  | succ hops ih =>
    cases h with
    | more _ rest => exact ih rest

/-- From a slot that references lead back to, any number of them lead on. -/
lemma exists_of_circle {more : Nat} (circle : Hops document (more + 1) slot slot) (hops : Nat) :
    ∃ last, Hops document hops slot last := by
  induction hops using Nat.strongRecOn with
  | ind hops ih =>
    rcases Nat.le_total hops (more + 1) with le | le
    · obtain ⟨rest, e⟩ := Nat.exists_eq_add_of_le le
      obtain ⟨middle, first, -⟩ := (e ▸ circle).split
      exact ⟨middle, first⟩
    · obtain ⟨rest, rfl⟩ := Nat.exists_eq_add_of_le le
      obtain ⟨last, h⟩ := ih rest (by omega)
      exact ⟨last, circle.trans h⟩

/-- Nothing but itself is what a value leads to. -/
lemma of_owned (h : Hops document hops (.owned value) last) : last = .owned value := by
  cases h
  rfl

end Hops

/-- A slot that owns its value is followed by no hop. -/
@[simp] lemma follow_owned : follow document origin limit (.owned value) = pure value := by
  cases limit <;> rfl

/-- A slot is followed to a value exactly if no more references lead there than are followed. -/
lemma follow_eq_ok_iff : (follow document origin limit slot).result = .ok value ↔
    ∃ hops ≤ limit, Hops document hops slot (.owned value) := by
  have here : ∀ own : α, ∀ limit, (follow document origin limit (.owned own)).result = .ok value ↔
      ∃ hops ≤ limit, Hops document hops (.owned own) (.owned value) := fun own limit => by
    rw [follow_owned]
    constructor
    · intro h
      cases h
      exact ⟨0, Nat.zero_le limit, .none⟩
    · rintro ⟨hops, -, h⟩
      exact congrArg Except.ok (Slot.owned.inj h.of_owned).symm
  -- By induction on the limit: one hop of the chain is one step of following it.
  induction limit generalizing slot with
  | zero =>
    cases slot with
    | owned own => exact here own 0
    | ref reference =>
      rw [follow, Run.bind_result_eq_ok]
      constructor
      · rintro ⟨_, -, failed⟩
        cases failed
      · rintro ⟨hops, le, h⟩
        cases h
        cases le
  | succ limit ih =>
    cases slot with
    | owned own => exact here own (limit + 1)
    | ref reference =>
      rw [follow, Run.bind_result_eq_ok]
      constructor
      · rintro ⟨next, found, h⟩
        obtain ⟨hops, le, h⟩ := ih.1 h
        exact ⟨hops + 1, Nat.succ_le_succ le, .more found h⟩
      · rintro ⟨hops, le, h⟩
        cases h with
        | more found h => exact ⟨_, found, ih.2 ⟨_, Nat.le_of_succ_le_succ le, h⟩⟩

/-- Following a slot fails at the first reference that leads nowhere, up to the one after the limit. -/
lemma follow_of_hop (le : hops ≤ limit) (h : Hops document hops slot (.ref reference))
    (nowhere : (reference.hop document : Run (Slot α)).result = .error halt) :
    (follow document origin limit slot).result = .error halt := by
  induction limit generalizing hops slot with
  | zero =>
    obtain rfl := Nat.le_zero.1 le
    cases h
    rw [follow, Run.bind_result_eq_error]
    exact .inl nowhere
  | succ limit ih =>
    cases h with
    | none =>
      rw [follow, Run.bind_result_eq_error]
      exact .inl nowhere
    | more found h =>
      rw [follow, Run.bind_result_eq_error]
      exact .inr ⟨_, found, ih (Nat.le_of_succ_le_succ le) h⟩

/-- Following a slot fails for want of an end if more references lead on than are followed. -/
lemma follow_of_endless (h : Hops document (limit + 1) slot last) :
    (follow document origin limit slot).result = .error (.error (.unresolved origin .endlessChain)) := by
  induction limit generalizing slot with
  | zero =>
    cases h with
    | more found _ =>
      rw [follow, Run.bind_result_eq_error]
      exact .inr ⟨_, found, rfl⟩
  | succ limit ih =>
    cases h with
    | more found h =>
      rw [follow, Run.bind_result_eq_error]
      exact .inr ⟨_, found, ih h⟩

/-- Where no reference fails and no value stands on the way, references lead on as far as one likes. -/
lemma exists_hops (leads : ∀ hops ≤ limit, ∀ reference, Hops document hops slot (.ref reference) →
      ∃ next : Slot α, (reference.hop document).result = .ok next)
    (free : ∀ hops ≤ limit, ∀ value, ¬ Hops document hops slot (.owned value)) :
    ∃ last, Hops document (limit + 1) slot last := by
  -- The last of the references is followed at the end of the chain that is there before.
  have before : ∀ hops ≤ limit + 1, ∃ last, Hops document hops slot last := by
    intro hops le
    induction hops with
    | zero => exact ⟨slot, .none⟩
    | succ hops ih =>
      obtain ⟨middle, h⟩ := ih (Nat.le_of_succ_le le)
      cases middle with
      | owned value => exact absurd h (free hops (Nat.le_of_succ_le_succ le) value)
      | ref reference =>
        obtain ⟨next, found⟩ := leads hops (Nat.le_of_succ_le_succ le) reference h
        exact ⟨next, h.trans (.more found .none)⟩
  exact before (limit + 1) (Nat.le_refl _)

end Hops

/-- What following the references from a slot comes to. -/
structure Resolution {α : Type} [Component α] (document : Document) (slot : Slot α)
    (outcome : Except Halt α) : Prop where
  /-- A value is found exactly if no more than 32 references lead to it. -/
  value : ∀ value, outcome = .ok value ↔ ∃ hops ≤ 32, Hops document hops slot (.owned value)
  /-- One of the first 33 references that leads nowhere is the reason to fail. -/
  nowhere : ∀ hops ≤ 32, ∀ reference halt, Hops document hops slot (.ref reference) →
    (reference.hop document : Run (Slot α)).result = .error halt → outcome = .error halt
  /-- If none does and no value stands within 32 references, the text of the first one is told. -/
  endless : (∀ hops ≤ 32, ∀ reference, Hops document hops slot (.ref reference) →
      ∃ next : Slot α, (reference.hop document).result = .ok next) →
    (∀ hops ≤ 32, ∀ value, ¬ Hops document hops slot (.owned value)) →
    ∃ first, slot = .ref first ∧ outcome = .error (.error (.unresolved first.text .endlessChain))
  /-- So it is where the references come to a circle. -/
  circle : ∀ hops round middle, Hops document hops slot middle → Hops document (round + 1) middle middle →
    ∃ first, slot = .ref first ∧ outcome = .error (.error (.unresolved first.text .endlessChain))

/-- A slot resolves to the value at the end of its chain if it is within the limit. -/
lemma resolution {α : Type} [Component α] (document : Document) (slot : Slot α) :
    Resolution document slot (slot.resolve document).result := by
  have endless : (∃ last, Hops document 33 slot last) → ∃ first, slot = .ref first ∧
      (slot.resolve document).result = .error (.error (.unresolved first.text .endlessChain)) := by
    rintro ⟨last, h⟩
    cases slot with
    | owned own => cases h
    | ref first => exact ⟨first, rfl, follow_of_endless h⟩
  exact
    { value := fun value => by
        cases slot with
        | owned own =>
          have here : (follow document "" 32 (.owned own)).result = .ok value ↔ _ := follow_eq_ok_iff
          rwa [follow_owned] at here
        | ref first => exact follow_eq_ok_iff
      nowhere := fun hops le reference halt h nowhere => by
        cases slot with
        | owned own => cases h
        | ref first => exact follow_of_hop le h nowhere
      endless := fun leads free => endless (exists_hops leads free)
      circle := fun hops round middle h circle => by
        obtain ⟨last, on⟩ := circle.exists_of_circle 33
        obtain ⟨inner, within, -⟩ := (Nat.add_comm hops 33 ▸ h.trans on).split
        exact endless ⟨inner, within⟩ }

/-- Slots of every kind of component resolve exactly up to the limit, and the schemas to which references
lead are held by the components under their own names. -/
theorem resolve_exactly {id : DocumentId} {tree : Json} {document : Document}
    (read : Document.read id tree = .ok document) (distinct : tree.keysDistinct = true) :
    (∀ within : ComponentSection, ∀ slot : Slot within.Value,
      Resolution document slot (slot.resolve document).result) ∧
    ∀ slot schema hops, Hops document (hops + 1) slot (.owned schema) →
      ∃ name, schema.name? = some name ∧ document.schema? name = some (.owned schema) := by
  refine ⟨fun within slot => resolution document slot, fun slot schema hops h => ?_⟩
  obtain ⟨name, held⟩ := h.exists_entry
  have coherent := Document.coherent_of_read read distinct
  exact ⟨name, (coherent.name?_eq_some_iff (Document.contains_of_schema? held)).2 held, held⟩

/-- A description of a chain of 33 references to a text, and of a reference to itself. -/
def chainTree : Json :=
  let ref (name : String) : Json := .obj [("$ref", .str ("#/components/schemas/" ++ name))]
  .obj [
    ("openapi", .str "3.0.0"),
    ("info", .obj [("title", .str "Chain"), ("version", .str "1")]),
    ("components", .obj [("schemas", .obj (
      ((List.range 33).map fun i => (Nat.repr i, ref (Nat.repr (i + 1)))) ++
        [("33", .obj [("type", .str "string")]), ("Loop", ref "Loop")]))])]

/-- The name that a reference found in a document has, if a slot holds one. -/
def foundName? (document : Document) : SchemaSlot → Option String
  | .owned _ => none
  | .ref reference => (reference.hop document : Run SchemaSlot).result.toOption.map fun _ => reference.name

/-- A slot with a found name is a reference to the component schema of that name. -/
lemma exists_of_foundName? {document : Document} {slot : SchemaSlot} {name : String}
    (h : foundName? document slot = some name) : ∃ reference next, slot = .ref reference ∧
      (reference.hop document).result = .ok next ∧ document.schema? name = some next := by
  cases slot with
  | owned schema => cases h
  | ref reference =>
    obtain ⟨next, found, rfl⟩ := Option.map_eq_some_iff.1 h
    have found := toOption_eq_some.1 found
    exact ⟨reference, next, rfl, found, Reference.get?_of_hop found⟩

/-- The second reference of the chain is 32 references away from the text, and the first one too far. -/
theorem resolve_exactly_chain :
    chainTree.keysDistinct = true ∧ ∃ document, Document.read ⟨0⟩ chainTree = .ok document ∧
      ∃ first second loop schema,
        document.schema? "1" = some second ∧ (second.resolve document).result = .ok schema ∧
        Hops document 32 second (.owned schema) ∧
        (∃ name, schema.name? = some name ∧ document.schema? name = some (.owned schema)) ∧
        document.schema? "0" = some first ∧ (∀ value, (first.resolve document).result ≠ .ok value) ∧
        Hops document 33 first (.owned schema) ∧
        document.schema? "Loop" = some (.ref loop) ∧
        ((Slot.ref loop : SchemaSlot).resolve document).result =
          .error (.error (.unresolved loop.text .endlessChain)) := by
  have distinct : chainTree.keysDistinct = true := by decide +kernel
  have run : ((Document.read ⟨0⟩ chainTree).toOption.map fun document =>
        ((document.schema? "1").map fun second => (second.resolve document).result.toOption.isSome,
          (document.schema? "0").map fun first => (first.resolve document).result.toOption.isSome)) =
        some (some true, some false) ∧
      ((Document.read ⟨0⟩ chainTree).toOption.map fun document =>
        ((document.schema? "0").bind (foundName? document),
          (document.schema? "Loop").bind (foundName? document))) =
        some (some "1", some "Loop") := by decide +kernel
  obtain ⟨run, names⟩ := run
  obtain ⟨document, found, run⟩ := Option.map_eq_some_iff.1 run
  rw [found] at names
  have read := toOption_eq_some.1 found
  obtain ⟨within, beyond⟩ := Prod.mk.inj run
  obtain ⟨step, back⟩ := Prod.mk.inj (Option.some.inj names)
  obtain ⟨second, hs, within⟩ := Option.map_eq_some_iff.1 within
  obtain ⟨first, hf, beyond⟩ := Option.map_eq_some_iff.1 beyond
  rw [hf] at step
  obtain ⟨reference, next, rfl, hop, held⟩ := exists_of_foundName? step
  obtain rfl := Option.some.inj (hs.symm.trans held)
  obtain ⟨slot, hl, back⟩ := Option.bind_eq_some_iff.1 back
  obtain ⟨loop, next, rfl, again, held'⟩ := exists_of_foundName? back
  obtain rfl := Option.some.inj (hl.symm.trans held')
  obtain ⟨schema, resolved⟩ := Option.isSome_iff_exists.1 within
  have resolved := toOption_eq_some.1 resolved
  obtain ⟨exactly, named⟩ := resolve_exactly read distinct
  have near : Resolution document second (second.resolve document).result := exactly .schemas second
  have far : Resolution document (.ref reference)
      ((Slot.ref reference : SchemaSlot).resolve document).result :=
    exactly .schemas (.ref reference)
  have around : Resolution document (.ref loop) ((Slot.ref loop : SchemaSlot).resolve document).result :=
    exactly .schemas (.ref loop)
  have unresolved : ∀ value, ((Slot.ref reference : SchemaSlot).resolve document).result ≠ .ok value := by
    intro value h
    rw [h] at beyond
    cases beyond
  -- The chain from the second reference is no longer than 32, and that from the first is longer.
  obtain ⟨hops, le, leads⟩ := (near.value schema).1 resolved
  have longer : Hops document (hops + 1) (.ref reference) (.owned schema) := .more hop leads
  have long : ¬ hops + 1 ≤ 32 := fun le => unresolved schema ((far.value schema).2 ⟨_, le, longer⟩)
  obtain rfl : hops = 32 := by omega
  obtain ⟨same, e, endless⟩ := around.circle 0 0 _ .none (.more again .none)
  cases e
  exact ⟨distinct, document, read, .ref reference, second, loop, schema, hs, resolved, leads,
    named _ _ _ longer, hf, unresolved, longer, hl, endless⟩

end Slot

end OpenApiManifest
