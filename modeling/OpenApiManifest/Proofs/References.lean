import OpenApiManifest.Proofs.Reading.Positions
import OpenApiManifest.Proofs.Runs

/-!
# Where references lead

A reference that is followed to a schema leads there over names of the components, each of which
holds a reference to the next (`Document.leads_of_resolve`).  Following references ends with a value
or an error about a reference (`Slot.dangles_of_resolve`), and never for want of steps.
-/

namespace OpenApiManifest

/-- What is located under a key is what is found under it. -/
lemma Entries.get?_of_locate? {α : Type} {key : String} {entries : Entries α} {found : Nat × α}
    (h : locate? key entries = some found) : get? key entries = some found.2 := by
  induction entries generalizing found with
  | nil => cases h
  | cons entry rest ih =>
    obtain ⟨k, value⟩ := entry
    rw [locate?] at h
    rw [get?_cons]
    split at h
    · rename_i hk
      rw [if_pos hk]
      cases h
      rfl
    · rename_i hk
      rw [if_neg hk]
      obtain ⟨inner, hi, rfl⟩ := Option.map_eq_some_iff.1 h
      have found := ih hi
      exact found

/-- A reason to stop that is about a reference: it leads nowhere, or it stands in another document. -/
inductive Halt.Dangles : Halt → Prop
  | unresolved {text : String} {cause : Dangling} : Dangles (.error (.unresolved text cause))
  | foreign {text : String} : Dangles (.error (.foreign text))

section Resolving

variable {α : Type} [Component α] {document : Document} {reference : Reference}

/-- What a reference looks up is the entry under its name. -/
lemma Reference.get?_of_lookup {found : Nat × Slot α} (h : reference.lookup document = .ok found) :
    Entries.get? reference.name (Component.entries document.components) = some found.2 := by
  unfold lookup at h
  split at h
  · cases h
  · split at h
    · cases h
    · split at h
      · cases h
      · split at h
        · rename_i entry hl
          cases h
          exact Entries.get?_of_locate? hl
        · cases h

/-- A reference leads to the entry under its name. -/
lemma Reference.get?_of_hop {slot : Slot α} (h : (reference.hop document).result = .ok slot) :
    Entries.get? reference.name (Component.entries document.components) = some slot := by
  unfold hop at h
  split at h
  · rename_i index found hl
    cases h
    exact get?_of_lookup hl
  · cases h

/-- A failed look-up is about the reference: it leads nowhere, or it stands in another document. -/
lemma Reference.dangles_of_lookup {cause : ModelError}
    (h : (reference.lookup document : Except ModelError (Nat × Slot α)) = .error cause) :
    Halt.Dangles (.error cause) := by
  unfold lookup at h
  split at h
  · cases h
    exact .foreign
  · split at h
    · cases h
      exact .unresolved
    · split at h
      · cases h
        exact .unresolved
      · split at h
        · cases h
        · cases h
          exact .unresolved

/-- A reference that leads nowhere is reported as dangling. -/
lemma Reference.dangles_of_hop {halt : Halt}
    (h : (reference.hop document : Run (Slot α)).result = .error halt) : halt.Dangles := by
  unfold hop at h
  split at h
  · cases h
  · rename_i cause hl
    cases h
    exact dangles_of_lookup hl

/-- A chain of references that is not followed to its end is reported as dangling. -/
lemma Slot.dangles_of_follow {origin : String} {hops : Nat} {slot : Slot α} {halt : Halt}
    (h : (follow document origin hops slot).result = .error halt) : halt.Dangles := by
  induction hops generalizing slot with
  | zero =>
    cases slot with
    | owned value => cases h
    | ref reference =>
      rw [follow] at h
      rcases Run.bind_result_eq_error.1 h with first | ⟨_, -, last⟩
      · exact Reference.dangles_of_hop first
      · cases last
        exact .unresolved
  | succ hops ih =>
    cases slot with
    | owned value => cases h
    | ref reference =>
      rw [follow] at h
      rcases Run.bind_result_eq_error.1 h with first | ⟨next, -, rest⟩
      · exact Reference.dangles_of_hop first
      · exact ih rest

/-- A position that does not resolve holds a reference that leads nowhere. -/
lemma Slot.dangles_of_resolve {slot : Slot α} {halt : Halt}
    (h : (slot.resolve document).result = .error halt) : halt.Dangles := by
  cases slot with
  | owned value => cases h
  | ref reference => exact dangles_of_follow h

/-- Following references does not run out of steps. -/
lemma Slot.resolve_ne_outOfSteps {slot : Slot α} :
    (slot.resolve document).result ≠ .error .outOfSteps := by
  intro e
  cases dangles_of_resolve e

/-- A value of its own is what a slot resolves to. -/
@[simp] lemma Slot.resolve_owned {value : α} :
    ((Slot.owned value).resolve document).result = .ok value := rfl

/-- What a slot is followed to is the value that it holds, or held by an entry of the components. -/
lemma Slot.eq_or_exists_of_follow {origin : String} {hops : Nat} {slot : Slot α} {value : α}
    (h : (follow document origin hops slot).result = .ok value) :
    slot = .owned value ∨
      ∃ name, Entries.get? name (Component.entries document.components) = some (.owned value) := by
  induction hops generalizing slot with
  | zero =>
    cases slot with
    | owned value =>
      cases h
      exact .inl rfl
    | ref reference =>
      rw [follow] at h
      obtain ⟨_, -, h⟩ := Run.bind_result_eq_ok.1 h
      cases h
  | succ hops ih =>
    cases slot with
    | owned value =>
      cases h
      exact .inl rfl
    | ref reference =>
      rw [follow] at h
      obtain ⟨next, hn, h⟩ := Run.bind_result_eq_ok.1 h
      rcases ih h with rfl | held
      · exact .inr ⟨_, Reference.get?_of_hop hn⟩
      · exact .inr held

/-- What a slot resolves to is the value that it holds, or held by an entry of the components. -/
lemma Slot.eq_or_exists_of_resolve {slot : Slot α} {value : α}
    (h : (slot.resolve document).result = .ok value) :
    slot = .owned value ∨
      ∃ name, Entries.get? name (Component.entries document.components) = some (.owned value) := by
  cases slot with
  | owned value =>
    cases h
    exact .inl rfl
  | ref reference => exact eq_or_exists_of_follow h

end Resolving

namespace Document

variable {document : Document} {name : String} {schema : Schema} {slot : SchemaSlot}

/-- A name leads to a schema: the components hold the schema under it, or a reference to a name that
leads there. -/
inductive Leads (document : Document) : String → Schema → Prop
  | owned {name : String} {schema : Schema} :
    document.schema? name = some (.owned schema) → Leads document name schema
  | ref {name : String} {reference : Reference} {schema : Schema} :
    document.schema? name = some (.ref reference) → Leads document reference.name schema →
      Leads document name schema

/-- The components hold the schema that a name leads to. -/
lemma Leads.exists_schema? (h : document.Leads name schema) :
    ∃ own, document.schema? own = some (.owned schema) := by
  induction h with
  | owned h => exact ⟨_, h⟩
  | ref _ _ ih => exact ih

/-- A name leads to one schema at most. -/
lemma Leads.unique {other : Schema} (h : document.Leads name schema)
    (h' : document.Leads name other) : schema = other := by
  induction h with
  | owned h =>
    cases h' with
    | owned h' => exact Slot.owned.inj (Option.some.inj (h.symm.trans h'))
    | ref h' _ => cases h.symm.trans h'
  | ref h _ ih =>
    cases h' with
    | owned h' => cases h.symm.trans h'
    | ref h' lead =>
      cases h.symm.trans h'
      exact ih lead

/-- A reference leads to what it is followed to. -/
lemma leads_of_follow {origin : String} {hops : Nat} {reference : Reference}
    (h : (Slot.follow document origin hops (.ref reference)).result = .ok schema) :
    document.Leads reference.name schema := by
  induction hops generalizing reference with
  | zero =>
    rw [Slot.follow] at h
    obtain ⟨_, -, h⟩ := Run.bind_result_eq_ok.1 h
    cases h
  | succ hops ih =>
    rw [Slot.follow] at h
    obtain ⟨next, hn, h⟩ := Run.bind_result_eq_ok.1 h
    have held := Reference.get?_of_hop hn
    cases next with
    -- A schema that is found is what it is followed to, however many hops are left.
    | owned found =>
      have found_eq : found = schema := by
        cases hops <;> exact Except.ok.inj h
      exact .owned (found_eq ▸ held)
    | ref next => exact .ref held (ih h)

/-- A reference leads to what it resolves to. -/
lemma leads_of_resolve {reference : Reference}
    (h : ((Slot.ref reference : SchemaSlot).resolve document).result = .ok schema) :
    document.Leads reference.name schema :=
  leads_of_follow h

/-- What a position of a document resolves to stands in the document. -/
lemma Contains.resolve (hs : document.Contains slot)
    (h : (slot.resolve document).result = .ok schema) : document.Contains (.owned schema) := by
  cases slot with
  | owned found =>
    cases h
    exact hs
  | ref reference =>
    obtain ⟨own, held⟩ := (leads_of_resolve h).exists_schema?
    exact contains_of_schema? held

/-- What is inside the schema at a position of a document stands in the document, too. -/
lemma contains_inner (document : Document) (slot : SchemaSlot) (schema : Schema)
    (hs : document.Contains slot) (h : (slot.resolve document).result = .ok schema) :
    ∀ inside ∈ schema.slots, document.Contains inside :=
  fun _ mem => .inside (hs.resolve h) mem

/-- A reference of a coherent document leads to a schema with a name. -/
lemma Coherent.exists_name_of_ref (coherent : document.Coherent) {reference : Reference}
    (h : ((Slot.ref reference : SchemaSlot).resolve document).result = .ok schema) :
    ∃ name, schema.name? = some name := by
  obtain ⟨own, held⟩ := (leads_of_resolve h).exists_schema?
  exact ⟨own, (coherent.name?_eq_some_iff (contains_of_schema? held)).2 held⟩

/-- The position of a nameless schema is that of the schema itself. -/
lemma Coherent.eq_owned (coherent : document.Coherent) {slot : SchemaSlot} {schema : Schema}
    (hs : (slot.resolve document).result = .ok schema) (hn : schema.name? = none) :
    slot = .owned schema := by
  cases slot with
  | owned own =>
    cases hs
    rfl
  | ref reference =>
    obtain ⟨name, named⟩ := coherent.exists_name_of_ref hs
    rw [hn] at named
    cases named

end Document

end OpenApiManifest
