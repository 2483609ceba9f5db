import Mathlib.Data.List.Nodup
import OpenApiManifest.Proofs.References

/-!
# What is remembered about references

A reference that was found remembers the position of its entry, and when it is followed again that
position is trusted: neither its section nor its name is looked at.  In a session documents are read,
references are held, copied with what they remember, and followed in documents, in any order.  A call
answers as if nothing was remembered, and what is remembered is right, whatever was done before
(`Session.call_of_run`).  The invariant that carries this is that each position that is remembered was
found in a document of the session (`Session.Consistent`); as no two documents have one number, that
is the only document in which the reference is not foreign.
-/

namespace OpenApiManifest

/-- An entry that is found stands at the position where it is found. -/
lemma Entries.getElem?_of_locate? {α : Type} {key : String} {entries : Entries α}
    {found : Nat × α} (h : locate? key entries = some found) :
    entries[found.1]? = some (key, found.2) := by
  induction entries generalizing found with
  | nil => cases h
  | cons entry rest ih =>
    obtain ⟨k, value⟩ := entry
    rw [locate?] at h
    split at h
    · rename_i same
      cases h
      subst same
      rfl
    · obtain ⟨inner, hi, rfl⟩ := Option.map_eq_some_iff.1 h
      have later := ih hi
      exact later

/-- An entry is not found if there is none under the key. -/
lemma Entries.get?_of_locate?_eq_none {α : Type} {key : String} {entries : Entries α}
    (h : locate? key entries = none) : get? key entries = none := by
  induction entries with
  | nil => rfl
  | cons entry rest ih =>
    obtain ⟨k, value⟩ := entry
    rw [locate?] at h
    split at h
    · cases h
    · rename_i other
      rw [get?_cons, if_neg other]
      exact ih (Option.map_eq_none_iff.1 h)

section Answers

variable {α : Type} [Component α]

/-- What comes of following a reference in a document: it is foreign there unless it was read from that
document, it leads to the entry under its name if its section is the one that its position expects, and
otherwise it is unresolved. -/
inductive Reference.Answers (reference : Reference) (document : Document) :
    Except ModelError (Slot α) → Prop
  | foreign : document.id ≠ reference.place.document →
    Answers reference document (.error (.foreign reference.text))
  | entry {slot : Slot α} : document.id = reference.place.document →
    reference.within = (Component.within α).key →
    Entries.get? reference.name (Component.entries document.components) = some slot →
    Answers reference document (.ok slot)
  | unresolved {cause : Dangling} : document.id = reference.place.document →
    (reference.within = (Component.within α).key →
      Entries.get? reference.name (Component.entries (α := α) document.components) = none) →
    Answers reference document (.error (.unresolved reference.text cause))

/-- What is found by looking a reference up. -/
lemma Reference.lookup_eq_ok {reference : Reference} {document : Document} {found : Nat × Slot α}
    (h : reference.lookup document = .ok found) :
    document.id = reference.place.document ∧ reference.within = (Component.within α).key ∧
      Entries.locate? reference.name (Component.entries document.components) = some found := by
  unfold lookup at h
  split at h
  · cases h
  · rename_i own
    split at h
    · cases h
    · rename_i key within
      split at h
      · cases h
      · rename_i same
        split at h
        · rename_i entry located
          cases h
          have key_eq := ComponentSection.ofKey?_eq_some_iff.1 within
          rw [Decidable.not_not.1 same] at key_eq
          exact ⟨Decidable.not_not.1 own, key_eq.symm, located⟩
        · cases h

/-- Looking a reference up comes to what following it comes to. -/
lemma Reference.answers_of_lookup (reference : Reference) (document : Document) :
    reference.Answers document ((reference.lookup document).map fun found => (found.2 : Slot α)) := by
  cases hl : (reference.lookup document : Except ModelError (Nat × Slot α)) with
  | ok found =>
    obtain ⟨own, within, located⟩ := lookup_eq_ok hl
    exact .entry own within (Entries.get?_of_locate? located)
  | error cause =>
    unfold lookup at hl
    split at hl
    · rename_i foreign
      cases hl
      exact .foreign foreign
    · rename_i own
      have own := Decidable.not_not.1 own
      split at hl
      · rename_i unknown
        cases hl
        refine .unresolved own fun within => ?_
        rw [ComponentSection.ofKey?_eq_some_iff.2 within.symm] at unknown
        cases unknown
      · rename_i key known
        split at hl
        · rename_i other
          cases hl
          refine .unresolved own fun within => ?_
          rw [ComponentSection.ofKey?_eq_some_iff.2 within.symm] at known
          exact absurd (Option.some.inj known).symm other
        · split at hl
          · cases hl
          · rename_i absent
            cases hl
            exact .unresolved own fun _ => Entries.get?_of_locate?_eq_none absent

end Answers

namespace ComponentSection

/-- What the entries of a section hold. -/
def Value : ComponentSection → Type
  | .schemas => Schema
  | .parameters => Parameter
  | .responses => Response
  | .securitySchemes => SecurityScheme

instance (within : ComponentSection) : Component within.Value :=
  match within with
  | .schemas => inferInstanceAs (Component Schema)
  | .parameters => inferInstanceAs (Component Parameter)
  | .responses => inferInstanceAs (Component Response)
  | .securitySchemes => inferInstanceAs (Component SecurityScheme)

end ComponentSection

/-- A reference where an entry of some section is expected, with what is remembered about it. -/
structure Handle where
  expected : ComponentSection
  link : Link

namespace Handle

/-- A handle to a reference that was never followed. -/
def fresh (expected : ComponentSection) (reference : Reference) : Handle :=
  ⟨expected, reference, none⟩

/-- A handle to the same reference, with nothing remembered about it. -/
def forget (handle : Handle) : Handle :=
  fresh handle.expected handle.link.reference

/-- The answer of following the reference of a handle in a document, and the handle after it. -/
def resolve (handle : Handle) (document : Document) :
    Except ModelError (Slot handle.expected.Value) × Handle :=
  let outcome := handle.link.resolve document
  (outcome.1, { handle with link := outcome.2 })

/-- Looking the reference of a handle up in a document finds a position. -/
def Finds (handle : Handle) (document : Document) (index : Nat) : Prop :=
  ∃ slot : Slot handle.expected.Value, handle.link.reference.lookup document = .ok (index, slot)

end Handle

/-- The documents that are used side by side, the number for the next one, and the references that are
held. -/
structure Session where
  number : Nat
  documents : List Document
  handles : List Handle

/-- What is done in a session; documents and handles are told by their positions. -/
inductive SessionStep where
  | read (tree : Json)
  | hold (expected : ComponentSection) (reference : Reference)
  | copy (handle : Nat)
  | resolve (handle document : Nat)

namespace Session

/-- Does one thing in a session.  A document takes a number even if it cannot be read. -/
def step (session : Session) : SessionStep → Session
  | .read tree =>
    { session with
      number := session.number + 1
      documents := session.documents ++ (Document.read ⟨session.number⟩ tree).toOption.toList }
  | .hold expected reference =>
    { session with handles := session.handles ++ [.fresh expected reference] }
  | .copy handle => { session with handles := session.handles ++ session.handles[handle]?.toList }
  | .resolve handle document =>
    match session.handles[handle]?, session.documents[document]? with
    | some held, some own =>
      { session with handles := session.handles.set handle (held.resolve own).2 }
    | _, _ => session

/-- The session after some steps. -/
def run (steps : List SessionStep) : Session :=
  steps.foldl step ⟨0, [], []⟩

/-- No two documents have one number, and whatever is remembered was found in one of them. -/
structure Consistent (session : Session) : Prop where
  numbered : ∀ document ∈ session.documents, document.id.number < session.number
  distinct : (session.documents.map Document.id).Nodup
  remembered : ∀ handle ∈ session.handles, ∀ index, handle.link.index = some index →
    ∃ owner ∈ session.documents, handle.Finds owner index

end Session

/-- What a call comes to that follows the reference of a handle in a document. -/
structure Handle.Call (documents : List Document) (handle : Handle) (document : Document) :
    Prop where
  /-- The answer is that of a reference that was never followed. -/
  answer_eq : (handle.resolve document).1 = (handle.forget.resolve document).1
  answers : handle.link.reference.Answers document (handle.resolve document).1
  /-- A call that fails remembers nothing. -/
  unset : ∀ cause, (handle.resolve document).1 = .error cause → (handle.resolve document).2 = handle
  /-- What is remembered stays. -/
  kept : ∀ index, handle.link.index = some index → (handle.resolve document).2 = handle
  /-- What is remembered is the position of the entry. -/
  position : ∀ index, (handle.resolve document).2.link.index = some index →
    ∃ owner ∈ documents, owner.id = handle.link.reference.place.document ∧
      handle.link.reference.within = handle.expected.key ∧
      ∃ slot : Slot handle.expected.Value,
        Entries.get? handle.link.reference.name (Component.entries owner.components) = some slot ∧
        (Component.entries owner.components)[index]? = some (handle.link.reference.name, slot)

namespace Handle

variable {handle : Handle} {document : Document}

/-- The values of a section are found within it. -/
lemma within_value (expected : ComponentSection) :
    Component.within expected.Value = expected := by
  cases expected with
  | schemas => rfl
  | parameters => rfl
  | responses => rfl
  | securitySchemes => rfl

/-- A reference is foreign in the documents that it was not read from, whatever is remembered. -/
lemma resolve_of_foreign (h : document.id ≠ handle.link.reference.place.document) :
    handle.resolve document = (.error (.foreign handle.link.reference.text), handle) := by
  unfold resolve Link.resolve
  rw [if_pos h]

/-- While nothing is remembered, a call answers what the reference is looked up to. -/
lemma answer_of_none (h : handle.link.index = none) :
    (handle.resolve document).1 =
      (handle.link.reference.lookup document).map fun found => found.2 := by
  by_cases foreign : document.id ≠ handle.link.reference.place.document
  · rw [resolve_of_foreign foreign]
    unfold Reference.lookup
    rw [if_pos foreign]
    rfl
  · unfold resolve Link.resolve
    rw [if_neg foreign, h]
    cases (handle.link.reference.lookup document :
      Except ModelError (Nat × Slot handle.expected.Value)) with
    | error cause => rfl
    | ok found => rfl

/-- While nothing is remembered, a call remembers the position that it finds, if it finds one. -/
lemma handle_of_none (document : Document) (h : handle.link.index = none) :
    (∃ cause, (handle.resolve document).1 = .error cause ∧ (handle.resolve document).2 = handle) ∨
      ∃ index slot, handle.Finds document index ∧ (handle.resolve document).1 = .ok slot ∧
        (handle.resolve document).2 = { handle with link.index := some index } := by
  by_cases foreign : document.id ≠ handle.link.reference.place.document
  · rw [resolve_of_foreign foreign]
    exact .inl ⟨_, rfl, rfl⟩
  · unfold resolve Link.resolve
    rw [if_neg foreign, h]
    cases hl : (handle.link.reference.lookup document :
        Except ModelError (Nat × Slot handle.expected.Value)) with
    | error cause => exact .inl ⟨cause, rfl, rfl⟩
    | ok found => exact .inr ⟨found.1, found.2, ⟨found.2, hl⟩, rfl, rfl⟩

/-- A position at which the reference was found in this document leads to what is found there. -/
lemma resolve_of_some {index : Nat} (h : handle.link.index = some index)
    (finds : handle.Finds document index) :
    (handle.resolve document).1 =
        (handle.link.reference.lookup document).map (fun found => found.2) ∧
      (handle.resolve document).2 = handle := by
  obtain ⟨slot, found⟩ := finds
  obtain ⟨own, -, located⟩ := Reference.lookup_eq_ok found
  have entry := Entries.getElem?_of_locate? located
  have e : handle.link.resolve document = (.ok slot, handle.link) := by
    unfold Link.resolve
    rw [if_neg (not_not_intro own), h]
    simp only [entry]
  unfold resolve
  rw [e, found]
  exact ⟨rfl, rfl⟩

/-- A call changes nothing of a handle but what is remembered. -/
lemma reference_resolve : (handle.resolve document).2.link.reference = handle.link.reference := by
  unfold resolve Link.resolve
  dsimp only
  split
  · rfl
  · split
    · split
      · rfl
      · rfl
    · split
      · rfl
      · rfl

/-- What a handle finds it finds after a call, too. -/
lemma Finds.resolve {owner : Document} {index : Nat} (h : handle.Finds owner index) :
    (handle.resolve document).2.Finds owner index := by
  obtain ⟨slot, found⟩ := h
  refine ⟨slot, ?_⟩
  rw [reference_resolve]
  exact found

/-- The position of an entry that is found, in words of the components. -/
lemma Finds.position {index : Nat} (h : handle.Finds document index) :
    document.id = handle.link.reference.place.document ∧
      handle.link.reference.within = handle.expected.key ∧
      ∃ slot : Slot handle.expected.Value,
        Entries.get? handle.link.reference.name (Component.entries document.components) = some slot ∧
        (Component.entries document.components)[index]? =
          some (handle.link.reference.name, slot) := by
  obtain ⟨slot, found⟩ := h
  obtain ⟨own, within, located⟩ := Reference.lookup_eq_ok found
  rw [within_value] at within
  exact ⟨own, within, slot, Entries.get?_of_locate? located, Entries.getElem?_of_locate? located⟩

end Handle

namespace Session

variable {session : Session}

namespace Consistent

/-- The document in which a reference was found is the only one in which it is not foreign. -/
lemma eq_owner (h : session.Consistent) {handle : Handle} {owner document : Document} {index : Nat}
    (ho : owner ∈ session.documents) (hd : document ∈ session.documents)
    (finds : handle.Finds owner index)
    (own : document.id = handle.link.reference.place.document) : document = owner := by
  have same : document.id = owner.id := own.trans finds.position.1.symm
  exact List.inj_on_of_nodup_map h.distinct hd ho same

/-- What is remembered after a call was found in a document of the session. -/
lemma remembered_of_resolve (h : session.Consistent) {handle : Handle} {document : Document}
    (hh : handle ∈ session.handles) (hd : document ∈ session.documents) :
    ∀ index, (handle.resolve document).2.link.index = some index →
      ∃ owner ∈ session.documents, handle.Finds owner index := by
  intro index hi
  by_cases own : document.id = handle.link.reference.place.document
  · cases hx : handle.link.index with
    | none =>
      rcases Handle.handle_of_none document hx with ⟨_, -, e⟩ | ⟨i, _, finds, -, e⟩
      · rw [e, hx] at hi
        cases hi
      · rw [e] at hi
        cases hi
        exact ⟨document, hd, finds⟩
    | some i =>
      obtain ⟨owner, ho, finds⟩ := h.remembered handle hh i hx
      obtain rfl := h.eq_owner ho hd finds own
      rw [(Handle.resolve_of_some hx finds).2, hx] at hi
      cases hi
      exact ⟨document, ho, finds⟩
  · rw [Handle.resolve_of_foreign own] at hi
    exact h.remembered handle hh index hi

/-- A session in which nothing has happened is consistent. -/
lemma empty : Session.Consistent ⟨0, [], []⟩ where
  numbered _ h := absurd h List.not_mem_nil
  distinct := List.nodup_nil
  remembered _ h := absurd h List.not_mem_nil

/-- Reading a document keeps a session consistent: it takes a number that no other one has. -/
lemma read (h : session.Consistent) (tree : Json) : (session.step (.read tree)).Consistent := by
  cases hr : Document.read ⟨session.number⟩ tree with
  | error cause =>
    have e : session.step (.read tree) = { session with number := session.number + 1 } := by
      simp [step, hr, Except.toOption]
    rw [e]
    exact
      { numbered := fun document hd => Nat.lt_succ_of_lt (h.numbered document hd)
        distinct := h.distinct
        remembered := h.remembered }
  | ok document =>
    have e : session.step (.read tree) =
        { session with
          number := session.number + 1
          documents := session.documents ++ [document] } := by
      simp [step, hr, Except.toOption]
    have own : document.id = ⟨session.number⟩ := (Document.read_eq_ok hr).1
    rw [e]
    -- The new document has a number that no earlier one has.
    refine { numbered := ?_, distinct := ?_, remembered := ?_ }
    · intro other ho
      rcases List.mem_append.1 ho with ho | ho
      · exact Nat.lt_succ_of_lt (h.numbered other ho)
      · rw [List.mem_singleton.1 ho, own]
        exact Nat.lt_succ_self _
    · rw [List.map_append, List.nodup_append]
      refine ⟨h.distinct, List.nodup_singleton _, ?_⟩
      intro id hid other ho
      obtain ⟨earlier, he, rfl⟩ := List.mem_map.1 hid
      rw [List.mem_singleton.1 ho, own]
      intro same
      have less := h.numbered earlier he
      rw [same] at less
      exact Nat.lt_irrefl _ less
    · intro handle hh index hi
      obtain ⟨owner, ho, finds⟩ := h.remembered handle hh index hi
      exact ⟨owner, List.mem_append_left _ ho, finds⟩

/-- Holding more handles keeps a session consistent if they remember nothing or what held ones do. -/
lemma append (h : session.Consistent) {handles : List Handle}
    (known : ∀ handle ∈ handles, handle.link.index = none ∨ handle ∈ session.handles) :
    Session.Consistent { session with handles := session.handles ++ handles } where
  numbered := h.numbered
  distinct := h.distinct
  remembered handle hh index hi := by
    rcases List.mem_append.1 hh with hh | hh
    · exact h.remembered handle hh index hi
    · rcases known handle hh with absent | held
      · rw [absent] at hi
        cases hi
      · exact h.remembered handle held index hi

/-- Every step keeps a session consistent. -/
lemma step (h : session.Consistent) (step : SessionStep) : (session.step step).Consistent := by
  cases step with
  | read tree => exact h.read tree
  | hold expected reference =>
    refine h.append fun handle hh => ?_
    obtain rfl := List.mem_singleton.1 hh
    exact .inl rfl
  | copy handle =>
    refine h.append fun copied hc => ?_
    exact .inr (List.mem_of_getElem? (Option.mem_toList.1 hc))
  | resolve handle document =>
    simp only [Session.step]
    split
    · rename_i held own hh hd
      refine { numbered := h.numbered, distinct := h.distinct, remembered := ?_ }
      intro other ho index hi
      rcases List.mem_or_eq_of_mem_set ho with ho | rfl
      · exact h.remembered other ho index hi
      · obtain ⟨owner, ho, finds⟩ :=
          h.remembered_of_resolve (List.mem_of_getElem? hh) (List.mem_of_getElem? hd) index hi
        exact ⟨owner, ho, finds.resolve⟩
    · exact h

/-- Every session is consistent. -/
lemma run (steps : List SessionStep) : (Session.run steps).Consistent :=
  List.foldlRecOn steps _ .empty fun _ h next _ => h.step next

/-- In a consistent session a call comes to what it comes to without what is remembered. -/
lemma call (h : session.Consistent) {handle : Handle} {document : Document}
    (hh : handle ∈ session.handles) (hd : document ∈ session.documents) :
    handle.Call session.documents document := by
  -- With or without an index that is remembered, the answer is what looking up the name gives.
  have looked : (handle.resolve document).1 =
      (handle.link.reference.lookup document).map fun found => found.2 := by
    cases hx : handle.link.index with
    | none => exact Handle.answer_of_none hx
    | some index =>
      by_cases own : document.id = handle.link.reference.place.document
      · obtain ⟨owner, ho, finds⟩ := h.remembered handle hh index hx
        obtain rfl := h.eq_owner ho hd finds own
        exact (Handle.resolve_of_some hx finds).1
      · rw [Handle.resolve_of_foreign own]
        unfold Reference.lookup
        rw [if_pos own]
        rfl
  have forgot : (handle.forget.resolve document).1 =
      (handle.link.reference.lookup document).map fun found => found.2 := by
    have nothing : handle.forget.link.index = none := rfl
    exact Handle.answer_of_none nothing
  have kept : ∀ index, handle.link.index = some index → (handle.resolve document).2 = handle := by
    intro index hx
    by_cases own : document.id = handle.link.reference.place.document
    · obtain ⟨owner, ho, finds⟩ := h.remembered handle hh index hx
      obtain rfl := h.eq_owner ho hd finds own
      exact (Handle.resolve_of_some hx finds).2
    · rw [Handle.resolve_of_foreign own]
  refine ⟨looked.trans forgot.symm, ?_, ?_, kept, ?_⟩
  · rw [looked]
    exact Reference.answers_of_lookup handle.link.reference document
  · intro cause fails
    cases hx : handle.link.index with
    | none =>
      rcases Handle.handle_of_none document hx with ⟨_, -, e⟩ | ⟨_, _, -, succeeds, -⟩
      · exact e
      · cases succeeds.symm.trans fails
    | some index => exact kept index hx
  · intro index hi
    obtain ⟨owner, ho, finds⟩ := h.remembered_of_resolve hh hd index hi
    exact ⟨owner, ho, finds.position⟩

end Consistent

/-- A step changes a handle only by a call that follows its reference. -/
lemma getElem?_step (session : Session) (step : SessionStep) {i : Nat} {handle : Handle}
    (h : session.handles[i]? = some handle) :
    (session.step step).handles[i]? = some handle ∨
      ∃ d document, step = .resolve i d ∧ session.documents[d]? = some document ∧
        (session.step step).handles[i]? = some (handle.resolve document).2 := by
  have lt : i < session.handles.length := (List.getElem?_eq_some_iff.1 h).1
  cases step with
  | read tree => exact .inl h
  | hold expected reference =>
    refine .inl ?_
    rw [Session.step, List.getElem?_append_left lt]
    exact h
  | copy copied =>
    refine .inl ?_
    rw [Session.step, List.getElem?_append_left lt]
    exact h
  | resolve j d =>
    simp only [Session.step]
    split
    · rename_i held document hh hd
      by_cases same : j = i
      · subst same
        obtain rfl := Option.some.inj (hh.symm.trans h)
        exact .inr ⟨d, document, rfl, hd, List.getElem?_set_self lt⟩
      · refine .inl ?_
        rw [List.getElem?_set_ne same]
        exact h
    · exact .inl h

/-- Whatever was done before, following a reference comes to what it comes to if it was never followed,
and what is remembered is the position of its entry; it is set by a call that succeeds, and stays. -/
theorem call_of_run (steps : List SessionStep) :
    (∀ handle ∈ (run steps).handles, ∀ document ∈ (run steps).documents,
      handle.Call (run steps).documents document) ∧
    ∀ next i handle, (run steps).handles[i]? = some handle →
      ((run steps).step next).handles[i]? = some handle ∨
        ∃ d document, next = .resolve i d ∧ (run steps).documents[d]? = some document ∧
          ((run steps).step next).handles[i]? = some (handle.resolve document).2 := by
  constructor
  · intro handle hh document hd
    exact (Consistent.run steps).call hh hd
  · intro next i handle h
    exact getElem?_step _ next h

/-- A session with two documents of one description, in which a reference of the first is copied before
and after it is followed in both. -/
def noteSteps : List SessionStep :=
  let tree : Json := .obj [
    ("openapi", .str "3.0.0"),
    ("info", .obj [("title", .str "Notes"), ("version", .str "1")]),
    ("components", .obj [("schemas", .obj [
      ("Label", .obj [("type", .str "string")]),
      ("Note", .obj [("type", .str "object")]),
      ("Notes", .obj [
        ("type", .str "array"),
        ("items", .obj [("$ref", .str "#/components/schemas/Note")])])])])]
  let reference : Reference :=
    ⟨"#/components/schemas/Note", "schemas", "Note", ⟨⟨0⟩, "#/components/schemas/Notes/items"⟩⟩
  [.read tree, .read tree, .hold .schemas reference, .copy 0, .resolve 0 1, .resolve 0 0, .copy 0]

/-- The call in the second document is foreign and remembers nothing, the one in the first remembers
where the entry stands, and only the later copy knows. -/
theorem call_of_run_notes :
    (run noteSteps).documents.length = 2 ∧
      (run noteSteps).handles.map (fun handle => handle.link.index) = [some 1, none, some 1] ∧
      ∃ handle, (run noteSteps).handles[2]? = some handle ∧ handle.link.index = some 1 ∧
        (∀ document ∈ (run noteSteps).documents, handle.Call (run noteSteps).documents document) ∧
        ((run noteSteps).step (.resolve 0 1)).handles[2]? = some handle := by
  have documents : (run noteSteps).documents.length = 2 := by decide +kernel
  have remembered : (run noteSteps).handles.map (fun handle => handle.link.index) =
      [some 1, none, some 1] := by decide +kernel
  have copied : ((run noteSteps).handles[2]?).map (fun handle => handle.link.index) =
      some (some 1) := by
    rw [← List.getElem?_map, remembered]
    rfl
  obtain ⟨handle, held, index⟩ := Option.map_eq_some_iff.1 copied
  obtain ⟨calls, changes⟩ := call_of_run noteSteps
  refine ⟨documents, remembered, handle, held, index, ?_, ?_⟩
  · exact fun document hd => calls handle (List.mem_of_getElem? held) document hd
  · rcases changes (.resolve 0 1) 2 handle held with same | ⟨d, document, other, -⟩
    · exact same
    · cases other

end Session

end OpenApiManifest
