import OpenApiManifest.Proofs.Walk.Reachability

/-!
# Exploring dependencies

The references inside of a schema are those of its positions, at any depth (`Schema.SlotRefers`), and a
component refers to what its position refers to (`Document.Refers`).  What is explored from a name are the
names to which references lead over one component or more (`Dependencies.mem_reachable_iff`): no name is
explored to which they do not lead, and with steps for each reference none is left out.
-/

namespace OpenApiManifest

/-- A position refers to a name if a reference with this name stands there, or anywhere inside of the
schema that stands there.  It counts whether or not the document has a component of this name, and in
whatever section the reference looks for it. -/
inductive Schema.SlotRefers : SchemaSlot → String → Prop
  | here (reference : Reference) : SlotRefers (.ref reference) reference.name
  | inside {schema : Schema} {slot : SchemaSlot} {name : String} : slot ∈ schema.slots →
    SlotRefers slot name → SlotRefers (.owned schema) name

/-- The component schema of a name refers to another name. -/
def Document.Refers (document : Document) (name other : String) : Prop :=
  ∃ slot, document.schema? name = some slot ∧ Schema.SlotRefers slot other

/-- References lead from the component schema of a name to another name, over at least one of them. -/
def Document.Reaches (document : Document) : String → String → Prop :=
  Relation.TransGen document.Refers

/-- The references that are gathered at a position are those to which it refers. -/
lemma Schema.mem_slotReferences_iff {slot : SchemaSlot} {name : String} :
    name ∈ slotReferences slot ↔ SlotRefers slot name := by
  constructor
  · intro h
    induction hn : slotSize slot using Nat.strongRecOn generalizing slot with
    | ind size ih =>
      cases slot with
      | ref reference =>
        obtain rfl := List.mem_singleton.1 h
        exact .here reference
      | owned schema =>
        obtain ⟨inner, hi, h⟩ := mem_references.1 h
        exact .inside hi (ih _ (hn ▸ slotSize_lt_size hi) h rfl)
  · intro h
    induction h with
    | here reference => exact List.mem_singleton_self _
    | inside hi _ ih => exact mem_references.2 ⟨_, hi, ih⟩

namespace Dependencies

variable {dependencies : Dependencies} {name other : String} {pending reached : List String}
  {steps : Nat}

/-- One name depends on another. -/
def Depends (dependencies : Dependencies) (name other : String) : Prop :=
  other ∈ dependencies.of name

/-- A component depends on the names to which it refers. -/
lemma depends_ofDocument {document : Document} :
    (ofDocument document).Depends = document.Refers := by
  funext name other
  refine propext (mem_of_iff.trans (exists_congr fun slot => and_congr_right fun _ => ?_))
  exact Schema.mem_slotReferences_iff

/-- A name that depends on another is one of the table. -/
lemma Depends.mem_keys (h : dependencies.Depends name other) : name ∈ dependencies.entries.keys := by
  by_contra absent
  have missing : dependencies.of? name = none := by
    rw [← Option.not_isSome_iff_eq_none]
    exact fun held => absent (Entries.has_iff_mem_keys.1 held)
  rw [Depends, of, missing] at h
  cases h

/-- What depends on something is one of the names. -/
lemma mem_keys_of_transGen (h : Relation.TransGen dependencies.Depends name other) :
    name ∈ dependencies.entries.keys := by
  obtain ⟨next, first, -⟩ := Relation.TransGen.head'_iff.1 h
  exact first.mem_keys

/-- Exploring does not leave a set of names that is closed under dependencies. -/
lemma explore_subset {within : String → Prop}
    (closed : ∀ a, within a → ∀ b, dependencies.Depends a b → within b)
    (hp : ∀ a ∈ pending, within a) (hr : ∀ a ∈ reached, within a) :
    ∀ a ∈ dependencies.explore steps pending reached, within a := by
  induction steps generalizing pending reached with
  | zero => exact hr
  | succ steps ih =>
    cases pending with
    | nil => exact hr
    | cons name pending =>
      obtain ⟨first, hp⟩ := List.forall_mem_cons.1 hp
      rw [explore]
      split
      · exact ih hp hr
      · refine ih (List.forall_mem_append.2 ⟨closed name first, hp⟩) ?_
        exact List.forall_mem_append.2 ⟨hr, List.forall_mem_singleton.2 first⟩

/-- No name is explored twice. -/
lemma nodup_explore (h : reached.Nodup) : (dependencies.explore steps pending reached).Nodup := by
  induction steps generalizing pending reached with
  | zero => exact h
  | succ steps ih =>
    cases pending with
    | nil => exact h
    | cons name pending =>
      rw [explore]
      split
      · exact ih h
      · rename_i fresh
        exact ih (List.concat_eq_append ▸ h.concat fresh)

/-- The number of dependencies of the names in a table that are not reached yet. -/
def left (reached : List String) : Entries (List String) → Nat
  | [] => 0
  | (key, names) :: rest => (if key ∈ reached then 0 else names.length) + left reached rest

/-- Fewer dependencies are left once a name is reached, by those of this name. -/
lemma left_concat {entries : Entries (List String)} (fresh : name ∉ reached) :
    ((Entries.get? name entries).getD []).length + left (reached ++ [name]) entries ≤
      left reached entries := by
  have fewer : ∀ entries, left (reached ++ [name]) entries ≤ left reached entries := fun entries => by
    induction entries with
    | nil => exact Nat.le_refl _
    | cons entry rest ih =>
      obtain ⟨key, names⟩ := entry
      simp only [left, List.mem_append]
      split_ifs <;> first | omega | tauto
  induction entries with
  | nil => exact Nat.le_refl _
  | cons entry rest ih =>
    obtain ⟨key, names⟩ := entry
    rw [left, left, Entries.get?_cons]
    by_cases same : key = name
    · obtain rfl := same
      have here : key ∈ reached ++ [key] := List.mem_append_right _ (List.mem_singleton_self key)
      rw [if_pos rfl, if_pos here, if_neg fresh, Nat.zero_add]
      exact Nat.add_le_add_left (fewer rest) _
    · have still : key ∈ reached ++ [name] ↔ key ∈ reached := by simp [same]
      simp only [if_neg same, still]
      omega

/-- All dependencies are left before anything is reached. -/
lemma edges_eq_left : dependencies.edges = left [] dependencies.entries := by
  have counted : ∀ (entries : Entries (List String)) count,
      entries.values.foldl (fun count names => count + names.length) count =
        count + left [] entries := fun entries => by
    induction entries with
    | nil => exact fun _ => rfl
    | cons entry rest ih =>
      intro count
      rw [Entries.values, List.map_cons, List.foldl_cons, left, if_neg List.not_mem_nil, ← Nat.add_assoc]
      exact ih _
  rw [edges, counted, Nat.zero_add]

/-- What exploring comes to with steps for all that is pending and left: it holds what is pending and what
was reached before, and all on which its names depend. -/
structure Explored (dependencies : Dependencies) (pending reached explored : List String) : Prop where
  pending : ∀ a ∈ pending, a ∈ explored
  reached : ∀ a ∈ reached, a ∈ explored
  closed : ∀ a ∈ explored, ∀ b, dependencies.Depends a b → b ∈ explored

/-- No dependency of what is reached was left out: it is reached as well, or pending. -/
def Complete (dependencies : Dependencies) (pending reached : List String) : Prop :=
  ∀ a ∈ reached, ∀ b, dependencies.Depends a b → b ∈ reached ∨ b ∈ pending

namespace Complete

/-- A pending name that is reached already is not needed. -/
lemma skip (h : dependencies.Complete (name :: pending) reached) (known : name ∈ reached) :
    dependencies.Complete pending reached := by
  intro a ha b hb
  rcases h a ha b hb with h | h
  · exact .inl h
  · rcases List.mem_cons.1 h with rfl | h
    · exact .inl known
    · exact .inr h

/-- A pending name is reached, and its dependencies are pending. -/
lemma expand (h : dependencies.Complete (name :: pending) reached) :
    dependencies.Complete (dependencies.of name ++ pending) (reached ++ [name]) := by
  refine List.forall_mem_append.2 ⟨fun a ha b hb => ?_, List.forall_mem_singleton.2 fun b hb => ?_⟩
  · rcases h a ha b hb with h | h
    · exact .inl (List.mem_append_left _ h)
    · rcases List.mem_cons.1 h with rfl | h
      · exact .inl (List.mem_append_right _ (List.mem_singleton_self b))
      · exact .inr (List.mem_append_right _ h)
  · exact .inr (List.mem_append_left _ hb)

/-- What is complete with nothing pending is what exploring comes to. -/
lemma explored (h : dependencies.Complete [] reached) : dependencies.Explored [] reached reached :=
  ⟨nofun, fun _ hr => hr, fun a ha b hb => (h a ha b hb).resolve_right nofun⟩

end Complete

/-- With enough steps exploring is complete, if nothing was left out before. -/
lemma explored_explore (enough : pending.length + left reached dependencies.entries ≤ steps)
    (complete : dependencies.Complete pending reached) :
    dependencies.Explored pending reached (dependencies.explore steps pending reached) := by
  -- Each step takes a name off the pending ones, or reaches it and makes what was left of it pending.
  induction steps generalizing pending reached with
  | zero =>
    obtain rfl := List.eq_nil_of_length_eq_zero (l := pending) (by omega)
    exact complete.explored
  | succ steps ih =>
    cases pending with
    | nil => exact complete.explored
    | cons name pending =>
      rw [List.length_cons] at enough
      rw [explore]
      split
      · rename_i known
        have rest := ih (by omega) (complete.skip known)
        exact { rest with pending := List.forall_mem_cons.2 ⟨rest.reached _ known, rest.pending⟩ }
      · rename_i fresh
        have fewer : (dependencies.of name).length + left (reached ++ [name]) dependencies.entries ≤
          left reached dependencies.entries := left_concat fresh
        have rest := ih (by rw [List.length_append]; omega) complete.expand
        obtain ⟨hr, first⟩ := List.forall_mem_append.1 rest.reached
        obtain ⟨first, -⟩ := List.forall_mem_cons.1 first
        exact
          { pending := List.forall_mem_cons.2 ⟨first, (List.forall_mem_append.1 rest.pending).2⟩
            reached := hr
            closed := rest.closed }

/-- A name reaches those to which dependencies lead from it, over one of them or more. -/
theorem mem_reachable_iff :
    other ∈ dependencies.reachable name ↔ Relation.TransGen dependencies.Depends name other := by
  constructor
  · refine explore_subset (fun a ha b hb => ha.tail hb) (fun a ha => .single ha) nofun other
  · have explored : dependencies.Explored (dependencies.of name) [] (dependencies.reachable name) :=
      explored_explore (by rw [edges_eq_left]) nofun
    intro h
    induction h with
    | single first => exact explored.pending _ first
    | tail _ next ih => exact explored.closed _ ih _ next

/-- What can be reached is listed once. -/
lemma nodup_reachable : (dependencies.reachable name).Nodup :=
  nodup_explore List.nodup_nil

end Dependencies

end OpenApiManifest
