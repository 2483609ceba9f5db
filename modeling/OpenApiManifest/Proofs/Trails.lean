import Mathlib.Data.List.Chain
import Mathlib.Data.List.Perm.Subperm
import Mathlib.Data.List.TakeWhile
import Mathlib.Logic.Relation
import OpenApiManifest.Proofs.References

/-!
# Trails

What goes from schema to schema and enters no name twice leaves a trail (`Schema.Trail`).  From one schema
finitely many are come to (`Document.exists_pool`), so a trail is short, unless it comes to a nameless
schema that leads back to itself through nameless ones (`Schema.OnCircle`).  Work that stops at the names
that it has entered therefore ends within the steps that a document is given
(`Schema.Trail.length_lt_steps`).
-/

namespace OpenApiManifest

/-- A schema holds another at one of its positions, there or by a reference. -/
def Schema.Holds (document : Document) (schema inner : Schema) : Prop :=
  ∃ slot ∈ schema.slots, (slot.resolve document).result = .ok inner

/-- What a schema of a document holds stands in the document. -/
lemma Document.Contains.holds {document : Document} {schema inner : Schema}
    (contains : document.Contains (.owned schema)) (h : schema.Holds document inner) :
    document.Contains (.owned inner) := by
  obtain ⟨slot, hs, hr⟩ := h
  exact Contains.resolve (.inside contains hs) hr

/-- What schemas of a document lead to, one holding the next, stands in the document. -/
lemma Document.Contains.leads {document : Document} {schema inner : Schema}
    (contains : document.Contains (.owned schema))
    (h : Relation.ReflTransGen (Schema.Holds document) schema inner) :
    document.Contains (.owned inner) := by
  induction h with
  | refl => exact contains
  | tail _ holds ih => exact ih.holds holds

/-- Schemas of a coherent document with one name are the same. -/
lemma Document.Coherent.eq_of_name {document : Document} (coherent : document.Coherent) {name : String}
    {schema other : Schema} (hs : document.Contains (.owned schema))
    (ho : document.Contains (.owned other)) (named : schema.name? = some name)
    (named' : other.name? = some name) : schema = other := by
  have held := (coherent.name?_eq_some_iff hs).1 named
  have held' := (coherent.name?_eq_some_iff ho).1 named'
  exact Slot.owned.inj (Option.some.inj (held.symm.trans held'))

section Pool

/-- The size of members and more is that of both together. -/
lemma Schema.membersSize_append (members more : List SchemaSlot) :
    membersSize (members ++ more) = membersSize members + membersSize more := by
  induction members with
  | nil => exact (Nat.zero_add _).symm
  | cons slot rest ih => rw [List.cons_append, membersSize, ih, membersSize, Nat.add_assoc]

/-- The size of properties is that of their slots as members. -/
lemma Schema.membersSize_values (properties : Entries SchemaSlot) :
    membersSize properties.values = propertiesSize properties := by
  induction properties with
  | nil => rfl
  | cons entry rest ih =>
    change slotSize entry.2 + membersSize (Entries.values rest) = _
    rw [ih, propertiesSize]

/-- The positions of a schema are smaller than itself. -/
lemma Schema.membersSize_slots_lt (schema : Schema) : membersSize schema.slots < schema.size := by
  obtain ⟨info, kind⟩ := schema
  cases kind with
  | primitive type constraints => exact Nat.one_pos
  | enum values => exact Nat.one_pos
  | array items least most => exact Nat.lt_succ_self _
  | object properties required additional =>
    rw [slots, SchemaKind.slots, membersSize_append, membersSize_values, size]
    refine Nat.lt_succ_of_le (Nat.add_le_add_left ?_ _)
    cases additional <;> exact Nat.le_refl _
  | oneOf members => exact Nat.lt_succ_self _
  | allOf members => exact Nat.lt_succ_self _
  | anyOf members => exact Nat.lt_succ_self _

/-- Schemas among which are those that stand at the positions of any of them. -/
def Schema.Nested (schemas : List Schema) : Prop :=
  ∀ schema ∈ schemas, ∀ inner, .owned inner ∈ schema.slots → inner ∈ schemas

/-- Two lists of schemas that are each nested are nested together. -/
lemma Schema.Nested.append {schemas more : List Schema} (h : Nested schemas) (h' : Nested more) :
    Nested (schemas ++ more) := by
  intro schema hs inner hi
  rcases List.mem_append.1 hs with hs | hs
  · exact List.mem_append_left _ (h schema hs inner hi)
  · exact List.mem_append_right _ (h' schema hs inner hi)

/-- The schemas at some positions and inside them are no more than the positions are large. -/
lemma Schema.exists_nested_of_slots {slots : List SchemaSlot}
    (each : ∀ schema, .owned schema ∈ slots →
      ∃ schemas, schemas.length ≤ schema.size ∧ schema ∈ schemas ∧ Nested schemas) :
    ∃ schemas, schemas.length ≤ membersSize slots ∧
      (∀ schema, .owned schema ∈ slots → schema ∈ schemas) ∧ Nested schemas := by
  induction slots with
  | nil =>
    exact ⟨[], Nat.le_refl _, fun _ hs => absurd hs List.not_mem_nil,
      fun _ hs => absurd hs List.not_mem_nil⟩
  | cons slot rest ih =>
    obtain ⟨others, few, present, nested⟩ := ih fun schema hs => each schema (List.mem_cons_of_mem _ hs)
    rw [membersSize]
    cases slot with
    | ref reference =>
      refine ⟨others, Nat.le_trans few (Nat.le_add_left _ _), fun schema hs => ?_, nested⟩
      rcases List.mem_cons.1 hs with e | hs
      · cases e
      · exact present schema hs
    | owned own =>
      obtain ⟨schemas, small, here, inside⟩ := each own List.mem_cons_self
      refine ⟨schemas ++ others, ?_, fun schema hs => ?_, inside.append nested⟩
      · rw [List.length_append, slotSize]
        exact Nat.add_le_add small few
      · rcases List.mem_cons.1 hs with e | hs
        · cases e
          exact List.mem_append_left _ here
        · exact List.mem_append_right _ (present schema hs)

/-- A schema and those inside it are no more than it is large. -/
lemma Schema.exists_nested (schema : Schema) :
    ∃ schemas, schemas.length ≤ schema.size ∧ schema ∈ schemas ∧ Nested schemas := by
  -- By induction on the size: what stands at a position is smaller.
  induction hn : schema.size using Nat.strongRecOn generalizing schema with
  | ind n ih =>
    subst hn
    have smaller : ∀ inner, .owned inner ∈ schema.slots →
        ∃ schemas, schemas.length ≤ inner.size ∧ inner ∈ schemas ∧ Nested schemas :=
      fun inner hi => ih inner.size (slotSize_lt_size hi) inner rfl
    obtain ⟨inside, few, present, nested⟩ := exists_nested_of_slots smaller
    refine ⟨schema :: inside, ?_, List.mem_cons_self, fun other ho inner hi => ?_⟩
    · exact Nat.lt_of_le_of_lt few schema.membersSize_slots_lt
    · rcases List.mem_cons.1 ho with rfl | ho
      · exact List.mem_cons_of_mem _ (present inner hi)
      · exact List.mem_cons_of_mem _ (nested other ho inner hi)

/-- From one schema only so many are come to: those inside it, and those inside the components. -/
lemma Document.exists_pool (document : Document) (root : Schema) :
    ∃ pool : List Schema,
      pool.length ≤ root.size + Schema.propertiesSize document.components.schemas ∧ root ∈ pool ∧
        ∀ schema ∈ pool, ∀ inner, schema.Holds document inner → inner ∈ pool := by
  obtain ⟨own, small, here, nested⟩ := root.exists_nested
  have each : ∀ schema, .owned schema ∈ document.components.schemas.values →
      ∃ schemas, schemas.length ≤ schema.size ∧ schema ∈ schemas ∧ Schema.Nested schemas :=
    fun schema _ => schema.exists_nested
  obtain ⟨shared, few, present, nested'⟩ := Schema.exists_nested_of_slots each
  refine ⟨own ++ shared, ?_, List.mem_append_left _ here, fun schema hs inner hi => ?_⟩
  · rw [List.length_append]
    exact Nat.add_le_add small (Schema.membersSize_values _ ▸ few)
  · obtain ⟨slot, hslot, hr⟩ := hi
    -- Either the schema stands at the position, or a component holds it.
    rcases Slot.eq_or_exists_of_resolve hr with rfl | ⟨name, held⟩
    · exact nested.append nested' schema hs inner hslot
    · refine List.mem_append_right _ (present inner ?_)
      exact List.mem_map.2 ⟨_, Entries.mem_of_get? held, rfl⟩

end Pool

/-- A nameless schema that some steps lead back to through nameless schemas only. -/
def Schema.OnCircle (next : Schema → Schema → Prop) (schema : Schema) : Prop :=
  Relation.TransGen (fun schema inner =>
    next schema inner ∧ schema.name? = none ∧ inner.name? = none) schema schema

namespace Schema.OnCircle

variable {next : Schema → Schema → Prop} {schema : Schema}

/-- A schema on a circle has no name. -/
lemma nameless (circle : schema.OnCircle next) : schema.name? = none := by
  obtain ⟨_, step, -⟩ := Relation.TransGen.head'_iff.1 circle
  exact step.2.1

/-- What follows on a circle is on it, too. -/
lemma exists_next (circle : schema.OnCircle next) : ∃ inner, next schema inner ∧ inner.OnCircle next := by
  obtain ⟨inner, step, back⟩ := Relation.TransGen.head'_iff.1 circle
  exact ⟨inner, step.1, .tail' back step⟩

end Schema.OnCircle

/-- Schemas that lead from one to the next, the first of them to be told by where the trail starts.  No
name occurs twice, and none of those that were entered before. -/
structure Schema.Trail (next : Schema → Schema → Prop) (entered : List String) (start : Schema)
    (path : List Schema) : Prop where
  chain : path.IsChain next
  head : ∀ first ∈ path.head?, first = start
  distinct : (path.filterMap Schema.name?).Nodup
  fresh : ∀ name ∈ path.filterMap Schema.name?, name ∉ entered

namespace Schema.Trail

variable {next : Schema → Schema → Prop} {entered : List String} {start : Schema} {path : List Schema}

/-- A trail may be empty. -/
lemma nil : Trail next entered start [] where
  chain := .nil
  head := nofun
  distinct := List.nodup_nil
  fresh := nofun

/-- A schema whose name was not entered may be put before a trail on which the name is entered. -/
lemma cons {schema : Schema} {before : List String} (trail : Trail next entered start path)
    (step : next schema start) (fresh : ∀ name ∈ schema.name?, name ∉ before)
    (own : schema.name?.toList ⊆ entered) (more : before ⊆ entered) :
    Trail next before schema (schema :: path) where
  chain := List.isChain_cons.2 ⟨fun first hf => trail.head first hf ▸ step, trail.chain⟩
  head first hf := (Option.some.inj hf).symm
  distinct := by
    cases hn : schema.name? with
    | none =>
      rw [List.filterMap_cons_none hn]
      exact trail.distinct
    | some name =>
      rw [List.filterMap_cons_some hn, List.nodup_cons]
      refine ⟨fun twice => trail.fresh name twice (own ?_), trail.distinct⟩
      rw [hn]
      exact List.mem_singleton_self name
  fresh name h := by
    obtain ⟨other, ho, hn⟩ := List.mem_filterMap.1 h
    rcases List.mem_cons.1 ho with rfl | ho
    · exact fresh name hn
    · exact fun mem => trail.fresh name (List.mem_filterMap.2 ⟨other, ho, hn⟩) (more mem)

/-- What the steps keep holds all along a trail, if it holds at its start. -/
lemma keeps {holds : Schema → Prop} (trail : Trail next entered start path) (first : holds start)
    (keep : ∀ schema inner, holds schema → next schema inner → holds inner) :
    ∀ schema ∈ path, holds schema := by
  have chain := trail.chain
  have head : ∀ schema ∈ path.head?, holds schema := fun schema hs => trail.head schema hs ▸ first
  clear trail
  induction path with
  | nil => nofun
  | cons schema rest ih =>
    have own : holds schema := head schema rfl
    obtain ⟨step, chain⟩ := List.isChain_cons.1 chain
    intro other ho
    rcases List.mem_cons.1 ho with rfl | ho
    · exact own
    · exact ih chain (fun inner hi => keep schema inner own (step inner hi)) other ho

end Schema.Trail

section Length

variable {next : Schema → Schema → Prop} {path pool : List Schema}

/-- The nameless schemas at the head of a chain without circles are distinct, so there are no more of them
than schemas are come to. -/
lemma length_takeWhile_nameless_le (chain : path.IsChain next) (within : path ⊆ pool)
    (free : ∀ schema ∈ path, ¬ schema.OnCircle next) :
    (path.takeWhile fun schema => schema.name?.isNone).length ≤ pool.length := by
  have head : path.takeWhile (fun schema => schema.name?.isNone) <+: path := List.takeWhile_prefix _
  have nameless : ∀ schema ∈ path.takeWhile (fun schema => schema.name?.isNone),
      schema.name? = none := by
    intro schema hs
    have none := List.mem_takeWhile_imp hs
    exact Option.isNone_iff_eq_none.1 none
  have chain := List.IsChain.prefix chain head
  have linked := (List.IsChain.iff_mem.1 chain).imp
    fun schema inner (h : _ ∧ _ ∧ _) => Relation.TransGen.single
      (r := fun schema inner => next schema inner ∧ schema.name? = none ∧ inner.name? = none)
      ⟨h.2.2, nameless schema h.1, nameless inner h.2.1⟩
  have distinct : (path.takeWhile fun schema => schema.name?.isNone).Nodup := by
    refine (List.isChain_iff_pairwise.1 linked).imp_of_mem fun {schema inner} hs _ leads => ?_
    rintro rfl
    exact free schema (head.subset hs) leads
  exact (distinct.subperm fun schema hs => within (head.subset hs)).length_le

/-- Between two names of a path there are few nameless schemas, so that the path is short. -/
lemma length_le_of_nameless_le {bound : Nat}
    (few : ∀ rest, rest <:+ path →
      (rest.takeWhile fun schema => schema.name?.isNone).length ≤ bound) :
    path.length ≤ (path.filterMap Schema.name?).length * (bound + 1) +
      (path.takeWhile fun schema => schema.name?.isNone).length := by
  induction path with
  | nil => exact Nat.zero_le _
  | cons schema rest ih =>
    have shorter := ih fun other ho => few other (ho.trans (List.suffix_cons schema rest))
    cases hn : schema.name? with
    | none =>
      rw [List.filterMap_cons_none hn, List.takeWhile_cons_of_pos (by rw [hn]; rfl)]
      exact Nat.succ_le_succ shorter
    | some name =>
      have nameless := few rest (List.suffix_cons schema rest)
      rw [List.filterMap_cons_some hn, List.takeWhile_cons_of_neg (by rw [hn]; nofun)]
      rw [List.length_cons, List.length_cons, Nat.succ_mul]
      simp only [List.length_nil]
      omega

end Length

/-- A nameless schema that a schema of a coherent document holds stands inside it. -/
lemma Document.Coherent.size_lt_of_holds {document : Document} (coherent : document.Coherent)
    {schema inner : Schema} (h : schema.Holds document inner) (nameless : inner.name? = none) :
    inner.size < schema.size := by
  obtain ⟨slot, hs, hr⟩ := h
  obtain rfl := coherent.eq_owned hr nameless
  exact Schema.slotSize_lt_size hs

/-- Nothing leads from a nameless schema back to it, where each step goes to a schema that is held. -/
lemma Document.Coherent.not_onCircle {document : Document} (coherent : document.Coherent)
    {next : Schema → Schema → Prop} (held : ∀ schema inner, next schema inner → schema.Holds document inner)
    {schema : Schema} : ¬ schema.OnCircle next := by
  have smaller : ∀ inner, Relation.TransGen (fun schema inner : Schema =>
      next schema inner ∧ schema.name? = none ∧ inner.name? = none) schema inner →
      inner.size < schema.size := by
    intro inner leads
    induction leads with
    | single step => exact coherent.size_lt_of_holds (held _ _ step.1) step.2.2
    | tail _ step ih => exact Nat.lt_trans (coherent.size_lt_of_holds (held _ _ step.1) step.2.2) ih
  exact fun circle => Nat.lt_irrefl _ (smaller schema circle)

section Steps

variable {document : Document} (coherent : document.Coherent) {next : Schema → Schema → Prop}
  (inward : ∀ schema inner, next schema inner → Relation.ReflTransGen (Schema.Holds document) schema inner)
  {root : Schema} (contains : document.Contains (.owned root)) {entered : List String}
  {path : List Schema}
include coherent inward contains

/-- A trail that comes to no circle is short: between any two of its names stand distinct schemas. -/
lemma Schema.Trail.length_lt (trail : Schema.Trail next entered root path)
    (free : ∀ schema, Relation.ReflTransGen next root schema → ¬ schema.OnCircle next) :
    path.length < (document.components.schemas.length + 2)
      * (root.size + Schema.propertiesSize document.components.schemas + 1) := by
  obtain ⟨pool, few, here, closed⟩ := document.exists_pool root
  have within : ∀ schema ∈ path, schema ∈ pool := trail.keeps here fun schema inner hs step => by
    have leads := inward schema inner step
    clear step
    induction leads with
    | refl => exact hs
    | tail _ holds ih => exact closed _ ih _ holds
  have there : ∀ schema ∈ path, document.Contains (.owned schema) :=
    trail.keeps contains fun schema inner hs step => hs.leads (inward schema inner step)
  have free : ∀ schema ∈ path, ¬ schema.OnCircle next := fun schema hs =>
    free schema (trail.keeps .refl (fun _ _ reached step => reached.tail step) schema hs)
  -- The names on the trail are distinct keys of the components.
  have known : path.filterMap Schema.name? ⊆ document.components.schemas.keys := by
    intro name hn
    obtain ⟨schema, hs, named⟩ := List.mem_filterMap.1 hn
    have held := (coherent.name?_eq_some_iff (there schema hs)).1 named
    exact List.mem_map.2 ⟨_, Entries.mem_of_get? held, rfl⟩
  have names : (path.filterMap Schema.name?).length ≤ document.components.schemas.length := by
    have le := (trail.distinct.subperm known).length_le
    rwa [Entries.keys, List.length_map] at le
  have nameless : ∀ rest, rest <:+ path →
      (rest.takeWhile fun schema => schema.name?.isNone).length ≤ pool.length := fun rest part =>
    length_takeWhile_nameless_le (trail.chain.suffix part) (fun schema hs => within schema (part.subset hs))
      fun schema hs => free schema (part.subset hs)
  calc path.length
      ≤ (path.filterMap Schema.name?).length * (pool.length + 1) +
          (path.takeWhile fun schema => schema.name?.isNone).length := length_le_of_nameless_le nameless
    _ ≤ document.components.schemas.length * (pool.length + 1) + pool.length :=
        Nat.add_le_add (Nat.mul_le_mul_right _ names) (nameless path (List.suffix_refl path))
    _ < (document.components.schemas.length + 2) * (pool.length + 1) := by
        rw [Nat.add_mul]
        omega
    _ ≤ (document.components.schemas.length + 2)
          * (root.size + Schema.propertiesSize document.components.schemas + 1) :=
        Nat.mul_le_mul_left _ (Nat.succ_le_succ few)

/-- A trail that comes to no circle is shorter than the steps that the document is given for its start. -/
theorem Schema.Trail.length_lt_steps (trail : Schema.Trail next entered root path)
    (free : ∀ schema, Relation.ReflTransGen next root schema → ¬ schema.OnCircle next) :
    path.length < document.steps root.size := by
  refine Nat.lt_of_lt_of_le (trail.length_lt coherent inward contains free) ?_
  exact Nat.mul_le_mul (by omega) (by omega)

end Steps

end OpenApiManifest
