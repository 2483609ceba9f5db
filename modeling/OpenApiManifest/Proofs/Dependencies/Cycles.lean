import OpenApiManifest.Proofs.Dependencies.ByteOrder
import OpenApiManifest.Proofs.Dependencies.Exploring

/-!
# Cycles

The cycles of a document are the classes of its component schemas that reach one another through their
references, each sorted and listed once (`Document.cycles_exact`).  They are listed by what is explored
from each name; that they can be read off the strongly connected components of the graph as well is the
second half of the theorem, in which the components are given.
-/

namespace OpenApiManifest

/-- What is computed for each of some keys is found under those keys, and nothing under others. -/
lemma Entries.get?_map_key {α : Type} (f : String → α) (key : String) (keys : List String) :
    get? key (keys.map fun key => (key, f key)) = if key ∈ keys then some (f key) else none := by
  induction keys with
  | nil => rfl
  | cons first rest ih =>
    rw [List.map_cons, get?_cons, ih]
    by_cases same : first = key
    · simp [same]
    · simp [same, Ne.symm same]

namespace Dependencies

variable {dependencies : Dependencies} {name other : String} {group : List String}
  {components : List (List String)}

/-- Two names depend on each other, each over at least one dependency. -/
def Together (dependencies : Dependencies) (name other : String) : Prop :=
  Relation.TransGen dependencies.Depends name other ∧ Relation.TransGen dependencies.Depends other name

namespace Together

variable {third : String}

/-- Two names depend on each other in either order. -/
lemma symm (h : dependencies.Together name other) : dependencies.Together other name :=
  ⟨h.2, h.1⟩

/-- Two names are together if both are together with a third one. -/
lemma trans (h : dependencies.Together name other) (h' : dependencies.Together other third) :
    dependencies.Together name third :=
  ⟨h.1.trans h'.1, h'.2.trans h.2⟩

/-- A name that is together with another depends on itself. -/
lemma self (h : dependencies.Together name other) : dependencies.Together name name :=
  h.trans h.symm

/-- What is together with one of two names that are together is together with the other. -/
lemma iff_of_together (h : dependencies.Together name other) :
    dependencies.Together name third ↔ dependencies.Together other third :=
  ⟨h.symm.trans, h.trans⟩

/-- A name that is together with no name but itself depends on itself. -/
lemma depends_self (h : dependencies.Together name name)
    (alone : ∀ third, dependencies.Together name third → third = name) :
    dependencies.Depends name name := by
  obtain ⟨next, first, back⟩ := Relation.TransGen.head'_iff.1 h.1
  rcases Relation.reflTransGen_iff_eq_or_transGen.1 back with rfl | back
  · exact first
  · obtain rfl := alone next ⟨.single first, back⟩
    exact first

end Together

/-- A group is a cycle if it holds what is together with any of its names, and is sorted. -/
structure IsCycle (dependencies : Dependencies) (group : List String) : Prop where
  sorted : group.Pairwise (· < ·)
  nonempty : ∃ name, name ∈ group
  together : ∀ name ∈ group, ∀ other, other ∈ group ↔ dependencies.Together name other

/-- Cycles that share a name are the same. -/
lemma IsCycle.eq_of_mem {another : List String} (h : dependencies.IsCycle group)
    (h' : dependencies.IsCycle another) (hg : name ∈ group) (ha : name ∈ another) : group = another := by
  refine h.sorted.sortedLT.eq_of_mem_iff h'.sorted.sortedLT fun other => ?_
  rw [h.together name hg, h'.together name ha]

/-- The name of a cycle that is alone in it depends on itself. -/
lemma IsCycle.depends_self (h : dependencies.IsCycle [name]) : dependencies.Depends name name := by
  have mem := List.mem_singleton_self name
  refine ((h.together name mem name).1 mem).depends_self fun third ht => ?_
  exact List.mem_singleton.1 ((h.together name mem third).2 ht)

/-- Sorting keeps the names. -/
lemma mem_sortNames {names : List String} : name ∈ sortNames names ↔ name ∈ names :=
  (List.mergeSort_perm _ _).mem_iff

/-- Distinct names increase when they are sorted. -/
lemma pairwise_sortNames {names : List String} (h : names.Nodup) :
    (sortNames names).Pairwise (· < ·) :=
  pairwise_lt_mergeSort h

/-- What each name of a graph reaches. -/
def table (dependencies : Dependencies) : Entries (List String) :=
  dependencies.entries.keys.map fun key => (key, dependencies.reachable key)

/-- A name that is not in the table reaches nothing. -/
lemma get?_table : (Entries.get? name dependencies.table).getD [] = dependencies.reachable name := by
  rw [table, Entries.get?_map_key]
  split
  · rfl
  · rename_i absent
    refine (List.eq_nil_iff_forall_not_mem.2 fun other h => ?_).symm
    exact absent (mem_keys_of_transGen (mem_reachable_iff.1 h))

/-- The group of a name holds the names that are together with it. -/
lemma mem_group : other ∈ Dependencies.group dependencies.table name ↔ dependencies.Together name other := by
  rw [Dependencies.group]
  simp only [get?_table]
  split
  · rw [List.mem_filter, decide_eq_true_iff, mem_reachable_iff, mem_reachable_iff]
    rfl
  · rename_i apart
    rw [mem_reachable_iff] at apart
    exact iff_of_false List.not_mem_nil fun h => apart h.self.1

/-- A group has no name twice. -/
lemma nodup_group : (Dependencies.group dependencies.table name).Nodup := by
  rw [Dependencies.group]
  split
  · rw [get?_table]
    exact nodup_reachable.filter _
  · exact List.nodup_nil

/-- The sorted group of a name that is in a circle is a cycle. -/
lemma isCycle_sortNames (h : dependencies.Together name name) :
    dependencies.IsCycle (sortNames (Dependencies.group dependencies.table name)) where
  sorted := pairwise_sortNames nodup_group
  nonempty := ⟨name, mem_sortNames.2 (mem_group.2 h)⟩
  together a ha b := by
    rw [mem_sortNames, mem_group] at ha ⊢
    exact ha.iff_of_together

/-- The sorted group of a name, if the name is the first of it. -/
def listed? (dependencies : Dependencies) (name : String) : Option (List String) :=
  let members := sortNames (Dependencies.group dependencies.table name)
  if members.head? = some name then some members else none

/-- The cycles are listed by going through all names in their order. -/
lemma cycles_eq_filterMap :
    dependencies.cycles = (sortNames dependencies.entries.keys).filterMap dependencies.listed? := rfl

/-- A group is listed at a name exactly if it is a cycle that begins with the name. -/
lemma listed?_eq_some_iff : dependencies.listed? name = some group ↔
    dependencies.IsCycle group ∧ group.head? = some name := by
  constructor
  · intro listed
    obtain ⟨first, e⟩ := Option.ite_none_right_eq_some.1 listed
    obtain rfl := Option.some.inj e
    have mem := List.mem_of_head? first
    rw [mem_sortNames, mem_group] at mem
    exact ⟨isCycle_sortNames mem, first⟩
  · rintro ⟨h, first⟩
    have mem := List.mem_of_head? first
    have circle := (h.together name mem name).1 mem
    have same := (isCycle_sortNames circle).eq_of_mem h (mem_sortNames.2 (mem_group.2 circle)) mem
    rw [listed?, same]
    exact if_pos first

/-- Each cycle is listed, and nothing else. -/
lemma mem_cycles_iff : group ∈ dependencies.cycles ↔ dependencies.IsCycle group := by
  rw [cycles_eq_filterMap, List.mem_filterMap]
  constructor
  · rintro ⟨name, -, listed⟩
    exact (listed?_eq_some_iff.1 listed).1
  · intro h
    obtain ⟨some, mem⟩ := h.nonempty
    obtain ⟨name, rest, rfl⟩ := List.exists_cons_of_ne_nil (List.ne_nil_of_mem mem)
    have circle := (h.together name List.mem_cons_self name).1 List.mem_cons_self
    exact ⟨name, mem_sortNames.2 (mem_keys_of_transGen circle.1), listed?_eq_some_iff.2 ⟨h, rfl⟩⟩

/-- Two names are in one cycle exactly if they are together. -/
lemma exists_cycle_iff :
    (∃ group ∈ dependencies.cycles, name ∈ group ∧ other ∈ group) ↔ dependencies.Together name other := by
  constructor
  · rintro ⟨group, hg, hn, ho⟩
    exact ((mem_cycles_iff.1 hg).together name hn other).1 ho
  · intro h
    refine ⟨_, mem_cycles_iff.2 (isCycle_sortNames h.self), ?_⟩
    simp only [mem_sortNames, mem_group]
    exact ⟨h.self, h⟩

/-- The cycles are listed in the order of their first names. -/
lemma pairwise_cycles (distinct : dependencies.entries.keys.Nodup) :
    dependencies.cycles.Pairwise (· < ·) := by
  rw [cycles_eq_filterMap, List.pairwise_filterMap]
  refine (pairwise_sortNames distinct).imp fun {a b} less one ho other ht => ?_
  obtain ⟨rest, rfl⟩ := List.head?_eq_some_iff.1 (listed?_eq_some_iff.1 ho).2
  obtain ⟨rest', rfl⟩ := List.head?_eq_some_iff.1 (listed?_eq_some_iff.1 ht).2
  exact List.cons_lt_cons_iff.2 (.inl less)

/-- The nodes of the graph: the names of the table and those on which they depend. -/
def nodes (dependencies : Dependencies) : List String :=
  dependencies.entries.keys ++ dependencies.entries.values.flatten

/-- Groups of names are the strongly connected components of the graph, in whatever order: each node is in
one of them, and they hold the nodes from which one gets to each other. -/
structure StrongComponents (dependencies : Dependencies) (components : List (List String)) : Prop where
  nodes : ∀ name, name ∈ components.flatten ↔ name ∈ dependencies.nodes
  distinct : components.flatten.Nodup
  nonempty : [] ∉ components
  strong : ∀ component ∈ components, ∀ name ∈ component, ∀ other, other ∈ component ↔
    Relation.ReflTransGen dependencies.Depends name other ∧
      Relation.ReflTransGen dependencies.Depends other name

/-- Whether a component has several nodes, or a single one that depends on itself. -/
def circular (dependencies : Dependencies) (component : List String) : Bool :=
  decide (1 < component.length) || component.head?.any fun name => decide (name ∈ dependencies.of name)

/-- The cycles that are read off the strongly connected components. -/
def cyclesAmong (dependencies : Dependencies) (components : List (List String)) : List (List String) :=
  ((components.filter dependencies.circular).map fun component =>
    sortNames (OrderedSet.ofList component)).mergeSort fun a b => !decide (b < a)

namespace StrongComponents

variable (h : dependencies.StrongComponents components) {component : List String}
include h

/-- Two names of one component are together. -/
lemma together_of_ne (hc : component ∈ components) (hn : name ∈ component) (ho : other ∈ component)
    (ne : name ≠ other) : dependencies.Together name other := by
  obtain ⟨there, back⟩ := (h.strong component hc name hn other).1 ho
  exact ⟨(Relation.reflTransGen_iff_eq_or_transGen.1 there).resolve_left ne.symm,
    (Relation.reflTransGen_iff_eq_or_transGen.1 back).resolve_left ne⟩

/-- A name of a circular component is together with itself: over another one, or by its own dependency. -/
lemma together_self (hc : component ∈ components) (circular : dependencies.circular component = true)
    (hn : name ∈ component) : dependencies.Together name name := by
  rw [Dependencies.circular, Bool.or_eq_true, decide_eq_true_iff, Option.any_eq_true] at circular
  rcases circular with several | ⟨first, hf, itself⟩
  · by_contra alone
    have all : ∀ other ∈ component, other = name := fun other ho => by
      by_contra ne
      exact alone (h.together_of_ne hc hn ho (Ne.symm ne)).self
    have once := (List.nodup_flatten.1 h.distinct).1 component hc
    rw [List.eq_replicate_of_mem all, List.nodup_replicate] at once
    exact absurd several (Nat.not_lt.2 once)
  · by_cases same : name = first
    · have step : first ∈ dependencies.of first := of_decide_eq_true itself
      exact same ▸ ⟨.single step, .single step⟩
    · exact (h.together_of_ne hc hn (List.mem_of_head? hf) same).self

/-- The names of a circular component are together with one another and with no others. -/
lemma mem_iff_together (hc : component ∈ components) (circular : dependencies.circular component = true)
    (hn : name ∈ component) : other ∈ component ↔ dependencies.Together name other := by
  constructor
  · intro ho
    by_cases same : name = other
    · exact same ▸ h.together_self hc circular hn
    · exact h.together_of_ne hc hn ho same
  · intro ho
    exact (h.strong component hc name hn other).2 ⟨ho.1.to_reflTransGen, ho.2.to_reflTransGen⟩

/-- The component of a name that is together with itself is circular. -/
lemma circular_of_together (hc : component ∈ components) (hn : name ∈ component)
    (self : dependencies.Together name name) : dependencies.circular component = true := by
  rw [Dependencies.circular, Bool.or_eq_true, decide_eq_true_iff]
  match component with
  | [first] =>
    obtain rfl := List.mem_singleton.1 hn
    refine .inr (decide_eq_true (self.depends_self fun third ht => List.mem_singleton.1 ?_))
    exact (h.strong [name] hc name hn third).2 ⟨ht.1.to_reflTransGen, ht.2.to_reflTransGen⟩
  | first :: second :: rest => exact .inl (by simp)

omit h in
/-- A component has the same names when it is sorted. -/
lemma mem_sorted : name ∈ sortNames (OrderedSet.ofList component) ↔ name ∈ component :=
  mem_sortNames.trans OrderedSet.mem_ofList

/-- A component that is circular is a cycle when it is sorted. -/
lemma isCycle (hc : component ∈ components) (circular : dependencies.circular component = true) :
    dependencies.IsCycle (sortNames (OrderedSet.ofList component)) where
  sorted := pairwise_sortNames (OrderedSet.nodup_ofList component)
  nonempty := by
    obtain ⟨name, hn⟩ := List.exists_mem_of_ne_nil component fun e => h.nonempty (e ▸ hc)
    exact ⟨name, mem_sorted.2 hn⟩
  together name hn other := by
    rw [mem_sorted] at hn ⊢
    exact h.mem_iff_together hc circular hn

/-- The groups among the components are the cycles. -/
lemma mem_cyclesAmong_iff :
    group ∈ dependencies.cyclesAmong components ↔ dependencies.IsCycle group := by
  rw [cyclesAmong, List.mem_mergeSort, List.mem_map]
  constructor
  · rintro ⟨component, mem, rfl⟩
    obtain ⟨hc, circular⟩ := List.mem_filter.1 mem
    exact h.isCycle hc circular
  · intro cycle
    obtain ⟨name, hn⟩ := cycle.nonempty
    have self := (cycle.together name hn name).1 hn
    have node : name ∈ dependencies.nodes := List.mem_append_left _ (mem_keys_of_transGen self.1)
    obtain ⟨component, hc, mem⟩ := List.mem_flatten.1 ((h.nodes name).2 node)
    have circular := h.circular_of_together hc mem self
    refine ⟨component, List.mem_filter.2 ⟨hc, circular⟩, ?_⟩
    exact (h.isCycle hc circular).eq_of_mem cycle (mem_sorted.2 mem) hn

/-- The groups among the components increase. -/
lemma pairwise_cyclesAmong : (dependencies.cyclesAmong components).Pairwise (· < ·) := by
  -- Components have no name in common, so that those with a name differ.
  have disjoint := (List.nodup_flatten.1 h.distinct).2.filter dependencies.circular
  have distinct : ((components.filter dependencies.circular).map fun component =>
      sortNames (OrderedSet.ofList component)).Nodup := by
    refine List.pairwise_map.2 (disjoint.imp_of_mem fun {one other} ho _ apart e => ?_)
    obtain ⟨name, hn⟩ := List.exists_mem_of_ne_nil one fun e => h.nonempty (e ▸ List.mem_of_mem_filter ho)
    exact apart hn (mem_sorted.1 (e ▸ mem_sorted.2 hn))
  exact pairwise_lt_mergeSort distinct

/-- The cycles are those among the strongly connected components. -/
lemma cyclesAmong_eq (distinct : dependencies.entries.keys.Nodup) :
    dependencies.cyclesAmong components = dependencies.cycles := by
  refine h.pairwise_cyclesAmong.sortedLT.eq_of_mem_iff (pairwise_cycles distinct).sortedLT fun group => ?_
  rw [h.mem_cyclesAmong_iff, mem_cycles_iff]

end StrongComponents

end Dependencies

/-- Some groups of names are the cycles of a document. -/
structure Document.Cycles (document : Document) (groups : List (List String)) : Prop where
  /-- Two names are in one group exactly if each reaches the other. -/
  together : ∀ name other, (∃ group ∈ groups, name ∈ group ∧ other ∈ group) ↔
    document.Reaches name other ∧ document.Reaches other name
  /-- A group holds all that is together with any of its names. -/
  maximal : ∀ group ∈ groups, ∀ name ∈ group, ∀ other,
    document.Reaches name other → document.Reaches other name → other ∈ group
  nonempty : [] ∉ groups
  /-- The names are those of component schemas. -/
  held : ∀ group ∈ groups, ∀ name ∈ group, ∃ slot, document.schema? name = some slot
  /-- A name that is alone refers to itself. -/
  single : ∀ name, [name] ∈ groups → document.Refers name name
  disjoint : groups.Pairwise List.Disjoint
  /-- A group is sorted by bytes, and has no name twice. -/
  sorted : ∀ group ∈ groups, (group.map utf8Bytes).Pairwise (· < ·)
  /-- The groups are sorted by the bytes of their names, and none is there twice. -/
  ordered : (groups.map (List.map utf8Bytes)).Pairwise (· < ·)

/-- Names are together in the graph of a document exactly if each reaches the other in the document. -/
lemma Dependencies.together_ofDocument {document : Document} {name other : String} :
    (ofDocument document).Together name other ↔
      document.Reaches name other ∧ document.Reaches other name := by
  rw [Together, depends_ofDocument]
  rfl

/-- The groups that are reported for a document whose schemas have distinct names are its cycles, and the
groups among its strongly connected components are the same. -/
lemma Document.cycles_of_nodup {document : Document}
    (distinct : document.components.schemas.keys.Nodup) :
    document.Cycles (Dependencies.ofDocument document).cycles ∧
      ∀ components, (Dependencies.ofDocument document).StrongComponents components →
        (Dependencies.ofDocument document).cyclesAmong components =
          (Dependencies.ofDocument document).cycles := by
  have keys : (Dependencies.ofDocument document).entries.keys.Nodup := by
    rw [Dependencies.ofDocument, Entries.keys, List.map_map]
    exact distinct
  have cycle : ∀ group, group ∈ (Dependencies.ofDocument document).cycles ↔ _ :=
    fun group => Dependencies.mem_cycles_iff
  have increasing := Dependencies.pairwise_cycles keys
  -- Being together in the graph is reaching each other in the document, which gives all of the clauses.
  have both : ∀ group ∈ (Dependencies.ofDocument document).cycles, ∀ name ∈ group, ∀ other,
      other ∈ group ↔ document.Reaches name other ∧ document.Reaches other name := by
    intro group hg name hn other
    rw [((cycle group).1 hg).together name hn other, Dependencies.together_ofDocument]
  refine ⟨?_, fun components h => h.cyclesAmong_eq keys⟩
  exact
    { together := fun name other => by
        rw [Dependencies.exists_cycle_iff, Dependencies.together_ofDocument]
      maximal := fun group hg name hn other there back => (both group hg name hn other).2 ⟨there, back⟩
      nonempty := fun h => by
        obtain ⟨name, hn⟩ := ((cycle []).1 h).nonempty
        cases hn
      held := fun group hg name hn => by
        have reaches := ((both group hg name hn name).1 hn).1
        obtain ⟨next, ⟨slot, held, -⟩, -⟩ := Relation.TransGen.head'_iff.1 reaches
        exact ⟨slot, held⟩
      single := fun name h => by
        rw [← Dependencies.depends_ofDocument]
        exact ((cycle [name]).1 h).depends_self
      disjoint := increasing.imp_of_mem fun {one other} ho ht less name hn hn' => by
        have same := ((cycle one).1 ho).eq_of_mem ((cycle other).1 ht) hn hn'
        exact absurd (same ▸ less) (lt_irrefl other)
      sorted := fun group hg => List.pairwise_map.2 (((cycle group).1 hg).sorted.imp utf8Bytes_lt)
      ordered := List.pairwise_map.2 (increasing.imp fun less => List.map_lt (fun _ _ => utf8Bytes_lt) less) }

/-- The groups that are reported for a document that is read are its cycles, and they are read off the
strongly connected components of its graph as well, in whatever order these are found. -/
theorem Document.cycles_exact {id : DocumentId} {tree : Json} {document : Document}
    (read : Document.read id tree = .ok document) (distinct : tree.keysDistinct = true) :
    document.Cycles (Dependencies.ofDocument document).cycles ∧
      ∀ components, (Dependencies.ofDocument document).StrongComponents components →
        (Dependencies.ofDocument document).cyclesAmong components =
          (Dependencies.ofDocument document).cycles :=
  Document.cycles_of_nodup (Document.nodup_keys_of_read read distinct)

/-- Groups of names are the strongly connected components if that is so for what is explored. -/
lemma Dependencies.StrongComponents.of_reachable {dependencies : Dependencies}
    {components : List (List String)}
    (nodes : ∀ name ∈ components.flatten, name ∈ dependencies.nodes)
    (all : ∀ name ∈ dependencies.nodes, name ∈ components.flatten)
    (distinct : components.flatten.Nodup) (nonempty : [] ∉ components)
    (strong : ∀ component ∈ components, ∀ name ∈ component,
      (∀ other ∈ component, other = name ∨ other ∈ dependencies.reachable name) ∧
        ∀ other ∈ dependencies.reachable name, name ∈ dependencies.reachable other → other ∈ component) :
    dependencies.StrongComponents components where
  nodes name := ⟨nodes name, all name⟩
  distinct := distinct
  nonempty := nonempty
  strong component hc name hn other := by
    have leads : ∀ a ∈ component, ∀ b ∈ component, Relation.ReflTransGen dependencies.Depends a b := by
      intro a ha b hb
      refine Relation.reflTransGen_iff_eq_or_transGen.2 (((strong component hc a ha).1 b hb).imp id ?_)
      exact mem_reachable_iff.1
    constructor
    · exact fun ho => ⟨leads name hn other ho, leads other ho name hn⟩
    · rintro ⟨there, back⟩
      rcases Relation.reflTransGen_iff_eq_or_transGen.1 there with rfl | there
      · exact hn
      rcases Relation.reflTransGen_iff_eq_or_transGen.1 back with rfl | back
      · exact hn
      exact (strong component hc name hn).2 other (mem_reachable_iff.2 there) (mem_reachable_iff.2 back)

/-- A description of nodes with children that are nodes, of two schemas that refer to each other and to a
missing one, of an alias, and of a schema with its own name in a reference to the parameters. -/
def loopsTree : Json :=
  let ref (within name : String) : Json :=
    .obj [("$ref", .str ("#/components/" ++ within ++ "/" ++ name))]
  .obj [
    ("openapi", .str "3.0.0"),
    ("info", .obj [("title", .str "Loops"), ("version", .str "1")]),
    ("components", .obj [("schemas", .obj [
      ("Node", .obj [("type", .str "object"), ("properties", .obj [
        ("children", .obj [("type", .str "array"), ("items", ref "schemas" "Node")])])]),
      ("B", .obj [("allOf", .arr [ref "schemas" "A", ref "schemas" "Leaf", ref "schemas" "Gone"])]),
      ("A", .obj [("type", .str "object"), ("properties", .obj [("b", ref "schemas" "B")])]),
      ("Leaf", .obj [("type", .str "string")]),
      ("Alias", ref "schemas" "Leaf"),
      ("Page", .obj [("anyOf", .arr [ref "parameters" "Page"])])])])]

/-- The dependencies in the description. -/
def loopsDependencies : Dependencies :=
  ⟨[("Node", ["Node"]), ("B", ["A", "Leaf", "Gone"]), ("A", ["B"]), ("Leaf", []), ("Alias", ["Leaf"]),
    ("Page", ["Page"])]⟩

/-- The names of the description in its strongly connected components. -/
def loopsComponents : List (List String) :=
  [["Page"], ["Gone"], ["Leaf"], ["Alias"], ["B", "A"], ["Node"]]

/-- The cycles of the description are those of three groups. -/
theorem Document.cycles_exact_loops :
    loopsTree.keysDistinct = true ∧ ∃ document, Document.read ⟨0⟩ loopsTree = .ok document ∧
      document.Cycles [["A", "B"], ["Node"], ["Page"]] ∧
      (Dependencies.ofDocument document).cycles = [["A", "B"], ["Node"], ["Page"]] ∧
      (Dependencies.ofDocument document).StrongComponents loopsComponents ∧
      (Dependencies.ofDocument document).cyclesAmong loopsComponents =
        (Dependencies.ofDocument document).cycles := by
  have distinct : loopsTree.keysDistinct = true := by decide +kernel
  have run : ((Document.read ⟨0⟩ loopsTree).toOption.map fun document =>
      (Dependencies.ofDocument document).entries) = some loopsDependencies.entries := by decide +kernel
  obtain ⟨document, found, entries⟩ := Option.map_eq_some_iff.1 run
  have read := toOption_eq_some.1 found
  have same : Dependencies.ofDocument document = loopsDependencies :=
    congrArg Dependencies.mk entries
  have strong : (Dependencies.ofDocument document).StrongComponents loopsComponents := by
    rw [same]
    exact .of_reachable (by decide) (by decide) (by decide) (by decide) (by decide +kernel)
  have groups : (Dependencies.ofDocument document).cyclesAmong loopsComponents =
      [["A", "B"], ["Node"], ["Page"]] := by
    have circular : loopsComponents.filter loopsDependencies.circular =
        [["Page"], ["B", "A"], ["Node"]] := by decide +kernel
    have sorted : [["Page"], ["B", "A"], ["Node"]].map
        (fun component => Dependencies.sortNames (OrderedSet.ofList component)) =
        [["Page"], ["A", "B"], ["Node"]] := by
      have single : ∀ name, Dependencies.sortNames [name] = [name] :=
        fun name => List.mergeSort_singleton name
      have pair : Dependencies.sortNames ["B", "A"] = ["A", "B"] :=
        mergeSort_eq_of_perm (by decide) (by decide)
      exact congr_arg₂ _ (single "Page") (congr_arg₂ _ pair (congr_arg₂ _ (single "Node") rfl))
    rw [same, Dependencies.cyclesAmong, circular, sorted]
    exact mergeSort_eq_of_perm (by decide) (by decide)
  obtain ⟨exactly, among⟩ := Document.cycles_exact read distinct
  have listed := among _ strong
  have cycles := listed.symm.trans groups
  exact ⟨distinct, document, read, cycles ▸ exactly, cycles, strong, listed⟩

end OpenApiManifest
