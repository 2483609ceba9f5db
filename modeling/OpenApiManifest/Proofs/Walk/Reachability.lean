import OpenApiManifest.Dependencies
import OpenApiManifest.Proofs.Walk.Covering
import OpenApiManifest.Proofs.Walk.Roots

/-!
# What a walk reaches

The schemas of the components that a walk of everything registers are those to which references lead
from its root, as the references are read off without following them (`registered_iff_reaches`).  The
walk is sound as every call is about what references lead to (`Call.Tied`), and complete as whatever
references lead to has been entered (`Registry.Walked.Entered`).
-/

namespace OpenApiManifest

/-- The names to which references lead from a root of a document: those that the schemas refer to from
which the root starts, those of these schemas themselves if they have names, and on along the
dependencies among the components. -/
inductive WalkRoot.Reaches (document : Document) (root : WalkRoot) : String → Prop
  | itself {schema : Schema} {name : String} : root.Starts document (.owned schema) →
    schema.name? = some name → Reaches document root name
  | refers {slot : SchemaSlot} {name : String} : root.Starts document slot →
    name ∈ Schema.slotReferences slot → Reaches document root name
  | depends {name other : String} : Reaches document root name →
    other ∈ (Dependencies.ofDocument document).of name → Reaches document root other

namespace Schema

/-- The references in some members are those in each of them. -/
lemma mem_membersReferences {name : String} {members : List SchemaSlot} :
    name ∈ membersReferences members ↔ ∃ slot ∈ members, name ∈ slotReferences slot := by
  induction members with
  | nil => simp [membersReferences]
  | cons slot rest ih => simp [membersReferences, ih]

/-- The references in some properties are those in each of them. -/
lemma mem_propertiesReferences {name : String} {properties : Entries SchemaSlot} :
    name ∈ propertiesReferences properties ↔
      ∃ slot ∈ properties.values, name ∈ slotReferences slot := by
  induction properties with
  | nil => simp [propertiesReferences, Entries.values]
  | cons entry rest ih =>
    obtain ⟨property, slot⟩ := entry
    rw [propertiesReferences, List.mem_append, ih]
    simp [Entries.values]

/-- The references in a schema are those at the positions directly inside it. -/
lemma mem_references {name : String} {schema : Schema} :
    name ∈ schema.references ↔ ∃ slot ∈ schema.slots, name ∈ slotReferences slot := by
  obtain ⟨info, kind⟩ := schema
  cases kind with
  | primitive type constraints => simp [references, slots, SchemaKind.slots]
  | enum values => simp [references, slots, SchemaKind.slots]
  | array items _ _ => simp [references, slots, SchemaKind.slots]
  | object properties required additional =>
    rw [references, List.mem_append, mem_propertiesReferences]
    cases additional <;>
      simp [slots, SchemaKind.slots, additionalReferences, AdditionalProperties.slot?, or_and_right,
        exists_or]
  | oneOf members => exact mem_membersReferences
  | allOf members => exact mem_membersReferences
  | anyOf members => exact mem_membersReferences

end Schema

/-- Where all values are changed, what is found under a key is the changed value. -/
lemma Entries.get?_map {α β : Type} (f : α → β) (key : String) (entries : Entries α) :
    get? key (entries.map fun entry => (entry.1, f entry.2)) = (get? key entries).map f := by
  induction entries with
  | nil => rfl
  | cons entry rest ih =>
    obtain ⟨k, value⟩ := entry
    rw [List.map_cons, get?_cons, get?_cons]
    split
    · rfl
    · exact ih

/-- What a component depends on is what its position refers to. -/
lemma Dependencies.mem_of_iff {document : Document} {name other : String} :
    other ∈ (Dependencies.ofDocument document).of name ↔
      ∃ slot, document.schema? name = some slot ∧ other ∈ Schema.slotReferences slot := by
  have held := Entries.get?_map (fun slot => OrderedSet.ofList (Schema.slotReferences slot)) name
    document.components.schemas
  rw [of, of?, ofDocument, held, ← Document.schema?]
  cases document.schema? name with
  | none => simp
  | some slot => simp

/-- A schema all of whose references are reached from a root. -/
def Schema.Tied (document : Document) (root : WalkRoot) (schema : Schema) : Prop :=
  ∀ name ∈ schema.references, root.Reaches document name

/-- A position all of whose references are reached from a root, and itself if it has a name. -/
structure Schema.SlotTied (document : Document) (root : WalkRoot) (slot : SchemaSlot) : Prop where
  refers : ∀ name ∈ Schema.slotReferences slot, root.Reaches document name
  itself : ∀ schema name, slot = .owned schema → schema.name? = some name →
    root.Reaches document name

/-- A call about what is reached from a root. -/
def Call.Tied (document : Document) (root : WalkRoot) : Call → Prop
  | .child slot _ _ | .member slot _ => Schema.SlotTied document root slot
  | .nameless schema _ _ | .inside schema _ => schema.Tied document root

section Spelled

variable [Spelling]

section Sound

variable {document : Document} (coherent : document.Coherent) {root : WalkRoot}
include coherent

omit [Spelling] in
/-- References lead on to the schema to which a name leads. -/
lemma WalkRoot.Reaches.of_leads {name own : String} {schema : Schema}
    (h : root.Reaches document name) (leads : document.Leads name schema)
    (hn : schema.name? = some own) : root.Reaches document own := by
  induction leads with
  | owned held =>
    have named := (coherent.name?_eq_some_iff (Document.contains_of_schema? held)).2 held
    rw [named] at hn
    obtain rfl := Option.some.inj hn
    exact h
  | ref held _ ih =>
    refine ih (h.depends (Dependencies.mem_of_iff.2 ⟨_, held, ?_⟩)) hn
    exact List.mem_singleton_self _

omit [Spelling] in
/-- What a tied position resolves to is tied, and reached itself if it has a name. -/
lemma Schema.SlotTied.resolve {slot : SchemaSlot} {schema : Schema}
    (tied : Schema.SlotTied document root slot) (hs : (slot.resolve document).result = .ok schema) :
    schema.Tied document root ∧ ∀ name, schema.name? = some name → root.Reaches document name := by
  cases slot with
  | owned own =>
    cases hs
    exact ⟨tied.refers, fun name hn => tied.itself _ name rfl hn⟩
  | ref reference =>
    have leads := Document.leads_of_resolve hs
    have first := tied.refers _ (List.mem_singleton_self _)
    obtain ⟨own, held⟩ := leads.exists_schema?
    have named := (coherent.name?_eq_some_iff (Document.contains_of_schema? held)).2 held
    have reaches := first.of_leads coherent leads named
    refine ⟨fun name hr => reaches.depends (Dependencies.mem_of_iff.2 ⟨_, held, hr⟩), ?_⟩
    intro name hn
    rw [named] at hn
    obtain rfl := Option.some.inj hn
    exact reaches

omit [Spelling] in
/-- The positions inside a tied schema of a document are tied. -/
lemma Schema.Tied.slot {schema : Schema} {slot : SchemaSlot} (tied : schema.Tied document root)
    (within : document.Contains (.owned schema)) (h : slot ∈ schema.slots) :
    Schema.SlotTied document root slot where
  refers name hr := tied name (Schema.mem_references.2 ⟨slot, h, hr⟩)
  itself inner name e hn := by
    obtain rfl := e
    rw [coherent.nameless within h] at hn
    cases hn

/-- A call about what is reached goes on with calls about what is reached. -/
lemma Call.Tied.next {call later : Call} (tied : call.Tied document root)
    (within : call.Within document) (h : call.Next document .everything later) :
    later.Tied document root := by
  obtain ⟨plan, planned, hl⟩ := h
  -- A call goes on to a position inside its schema, which leads on, or to what a position resolves to.
  cases call with
  | child slot candidate owner =>
    obtain ⟨schema, hs, ⟨name, -, rfl⟩ | ⟨-, rfl⟩⟩ := exists_of_plan_child planned
    · obtain rfl := Plan.eq_inside_of_mem_register hl
      exact (tied.resolve coherent hs).1
    · obtain rfl := List.mem_singleton.1 hl
      exact (tied.resolve coherent hs).1
  | nameless schema candidate owner =>
    rcases plan_nameless_cases planned with ⟨-, rfl⟩ | ⟨slot, one, rfl⟩ | ⟨name, -, -, rfl⟩ | rfl
    · cases hl
    · obtain rfl := List.mem_singleton.1 hl
      exact Schema.Tied.slot coherent tied within.1 (one ▸ List.mem_singleton_self slot)
    · obtain rfl := Plan.eq_inside_of_mem_register hl
      exact tied
    · obtain rfl := List.mem_singleton.1 hl
      exact tied
  | inside schema context =>
    cases planned
    obtain ⟨slot, hs, e⟩ := Schema.exists_slot_of_mem_calls hl
    have inside := Schema.Tied.slot coherent tied within hs
    cases later with
    | child => cases e; exact inside
    | member => cases e; exact inside
    | nameless => cases e
    | inside => cases e
  | member slot context =>
    obtain ⟨schema, hs, ⟨name, -, rfl⟩ | ⟨-, hp⟩⟩ := exists_of_plan_member planned
    · obtain rfl := Plan.eq_inside_of_mem_register hl
      exact (tied.resolve coherent hs).1
    · have inside := (tied.resolve coherent hs).1
      rcases hp with ⟨-, rfl⟩ | ⟨items, one, rfl⟩ | rfl
      · cases hl
      · obtain rfl := List.mem_singleton.1 hl
        exact Schema.Tied.slot coherent inside (Document.Contains.resolve within hs)
          (one ▸ List.mem_singleton_self items)
      · obtain rfl := List.mem_singleton.1 hl
        exact inside

/-- The calls that are reached from a root are about what is reached from it. -/
lemma Call.Reached.tied {call : Call} (h : root.Of document)
    (reached : call.Reached document .everything (Call.From (root.Starts document))) :
    call.Within document ∧ call.Tied document root := by
  induction reached with
  | first hc =>
    obtain ⟨slot, starts, rfl⟩ := hc
    refine ⟨h.contains starts, fun name hr => .refers starts hr, ?_⟩
    rintro schema name rfl hn
    exact .itself starts hn
  | next _ hn ih =>
    obtain ⟨plan, planned, hl⟩ := id hn
    exact ⟨(ih.1.plan planned).next _ hl, ih.2.next coherent ih.1 hn⟩

/-- A call about what is reached registers only schemas of the components that are reached. -/
lemma Call.Tied.reaches {call : Call} {name : String} {schema : Schema}
    (tied : call.Tied document root)
    (registers : call.Registers document .everything name ⟨schema, .component⟩) :
    root.Reaches document name := by
  obtain ⟨plan, planned, hm⟩ := registers
  obtain rfl := Call.eq_register_of_model planned hm
  cases call with
  | child slot candidate owner =>
    obtain ⟨found, hs, ⟨own, hn, e⟩ | ⟨-, e⟩⟩ := Call.exists_of_plan_child planned
    · cases e
      exact (tied.resolve coherent hs).2 name hn
    · cases e
  | nameless own candidate owner =>
    rcases Call.plan_nameless_cases planned with ⟨-, e⟩ | ⟨_, -, e⟩ | ⟨_, -, -, e⟩ | e <;> cases e
  | inside own context => cases planned
  | member slot context =>
    obtain ⟨found, hs, ⟨own, hn, e⟩ | ⟨-, ⟨-, e⟩ | ⟨_, -, e⟩ | e⟩⟩ := Call.exists_of_plan_member planned
    · cases e
      exact (tied.resolve coherent hs).2 name hn
    · cases e
    · cases e
    · cases e

/-- A schema of the components that is registered by a walk is reached from its root. -/
lemma Registry.Walked.reaches {registry : Registry} {name : String} {schema : Schema}
    (h : root.Of document)
    (walked : registry.Walked document .everything (Call.From (root.Starts document)))
    (held : registry.get? name = some ⟨schema, .component⟩) : root.Reaches document name := by
  obtain ⟨call, reached, registers⟩ := walked.entered held
  exact (reached.tied coherent h).2.reaches coherent registers

end Sound

/-- A name that leads to a schema which is registered and was gone into. -/
def Registry.Entered (document : Document) (first : Call → Prop) (registry : Registry)
    (name : String) : Prop :=
  ∃ own schema, document.Leads name schema ∧ registry.get? own = some ⟨schema, .component⟩ ∧
    (Call.inside schema (some own)).Reached document .everything first

section Complete

variable {document : Document} (coherent : document.Coherent) {registry : Registry}
  {first : Call → Prop} (walked : registry.Walked document .everything first)
include coherent walked

/-- What the position of a call that is reached refers to has been entered. -/
lemma Registry.Walked.entered_of_slot {call : Call} {slot : SchemaSlot} {name : String}
    (reached : call.Reached document .everything first) (h : call.slot? = some slot)
    (hr : name ∈ Schema.slotReferences slot) : registry.Entered document first name := by
  -- By induction on the size: a reference is entered at once, and an own schema is smaller inside.
  induction hn : Schema.slotSize slot using Nat.strongRecOn generalizing call slot with
  | ind size ih =>
    cases slot with
    | ref reference =>
      obtain rfl := List.mem_singleton.1 hr
      obtain ⟨schema, hs⟩ := walked.exists_schema reached h
      obtain ⟨own, named⟩ := coherent.exists_name_of_ref hs
      have registered := walked.registered_of_name reached h hs named
      exact ⟨own, schema, Document.leads_of_resolve hs, registered.1, registered.2⟩
    | owned schema =>
      obtain ⟨inner, hi, hr⟩ := Schema.mem_references.1 hr
      obtain ⟨later, going, e⟩ := walked.exists_call_of_slot reached
        (Call.about_of_slot? h Slot.resolve_owned) hi
      exact ih _ (hn ▸ Schema.slotSize_lt_size hi) going e hr rfl

/-- What the schema that was gone into refers to has been entered. -/
lemma Registry.Walked.entered_of_inside {schema : Schema} {context : Option String} {name : String}
    (reached : (Call.inside schema context).Reached document .everything first)
    (hr : name ∈ schema.references) : registry.Entered document first name := by
  obtain ⟨slot, hs, hr⟩ := Schema.mem_references.1 hr
  obtain ⟨later, going, e⟩ := reached.exists_call hs
  exact walked.entered_of_slot coherent going e hr

/-- What an entered name depends on has been entered. -/
lemma Registry.Entered.depends {name other : String} (entered : registry.Entered document first name)
    (ho : other ∈ (Dependencies.ofDocument document).of name) :
    registry.Entered document first other := by
  obtain ⟨own, schema, leads, held, reached⟩ := entered
  obtain ⟨slot, stored, hr⟩ := Dependencies.mem_of_iff.1 ho
  cases leads with
  | owned here =>
    cases stored.symm.trans here
    exact walked.entered_of_inside coherent reached hr
  -- The name of an alias leads where the name behind it does.
  | ref here leads =>
    cases stored.symm.trans here
    obtain rfl := List.mem_singleton.1 hr
    exact ⟨own, schema, leads, held, reached⟩

/-- The schema to which an entered name leads is registered under its own name. -/
lemma Registry.Entered.get? {name : String} {schema : Schema}
    (entered : registry.Entered document first name)
    (stored : document.schema? name = some (.owned schema)) :
    registry.get? name = some ⟨schema, .component⟩ := by
  obtain ⟨own, found, leads, held, -⟩ := entered
  obtain rfl := leads.unique (.owned stored)
  have proper := walked.proper.models own _ (Entries.mem_of_get? held)
  obtain rfl := proper.eq_of_name? ((coherent.name?_eq_some_iff proper.contains).2 stored)
  exact held

end Complete

section Exact

variable {document : Document} (coherent : document.Coherent) {root : WalkRoot} {registry : Registry}
  (walked : registry.Walked document .everything (Call.From (root.Starts document)))
include coherent walked

/-- What is reached from a root has been entered by a walk from there. -/
lemma Registry.Walked.entered_of_reaches {name : String} (h : root.Of document)
    (reaches : root.Reaches document name) :
    registry.Entered document (Call.From (root.Starts document)) name := by
  induction reaches with
  | @itself schema name starts hn =>
    have registered := walked.registered_of_name (.first ⟨_, starts, rfl⟩) rfl Slot.resolve_owned hn
    have leads := Document.Leads.owned ((coherent.name?_eq_some_iff (h.contains starts)).1 hn)
    exact ⟨name, schema, leads, registered⟩
  | refers starts hr => exact walked.entered_of_slot coherent (.first ⟨_, starts, rfl⟩) rfl hr
  | depends _ ho ih => exact ih.depends coherent walked ho

/-- A walk of everything registers the schemas of the components that are reached from its root. -/
theorem Registry.Walked.registered_iff_reaches (h : root.Of document) {name : String}
    {schema : Schema} :
    registry.get? name = some ⟨schema, .component⟩ ↔
      document.schema? name = some (.owned schema) ∧ root.Reaches document name := by
  constructor
  · intro held
    have proper := walked.proper.models name _ (Entries.mem_of_get? held)
    exact ⟨(coherent.name?_eq_some_iff proper.contains).1 proper.name?, walked.reaches coherent h held⟩
  · rintro ⟨stored, reaches⟩
    exact (walked.entered_of_reaches coherent h reaches).get? coherent walked stored

end Exact

/-- From every root of a document that is read, a walk of everything into the empty registry comes to
an end, and if it succeeds the schemas of the components that it registers are those to which
references lead from the root. -/
theorem walk_registers_iff_reaches {id : DocumentId} {tree : Json} {document : Document}
    (read : Document.read id tree = .ok document) (distinct : tree.keysDistinct = true)
    {root : WalkRoot} (h : root.Of document) :
    (root.walk document .everything .empty).result ≠ .error .outOfSteps ∧
      ((root.walk document .everything .empty).result = .ok () → ∀ name schema,
        (root.walk document .everything .empty).registry.get? name = some ⟨schema, .component⟩ ↔
          document.schema? name = some (.owned schema) ∧ root.Reaches document name) := by
  have coherent := Document.coherent_of_read read distinct
  have visits := h.visits coherent
  refine ⟨visits.ends .empty .empty, fun succeeds name schema => ?_⟩
  have walked := visits.collects.walked succeeds
  exact walked.registered_iff_reaches coherent h

end Spelled

attribute [local instance] Spelling.german

/-- A description with an operation that returns an alias of a schema which refers to itself and to an
array of itself. -/
def circularTree : Json :=
  let ref (name : String) : Json := .obj [("$ref", .str ("#/components/schemas/" ++ name))]
  .obj [
    ("openapi", .str "3.0.0"),
    ("info", .obj [("title", .str "Nodes"), ("version", .str "1")]),
    ("paths", .obj [("/nodes", .obj [("get", .obj [("responses", .obj [("200", .obj [
      ("content", .obj [("application/json", .obj [("schema", ref "Alias")])])])])])])]),
    ("components", .obj [("schemas", .obj [
      ("Alias", ref "Node"),
      ("Node", .obj [("properties", .obj [("next", ref "Node"), ("peers", ref "Peers")])]),
      ("Peers", .obj [("type", .str "array"), ("items", ref "Alias")]),
      ("Other", .obj [("allOf", .arr [ref "Other"])])])])]

/-- The walk from the paths of the description registers what they reach. -/
theorem walk_registers_circular :
    circularTree.keysDistinct = true ∧ ∃ document, Document.read ⟨0⟩ circularTree = .ok document ∧
      WalkRoot.paths.Of document ∧
      (WalkRoot.paths.walk document .everything .empty).result = .ok () ∧
      (WalkRoot.paths.walk document .everything .empty).registry.names = ["Node", "Peers"] ∧
      ∀ name schema, (WalkRoot.paths.walk document .everything .empty).registry.get? name =
          some ⟨schema, .component⟩ ↔
        document.schema? name = some (.owned schema) ∧ WalkRoot.paths.Reaches document name := by
  have distinct : circularTree.keysDistinct = true := by decide +kernel
  have run : ((Document.read ⟨0⟩ circularTree).toOption.map fun document =>
      ((WalkRoot.paths.walk document .everything .empty).result.toOption,
        (WalkRoot.paths.walk document .everything .empty).registry.names)) =
        some (some (), ["Node", "Peers"]) := by decide +kernel
  obtain ⟨document, found, run⟩ := Option.map_eq_some_iff.1 run
  have read := toOption_eq_some.1 found
  obtain ⟨ended, names⟩ := Prod.mk.inj run
  have succeeds := toOption_eq_some.1 ended
  have of : WalkRoot.paths.Of document := trivial
  exact ⟨distinct, document, read, of, succeeds, names,
    (walk_registers_iff_reaches read distinct of).2 succeeds⟩

end OpenApiManifest
