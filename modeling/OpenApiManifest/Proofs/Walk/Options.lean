import OpenApiManifest.Proofs.Dependencies.Exploring
import OpenApiManifest.Proofs.Walk.Order

/-!
# The options of a walk

Where a walk of everything succeeds, so do the walks from the same root with other options, and they
register nothing else (`WalkRoot.walk_part`).  The walk that leaves out a root with a name goes into the
root at once, as the walk of everything does after it has registered the root.  So it registers all the
others, and the root itself exactly if the references inside it lead back to it
(`WalkRoot.walk_options`).
-/

namespace OpenApiManifest

/-- The options of a walk that goes on into everything it reaches, but does not register its root. -/
def WalkOptions.leavingOut : WalkOptions := ⟨true, false⟩

/-- The position of a root that is a single schema. -/
def WalkRoot.position? : WalkRoot → Option SchemaSlot
  | .slot own => some own
  | .schema own => some (.owned own)
  | _ => none

/-- A walk from a single schema starts at its position alone. -/
lemma WalkRoot.starts_of_position? {document : Document} {root : WalkRoot} {slot : SchemaSlot}
    (position : root.position? = some slot) : root.Starts document = (· = slot) := by
  funext other
  apply propext
  cases root with
  | slot own =>
    cases position
    constructor
    · rintro ⟨⟩
      rfl
    · rintro rfl
      exact .slot
  | schema own =>
    cases position
    constructor
    · rintro ⟨⟩
      rfl
    · rintro rfl
      exact .schema
  | _ => cases position

section Spelled

variable [Spelling]

/-- The walk from a root with one position is the walk from this position. -/
lemma WalkRoot.walk_of_position? {document : Document} {options : WalkOptions} {root : WalkRoot}
    {slot : SchemaSlot} (position : root.position? = some slot) :
    root.walk document options = walkSlot document options slot := by
  cases root with
  | slot own =>
    cases position
    rfl
  | schema own =>
    cases position
    rfl
  | _ => cases position

/-- Where a walk of everything succeeds, so does a walk with other options, and it registers nothing
else. -/
lemma WalkRoot.walk_part {document : Document} (coherent : document.Coherent) {root : WalkRoot}
    (of : root.Of document) (succeeds : (root.walk document .everything .empty).result = .ok ())
    (options : WalkOptions) :
    (root.walk document options .empty).result = .ok () ∧
      ∀ entry ∈ (root.walk document options .empty).registry.models,
        entry ∈ (root.walk document .everything .empty).registry.models := by
  have single : ∀ options : WalkOptions,
      [root].forM (WalkRoot.walk document options) = root.walk document options := by
    intro options
    simp
  have within : ∀ other ∈ [root], other.Of document := List.forall_mem_singleton.2 of
  have clear : Clear document [root] := by
    rw [← walkAll_succeeds_iff coherent within, walkAll, single]
    exact succeeds
  constructor
  · rw [← single]
    exact clear.succeeds coherent within options
  · intro entry mem
    have filled : Registry.Filled document options (Call.Opens document (root.Starts document)) .empty
        (root.walk document options .empty).registry := (WalkRoot.fills (fun _ => id) .empty .refl).1
    have walked := (of.visits coherent).collects.walked succeeds
    rcases filled.entered mem with absent | ⟨call, reached, registers⟩
    · cases absent
    · exact walked.proper.get?_eq_some_iff.1 (walked.kept reached.of_opens registers.everything)

/-- What a walk does with a call does not depend on whether it registers its root. -/
lemma Call.walk_leavingOut (document : Document) (steps : Nat) (call : Call) :
    call.walk document .leavingOut steps = call.walk document .everything steps := by
  induction steps generalizing call with
  | zero => rw [walk_zero, walk_zero]
  | succ steps ih =>
    have planned : call.plan document .leavingOut = call.plan document .everything := by
      cases call <;> rfl
    rw [walk_succ, walk_succ, planned, funext ih]

section Inside

variable {document : Document} {slot : SchemaSlot} {schema : Schema} {name other : String}

/-- From the position of a schema with a name a walk comes to what it comes to from inside the schema,
and nothing else. -/
lemma Call.Reached.of_named {call : Call} (hs : (slot.resolve document).result = .ok schema)
    (hn : schema.name? = some name)
    (reached : call.Reached document .everything (Call.From (· = slot))) :
    call = .child slot none none ∨
      call.Reached document .everything (· = .inside schema (some name)) := by
  induction reached with
  | first h =>
    obtain ⟨own, rfl, rfl⟩ := h
    exact .inl rfl
  | next _ going ih =>
    obtain ⟨plan, planned, hl⟩ := going
    rcases ih with rfl | ih
    · cases (plan_child_of_name hs hn).symm.trans planned
      obtain rfl := Plan.eq_inside_of_mem_register hl
      exact .inr (.first rfl)
    · exact .inr (ih.of_plan planned hl)

variable (coherent : document.Coherent)
include coherent

/-- A walk that leaves out a schema with a name goes into it at once. -/
lemma walkSlot_collects (contains : document.Contains slot)
    (hs : (slot.resolve document).result = .ok schema) (hn : schema.name? = some name) :
    (walkSlot document .leavingOut slot).Collects document .everything
      (· = .inside schema (some name)) := by
  refine .follow_bind fun found resolves registry proper known _ => ?_
  cases hs.symm.trans resolves
  have descends : walkSchema document .leavingOut schema =
      (Call.inside schema (some name)).walk document .everything (document.steps schema.size) := by
    rw [← Call.walk_leavingOut]
    simp [walkSchema, hn, WalkOptions.leavingOut, Call.walk]
  have within : (Call.inside schema (some name)).Within document := contains.resolve hs
  rw [descends]
  exact Call.collects coherent _ within registry proper known

/-- The calls to which a walk comes from inside a schema are about what is reached from the positions
inside it. -/
lemma Call.Reached.tied_inside {context : Option String} {call : Call}
    (contains : document.Contains (.owned schema))
    (reached : call.Reached document .everything (· = .inside schema context)) :
    call = .inside schema context ∨
      ∃ inner ∈ schema.slots, call.Within document ∧ call.Tied document (.slot inner) := by
  induction reached with
  | first h => exact .inl h
  | @next _ later _ going ih =>
    obtain ⟨plan, planned, hl⟩ := id going
    rcases ih with rfl | ⟨inner, hi, within, tied⟩
    · cases planned
      obtain ⟨inner, hi, e⟩ := Schema.exists_slot_of_mem_calls hl
      have own : Schema.SlotTied document (.slot inner) inner := by
        refine ⟨fun name hr => .refers .slot hr, ?_⟩
        rintro found name rfl hn
        exact .itself .slot hn
      refine .inr ⟨inner, hi, within_of_mem_calls contains hl, ?_⟩
      cases later with
      | child => cases e; exact own
      | member => cases e; exact own
      | nameless => cases e
      | inside => cases e
    · exact .inr ⟨inner, hi, (within.plan planned).next _ hl, tied.next coherent within going⟩

omit [Spelling] in
/-- What is reached from the positions inside a component is reached from the component over at least
one reference. -/
lemma WalkRoot.Reaches.of_inner (stored : document.schema? name = some (.owned schema))
    (h : slot ∈ schema.slots) (reaches : (WalkRoot.slot slot).Reaches document other) :
    document.Reaches name other := by
  induction reaches with
  | itself starts hn =>
    cases starts
    rw [coherent.nameless (Document.contains_of_schema? stored) h] at hn
    cases hn
  | refers starts hr =>
    cases starts
    exact .single ⟨_, stored, .inside h (Schema.mem_slotReferences_iff.1 hr)⟩
  | depends _ ho ih =>
    refine ih.tail ?_
    rw [← Dependencies.depends_ofDocument]
    exact ho

/-- What a component reaches over at least one reference has been entered by a walk that went into the
component. -/
lemma Registry.Walked.entered_of_document_reaches {registry : Registry} {first : Call → Prop}
    {context : Option String} (walked : registry.Walked document .everything first)
    (stored : document.schema? name = some (.owned schema))
    (reached : (Call.inside schema context).Reached document .everything first)
    (reaches : document.Reaches name other) : registry.Entered document first other := by
  rw [Document.Reaches, ← Dependencies.depends_ofDocument] at reaches
  induction reaches with
  | single depends =>
    obtain ⟨slot, held, hr⟩ := Dependencies.mem_of_iff.1 depends
    cases stored.symm.trans held
    exact walked.entered_of_inside coherent reached hr
  | tail _ depends ih => exact ih.depends coherent walked depends

end Inside

section LeftOut

variable {document : Document} (coherent : document.Coherent) {schema : Schema} {name : String}
  {registry : Registry}
  (walked : registry.Walked document .everything (· = .inside schema (some name)))
  (stored : document.schema? name = some (.owned schema))
include coherent walked stored

/-- A walk that goes into a component at once registers the component if its references lead back to it,
and only then. -/
lemma Registry.Walked.get?_iff_reaches :
    registry.get? name = some ⟨schema, .component⟩ ↔ document.Reaches name name := by
  constructor
  · intro held
    obtain ⟨call, reached, registers⟩ := walked.entered held
    have contains := Document.contains_of_schema? stored
    rcases reached.tied_inside coherent contains with rfl | ⟨inner, hi, -, tied⟩
    · obtain ⟨plan, planned, hm⟩ := registers
      cases planned
      cases hm
    · exact (tied.reaches coherent registers).of_inner coherent stored hi
  · intro reaches
    have entered := walked.entered_of_document_reaches coherent stored (.first rfl) reaches
    exact entered.get? coherent walked stored

end LeftOut

/-- Where a walk of everything succeeds from a root of a document that is read, so do the walks with other
options, and they register nothing else.  If the root is a single schema with a name, the walk that leaves
it out registers all the others, and the root itself exactly if the component reaches itself through
references. -/
theorem WalkRoot.walk_options {id : DocumentId} {tree : Json} {document : Document}
    (read : Document.read id tree = .ok document) (distinct : tree.keysDistinct = true)
    {root : WalkRoot} (of : root.Of document)
    (succeeds : (root.walk document .everything .empty).result = .ok ()) :
    (∀ options : WalkOptions, (root.walk document options .empty).result = .ok () ∧
      ∀ entry ∈ (root.walk document options .empty).registry.models,
        entry ∈ (root.walk document .everything .empty).registry.models) ∧
      ∀ slot schema name, root.position? = some slot → (slot.resolve document).result = .ok schema →
        schema.name? = some name →
          (∀ entry ∈ (root.walk document .everything .empty).registry.models,
            entry ∈ (root.walk document .leavingOut .empty).registry.models ∨
              entry = (name, ⟨schema, .component⟩)) ∧
          ((name, ⟨schema, .component⟩) ∈ (root.walk document .leavingOut .empty).registry.models ↔
            document.Reaches name name) := by
  have coherent := Document.coherent_of_read read distinct
  have part := walk_part coherent of succeeds
  refine ⟨part, fun slot schema name position hs hn => ?_⟩
  have starts : root.Starts document = (· = slot) := starts_of_position? position
  have contains : document.Contains slot := of.contains (by rw [starts])
  have stored := (coherent.name?_eq_some_iff (contains.resolve hs)).1 hn
  have whole := (of.visits coherent).collects.walked succeeds
  rw [starts] at whole
  have collects := walkSlot_collects coherent contains hs hn
  rw [← walk_of_position? position] at collects
  have walked := collects.walked (part .leavingOut).1
  -- What the whole walk registers is the root itself, or it is registered from inside the root as well.
  refine ⟨fun entry mem => ?_, ?_⟩
  · obtain ⟨call, reached, registers⟩ := whole.entered (whole.proper.get?_eq_some_iff.2 mem)
    rcases reached.of_named hs hn with rfl | inside
    · obtain ⟨plan, planned, hm⟩ := registers
      cases (Call.plan_child_of_name hs hn).symm.trans planned
      exact .inr (Option.some.inj hm).symm
    · exact .inl (walked.proper.get?_eq_some_iff.1 (walked.kept inside registers))
  · rw [← walked.proper.get?_eq_some_iff]
    exact walked.get?_iff_reaches coherent stored

end Spelled

attribute [local instance] Spelling.german

/-- A description of orders with their customer and their items.  An item may stand for others. -/
def orderItemTree : Json :=
  let ref (name : String) : Json := .obj [("$ref", .str ("#/components/schemas/" ++ name))]
  .obj [
    ("openapi", .str "3.0.0"),
    ("info", .obj [("title", .str "Orders"), ("version", .str "1")]),
    ("paths", .obj []),
    ("components", .obj [("schemas", .obj [
      ("Order", .obj [("properties", .obj [("customer", ref "Customer"), ("first", ref "Entry")])]),
      ("Customer", .obj [("properties", .obj [("state", .obj [("enum", .arr [.str "new"])])])]),
      ("Entry", ref "Item"),
      ("Item", .obj [("properties", .obj [
        ("parts", .obj [("type", .str "array"), ("items", ref "Entry")])])])])])]

/-- The walks from the position of an order register, with each of the options, a part of what the walk of
everything does.  The walk that leaves out an item registers it nevertheless, as its parts lead back to it
through an alias. -/
theorem WalkRoot.walk_options_order :
    orderItemTree.keysDistinct = true ∧ ∃ document order item,
      Document.read ⟨0⟩ orderItemTree = .ok document ∧ document.schema? "Order" = some (.owned order) ∧
      document.schema? "Item" = some (.owned item) ∧
      [WalkOptions.everything, .leavingOut, ⟨false, true⟩, ⟨false, false⟩].map (fun options =>
          ((WalkRoot.slot (.owned order)).walk document options .empty).registry.names) =
        [["Order", "Customer", "CustomerState", "Item"], ["Customer", "CustomerState", "Item"],
          ["Order", "Customer", "Item"], ["Customer", "Item"]] ∧
      (∀ options : WalkOptions,
        ((WalkRoot.slot (.owned order)).walk document options .empty).result = .ok ()) ∧
      ¬ document.Reaches "Order" "Order" ∧
      ("Item", ⟨item, .component⟩) ∈
        ((WalkRoot.schema item).walk document .leavingOut .empty).registry.models := by
  have distinct : orderItemTree.keysDistinct = true := by decide +kernel
  have run : ((Document.read ⟨0⟩ orderItemTree).toOption.bind fun document =>
      ((document.schema? "Order").bind Slot.owned?).bind fun order =>
      ((document.schema? "Item").bind Slot.owned?).map fun item =>
        (((WalkRoot.slot (.owned order)).walk document .everything .empty).result.toOption,
          ((WalkRoot.schema item).walk document .everything .empty).result.toOption,
          ["Item", "Entry"].map (Dependencies.ofDocument document).of,
          [WalkOptions.everything, .leavingOut, ⟨false, true⟩, ⟨false, false⟩].map (fun options =>
            ((WalkRoot.slot (.owned order)).walk document options .empty).registry.names))) =
      some (some (), some (), [["Entry"], ["Item"]], [["Order", "Customer", "CustomerState", "Item"],
        ["Customer", "CustomerState", "Item"], ["Order", "Customer", "Item"], ["Customer", "Item"]]) := by
    decide +kernel
  obtain ⟨document, found, run⟩ := Option.bind_eq_some_iff.1 run
  obtain ⟨order, ho, run⟩ := Option.bind_eq_some_iff.1 run
  obtain ⟨item, hi, run⟩ := Option.map_eq_some_iff.1 run
  obtain ⟨ended, ended', depends, names⟩ : _ ∧ _ ∧ _ ∧ _ := by simpa only [Prod.mk.injEq] using run
  have read := toOption_eq_some.1 found
  have coherent := Document.coherent_of_read read distinct
  obtain ⟨_, storedOrder, own⟩ := Option.bind_eq_some_iff.1 ho
  obtain rfl := Slot.owned?_eq_some_iff.1 own
  obtain ⟨_, storedItem, own⟩ := Option.bind_eq_some_iff.1 hi
  obtain rfl := Slot.owned?_eq_some_iff.1 own
  have ofOrder : (WalkRoot.slot (.owned order)).Of document := Document.contains_of_schema? storedOrder
  have ofItem : (WalkRoot.schema item).Of document := Document.contains_of_schema? storedItem
  have namedOrder := (coherent.name?_eq_some_iff ofOrder).2 storedOrder
  have namedItem := (coherent.name?_eq_some_iff ofItem).2 storedItem
  obtain ⟨part, out⟩ := walk_options read distinct ofOrder (toOption_eq_some.1 ended)
  obtain ⟨-, out'⟩ := walk_options read distinct ofItem (toOption_eq_some.1 ended')
  obtain ⟨-, left⟩ := out (.owned order) order "Order" rfl Slot.resolve_owned namedOrder
  obtain ⟨-, left'⟩ := out' (.owned item) item "Item" rfl Slot.resolve_owned namedItem
  refine ⟨distinct, document, order, item, read, storedOrder, storedItem, names,
    fun options => (part options).1, ?_, ?_⟩
  · rw [← left]
    intro mem
    have name : "Order" ∈ ["Customer", "CustomerState", "Item"] := by
      rw [← (List.cons.inj (List.cons.inj names).2).1]
      exact List.mem_map.2 ⟨_, mem, rfl⟩
    revert name
    decide
  · rw [left', Document.Reaches, ← Dependencies.depends_ofDocument]
    obtain ⟨first, second⟩ := List.cons.inj depends
    have there : (Dependencies.ofDocument document).Depends "Item" "Entry" := by
      rw [Dependencies.Depends, first]
      exact List.mem_singleton_self _
    have back : (Dependencies.ofDocument document).Depends "Entry" "Item" := by
      rw [Dependencies.Depends, (List.cons.inj second).1]
      exact List.mem_singleton_self _
    exact .tail (.single there) back

end OpenApiManifest
