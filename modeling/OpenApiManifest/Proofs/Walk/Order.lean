import OpenApiManifest.Proofs.Walk.Safety
import OpenApiManifest.Proofs.Walk.Sequences

/-!
# The order of walks

Walks of everything from some roots, one after another, succeed exactly if nothing stands in their way
(`WalkRoot.walkAll_succeeds_iff`): the references of the roots lead somewhere, every call that is
reached from the positions at which they start has a plan, and no two of these calls register different
models under one name.  None of that depends on the order of the roots, and neither do the models that
are registered (`WalkRoot.walkAll_perm`).
-/

namespace OpenApiManifest

section Spelled

variable [Spelling]

/-- Walks of everything from some roots, one after another, until one of them fails. -/
def WalkRoot.walkAll (document : Document) (roots : List WalkRoot) : Walk Unit :=
  roots.forM (WalkRoot.walk document .everything)

/-- The positions at which walks from some roots start. -/
def WalkRoot.AnyStarts (document : Document) (roots : List WalkRoot) (slot : SchemaSlot) : Prop :=
  ∃ root ∈ roots, root.Starts document slot

/-- Nothing stands in the way of walks of everything from some roots. -/
structure WalkRoot.Clear (document : Document) (roots : List WalkRoot) : Prop where
  unbroken : ∀ root ∈ roots, ∀ halt, ¬ root.Breaks document halt
  planned : ∀ call : Call, call.Reached document .everything (Call.From (AnyStarts document roots)) →
    ∃ plan, (call.plan document .everything).result = .ok plan
  single : ∀ (call other : Call) (name : String) (model rival : Registered),
    call.Reached document .everything (Call.From (AnyStarts document roots)) →
    other.Reached document .everything (Call.From (AnyStarts document roots)) →
    call.Registers document .everything name model →
    other.Registers document .everything name rival → model = rival

/-- A walk from a root that succeeds has followed all references of the root. -/
lemma WalkRoot.not_breaks_of_walk {document : Document} {options : WalkOptions} {root : WalkRoot}
    {registry : Registry} {halt : Halt}
    (succeeds : (root.walk document options registry).Gives (fun _ => True) ())
    (starts : ∀ slot, root.Starts document slot → ∃ schema, (slot.resolve document).result = .ok schema) :
    ¬ root.Breaks document halt := by
  intro broken
  induction broken generalizing registry with
  | start h e =>
    obtain ⟨schema, hs⟩ := starts _ h
    cases hs.symm.trans e
  | operationParameter hd e =>
    have safe : Operation.Safe document _ (fun _ => True) _ :=
      Operation.safe_of_walk succeeds fun _ _ => trivial
    obtain ⟨parameter, hp, -⟩ := safe.parameters _ hd
    cases hp.result.symm.trans e
  | response hd e =>
    have safe : Operation.Safe document _ (fun _ => True) _ :=
      Operation.safe_of_walk succeeds fun _ _ => trivial
    obtain ⟨response, hr, -⟩ := safe.responses _ hd
    cases hr.result.symm.trans e
  | pathParameter hd e =>
    have safe : PathItem.Safe document _ (fun _ => True) _ :=
      PathItem.safe_of_walk succeeds fun _ _ => trivial
    obtain ⟨parameter, hp, -⟩ := safe.parameters _ hd
    cases hp.result.symm.trans e
  | pathOperation hm _ ih =>
    obtain ⟨_, -, operations⟩ := Walk.exists_of_bind_gives succeeds
    obtain ⟨before, here⟩ := Walk.exists_of_forM_gives operations _ hm
    exact ih here fun slot h => starts slot (.pathOperation hm h)
  | paths hi _ ih =>
    obtain ⟨before, here⟩ := Walk.exists_of_forM_gives succeeds _ hi
    exact ih here fun slot h => starts slot (.paths hi h)

section Clear

variable {document : Document} (coherent : document.Coherent) {roots : List WalkRoot}
  (of : ∀ root ∈ roots, root.Of document)
include coherent of

/-- Walks from roots of a document that succeed register what is reached from there. -/
lemma WalkRoot.walkAll_walked (succeeds : (walkAll document roots .empty).result = .ok ()) :
    (walkAll document roots .empty).registry.Walked document .everything
      (Call.From (AnyStarts document roots)) := by
  have visits : (walkAll document roots).Visits document (AnyStarts document roots) :=
    .forM fun root mem => (of root mem).visits coherent
  exact visits.collects.walked succeeds

/-- Walks from roots of a document come to an end. -/
lemma WalkRoot.walks_end (options : WalkOptions) :
    ((roots.forM (WalkRoot.walk document options)) .empty).result ≠ .error .outOfSteps := by
  have ends : (roots.forM (WalkRoot.walk document options)).Keeps (Registry.Proper document)
      fun _ halt => halt ≠ .outOfSteps := .forM fun root mem => (of root mem).ends coherent
  intro endless
  exact (ends .empty .empty).2 _ endless rfl

/-- Where nothing stands in the way of walks of everything, walks with any options succeed. -/
lemma WalkRoot.Clear.succeeds (clear : Clear document roots) (options : WalkOptions) :
    ((roots.forM (WalkRoot.walk document options)) .empty).result = .ok () := by
  have fills : (roots.forM (WalkRoot.walk document options)).Keeps
      (Registry.Filled document options (Call.Opens document (AnyStarts document roots)) .empty)
      fun registry halt => (∃ root ∈ roots, root.Breaks document halt) ∨
        Call.Ended document options (Call.Opens document (AnyStarts document roots)) registry
          halt := by
    refine .forM fun root mem => (WalkRoot.fills fun slot starts => ⟨root, mem, starts⟩).weaken ?_
    exact fun registry halt => Or.imp_left fun broken => ⟨root, mem, broken⟩
  obtain ⟨filled, failed⟩ := fills .empty .refl
  cases hr : ((roots.forM (WalkRoot.walk document options)) .empty).result with
  | ok value => rfl
  | error halt =>
    exfalso
    rcases failed halt hr with ⟨root, mem, broken⟩ | ⟨call, reached, fails⟩
    · exact clear.unbroken root mem halt broken
    · cases fails with
      | plan e =>
        obtain ⟨whole, complete⟩ := clear.planned call reached.of_opens
        obtain ⟨plan, planned⟩ := Call.exists_plan_of_everything complete
        cases planned.symm.trans e
      -- The model that is there was registered by a call that is reached, too, so it is the same.
      | @taken name model known registers held other =>
        rcases filled.entered (Entries.mem_of_get? held) with absent | ⟨earlier, reached', registers'⟩
        · cases absent
        · obtain rfl := clear.single earlier call name known model reached'.of_opens reached.of_opens
            registers'.everything registers.everything
          exact other rfl
      | outOfSteps => exact walks_end coherent of options hr

/-- Walks from roots of a document succeed if nothing stands in their way, and only then. -/
theorem WalkRoot.walkAll_succeeds_iff :
    (walkAll document roots .empty).result = .ok () ↔ Clear document roots := by
  constructor
  · intro succeeds
    have walked := walkAll_walked coherent of succeeds
    refine { unbroken := ?_, planned := fun call => walked.planned, single := ?_ }
    · intro root mem halt
      obtain ⟨before, here⟩ := Walk.exists_of_forM_gives (Visit.gives_of_ok succeeds) root mem
      refine not_breaks_of_walk here fun slot starts => ?_
      have reached : (Call.child slot none none).Reached document .everything
          (Call.From (AnyStarts document roots)) := .first ⟨slot, ⟨root, mem, starts⟩, rfl⟩
      exact walked.exists_schema reached rfl
    · intro call other name model rival reached reached' registers registers'
      have kept := walked.kept reached registers
      have kept' := walked.kept reached' registers'
      exact Option.some.inj (kept.symm.trans kept')
  · intro clear
    exact clear.succeeds coherent of .everything

end Clear

omit [Spelling] in
/-- What stands in the way of walks does not depend on the order of their roots. -/
lemma WalkRoot.anyStarts_eq_of_perm {document : Document} {roots others : List WalkRoot}
    (perm : roots.Perm others) : AnyStarts document roots = AnyStarts document others := by
  funext slot
  apply propext
  exact ⟨fun ⟨root, mem, starts⟩ => ⟨root, perm.subset mem, starts⟩,
    fun ⟨root, mem, starts⟩ => ⟨root, perm.symm.subset mem, starts⟩⟩

/-- Whether something stands in the way does not depend on the order of the roots. -/
lemma WalkRoot.Clear.of_perm {document : Document} {roots others : List WalkRoot}
    (clear : Clear document roots) (perm : roots.Perm others) : Clear document others where
  unbroken root mem := clear.unbroken root (perm.symm.subset mem)
  planned := anyStarts_eq_of_perm perm ▸ clear.planned
  single := anyStarts_eq_of_perm perm ▸ clear.single

/-- Walks about the same first calls register the same models. -/
lemma Registry.Walked.perm {document : Document} {options : WalkOptions} {first : Call → Prop}
    {registry other : Registry} (walked : registry.Walked document options first)
    (walked' : other.Walked document options first) : registry.models.Perm other.models := by
  have here : ∀ {registry : Registry}, registry.Walked document options first →
      ∀ entry : String × Registered, entry ∈ registry.models ↔
        ∃ call : Call, call.Reached document options first ∧
          call.Registers document options entry.1 entry.2 := by
    intro registry walked entry
    rw [← walked.proper.get?_eq_some_iff]
    constructor
    · exact walked.entered
    · rintro ⟨call, reached, registers⟩
      exact walked.kept reached registers
  have nodup := List.Nodup.of_map Prod.fst walked.proper.distinct
  have nodup' := List.Nodup.of_map Prod.fst walked'.proper.distinct
  refine (List.perm_ext_iff_of_nodup nodup nodup').2 fun entry => ?_
  exact (here walked entry).trans (here walked' entry).symm

/-- Walks of everything from roots of a document that is read, one after another into the empty
registry, come to an end; they succeed in one order of the roots if they do in another, and then they
register the same models. -/
theorem WalkRoot.walkAll_perm {id : DocumentId} {tree : Json} {document : Document}
    (read : Document.read id tree = .ok document) (distinct : tree.keysDistinct = true)
    {roots others : List WalkRoot} (of : ∀ root ∈ roots, root.Of document)
    (perm : roots.Perm others) :
    (walkAll document roots .empty).result ≠ .error .outOfSteps ∧
      ((walkAll document roots .empty).result = .ok () ↔
        (walkAll document others .empty).result = .ok ()) ∧
      ((walkAll document roots .empty).result = .ok () →
        (walkAll document roots .empty).registry.models.Perm
          (walkAll document others .empty).registry.models) := by
  have coherent := Document.coherent_of_read read distinct
  have of' : ∀ root ∈ others, root.Of document := fun root mem => of root (perm.symm.subset mem)
  have same : (walkAll document roots .empty).result = .ok () ↔
      (walkAll document others .empty).result = .ok () := by
    rw [walkAll_succeeds_iff coherent of, walkAll_succeeds_iff coherent of']
    exact ⟨fun clear => clear.of_perm perm, fun clear => clear.of_perm perm.symm⟩
  refine ⟨walks_end coherent of .everything, same, fun succeeds => ?_⟩
  have walked := walkAll_walked coherent of succeeds
  have walked' := walkAll_walked coherent of' (same.1 succeeds)
  rw [anyStarts_eq_of_perm perm] at walked
  exact walked.perm walked'

end Spelled

attribute [local instance] Spelling.german

/-- A description with an operation that returns the second of two schemas, to which the first one
refers. -/
def pairTree : Json :=
  let ref (name : String) : Json := .obj [("$ref", .str ("#/components/schemas/" ++ name))]
  .obj [
    ("openapi", .str "3.0.0"),
    ("info", .obj [("title", .str "Orders"), ("version", .str "1")]),
    ("paths", .obj [("/items", .obj [("get", .obj [("responses", .obj [("200", .obj [
      ("content", .obj [("application/json", .obj [("schema", ref "Item")])])])])])])]),
    ("components", .obj [("schemas", .obj [
      ("Order", .obj [("properties", .obj [
        ("state", .obj [("enum", .arr [.str "open"])]),
        ("item", ref "Item")])]),
      ("Item", .obj [("properties", .obj [("order", ref "Order")])])])])]

/-- The walks from the paths and from the components of the description register the same models, in
different orders. -/
theorem WalkRoot.walkAll_perm_pair :
    pairTree.keysDistinct = true ∧ ∃ document, Document.read ⟨0⟩ pairTree = .ok document ∧
      (walkAll document [.paths, .components] .empty).result = .ok () ∧
      (walkAll document [.components, .paths] .empty).result = .ok () ∧
      (walkAll document [.paths, .components] .empty).registry.names =
        ["Item", "Order", "OrderState"] ∧
      (walkAll document [.components, .paths] .empty).registry.names =
        ["Order", "OrderState", "Item"] ∧
      (walkAll document [.paths, .components] .empty).registry.models.Perm
        (walkAll document [.components, .paths] .empty).registry.models := by
  have distinct : pairTree.keysDistinct = true := by decide +kernel
  have run : ((Document.read ⟨0⟩ pairTree).toOption.map fun document =>
      ((walkAll document [.paths, .components] .empty).result.toOption,
        (walkAll document [.paths, .components] .empty).registry.names,
        (walkAll document [.components, .paths] .empty).registry.names)) =
        some (some (), ["Item", "Order", "OrderState"], ["Order", "OrderState", "Item"]) := by
    decide +kernel
  obtain ⟨document, found, run⟩ := Option.map_eq_some_iff.1 run
  have read := toOption_eq_some.1 found
  obtain ⟨ended, names, names'⟩ : _ ∧ _ ∧ _ := by simpa only [Prod.mk.injEq] using run
  have succeeds := toOption_eq_some.1 ended
  have of : ∀ root ∈ [WalkRoot.paths, WalkRoot.components], root.Of document := by
    intro root mem
    rcases List.mem_pair.1 mem with rfl | rfl
    · trivial
    · trivial
  have perm : [WalkRoot.paths, WalkRoot.components].Perm [WalkRoot.components, WalkRoot.paths] :=
    List.Perm.swap _ _ _
  obtain ⟨-, same, registered⟩ := walkAll_perm read distinct of perm
  exact ⟨distinct, document, read, succeeds, same.1 succeeds, names, names', registered succeeds⟩

end OpenApiManifest
