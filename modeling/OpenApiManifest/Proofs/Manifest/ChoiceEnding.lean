import OpenApiManifest.Proofs.Manifest.ChoiceMembers
import OpenApiManifest.Proofs.Manifest.Growth

/-!
# The end of a search for choices

A search stops at the names that it has entered, so that it leaves a trail while it does not end
(`ChoiceSearch.exists_trail`).  What has no name is not remembered: a search ends within its steps unless it
comes to a nameless schema that leads back to itself through nameless ones, and from there it does not
return however many steps it is given (`Schema.choiceMembers_ends`).
-/

namespace OpenApiManifest

/-- A search that begins with a schema comes to one from which nameless schemas lead back to it. -/
def Schema.Circles (document : Document) (schema : Schema) : Prop :=
  ∃ inner, Relation.ReflTransGen (Branches document) schema inner ∧ inner.OnCircle (Branches document)

namespace ChoiceSearch

variable {mapper : Mapper} {search found : ChoiceSearch} {schema : Schema}

/-- Nothing that is covered is on a circle, since nameless schemas are covered after what they lead to. -/
lemma Covers.not_onCircle (h : Covers mapper search schema) :
    ¬ schema.OnCircle (Schema.Branches mapper.document) := by
  induction h with
  | entered named _ =>
    intro circle
    cases named.symm.trans circle.nameless
  | nameless _ _ _ ih =>
    intro circle
    obtain ⟨inner, step, circle⟩ := circle.exists_next
    exact ih inner step circle

/-- Finding out what a member contributes does not run out of steps. -/
lemma contribution_ne_outOfSteps {document : Document} {listModels : List String} {slot : SchemaSlot} :
    (contribution document listModels slot).result ≠ .error .outOfSteps := by
  refine Run.bind_ne_outOfSteps Slot.resolve_ne_outOfSteps fun member _ => ?_
  dsimp only
  split
  · nofun
  · split
    · exact Run.bind_ne_outOfSteps Slot.resolve_ne_outOfSteps fun _ _ => nofun
    · nofun

/-- Adding the members of a choice does not run out of steps. -/
lemma addMembers_ne_outOfSteps {document : Document} {listModels : List String} :
    (addMembers document listModels schema search).result ≠ .error .outOfSteps := by
  unfold addMembers
  split
  · intro h
    obtain ⟨before, -, slot, -, h⟩ :=
      Run.exists_of_foldlM_error (fun _ => True) trivial (fun _ _ _ _ _ _ => trivial) h
    refine Run.bind_ne_outOfSteps contribution_ne_outOfSteps (fun name? _ => ?_) h
    cases name? with
    | none => nofun
    | some name => nofun
  · nofun

section Trail

variable {id : DocumentId} {tree : Json} (read : Document.read id tree = .ok mapper.document)
  (distinct : tree.keysDistinct = true)
include read distinct

/-- A search that does not end with a property does not end with it or with what it contains, which it
enters after all that it has entered. -/
lemma exists_of_enterProperty {steps : Nat} {slot : SchemaSlot} (contains : mapper.document.Contains slot)
    (h : (enterProperty mapper.document mapper.listModels steps search slot).result =
      .error .outOfSteps) :
    ∃ property, (slot.resolve mapper.document).result = .ok property ∧ ∃ inner later,
      (inner = property ∨ ∃ content ∈ property.contents,
        (content.resolve mapper.document).result = .ok inner) ∧
      search.entered ⊆ later.entered ∧
      (enter mapper.document mapper.listModels steps inner later).result = .error .outOfSteps := by
  rcases Run.bind_result_eq_error.1 h with first | ⟨property, hr, h⟩
  · exact absurd first Slot.resolve_ne_outOfSteps
  refine ⟨property, hr, ?_⟩
  rcases Run.bind_result_eq_error.1 h with own | ⟨middle, he, h⟩
  · exact ⟨property, search, .inl rfl, List.Subset.refl _, own⟩
  · have there := contains.resolve hr
    have inside : ∀ content ∈ property.contents, mapper.document.Contains content :=
      fun content hc => .inside there (Schema.mem_slots_of_contents hc)
    have start := (grows_of_enter read distinct there steps he).1.entered
    obtain ⟨later, kept, content, hc, h⟩ := Run.exists_of_foldlM_error
      (fun later => search.entered ⊆ later.entered) start
      (fun before content after hc kept step => by
        obtain ⟨value, hv, step⟩ := Run.bind_result_eq_ok.1 step
        have grows := (grows_of_enter read distinct ((inside content hc).resolve hv) steps step).1
        exact List.Subset.trans kept grows.entered) h
    rcases Run.bind_result_eq_error.1 h with first | ⟨inner, hi, h⟩
    · exact absurd first Slot.resolve_ne_outOfSteps
    · exact ⟨inner, later, .inr ⟨content, hc, hi⟩, kept, h⟩

/-- A search that does not end with a schema enters it anew, and does not end with what it goes on to. -/
lemma exists_branch {steps : Nat} (contains : mapper.document.Contains (.owned schema))
    (h : (enter mapper.document mapper.listModels (steps + 1) schema search).result =
      .error .outOfSteps) :
    (∀ name ∈ schema.name?, name ∉ search.entered) ∧
      ∃ inner later, schema.Branches mapper.document inner ∧
        search.entered ++ schema.name?.toList ⊆ later.entered ∧
        (enter mapper.document mapper.listModels steps inner later).result = .error .outOfSteps := by
  rw [enter_succ] at h
  split at h
  · cases h
  rename_i unknown
  refine ⟨fun name hn mem => unknown ?_, ?_⟩
  · exact (Option.any_eq_true _ _).2 ⟨name, hn, decide_eq_true mem⟩
  rcases Run.bind_result_eq_error.1 h with first | ⟨added, ha, h⟩
  · exact absurd first addMembers_ne_outOfSteps
  have inside : ∀ slot ∈ (schema.properties?.getD []).values, mapper.document.Contains slot :=
    fun slot hs => .inside contains (Schema.mem_slots_of_property? hs)
  have start := (grows_of_addMembers read distinct contains ha).2.1.entered
  obtain ⟨before, kept, slot, hs, h⟩ := Run.exists_of_foldlM_error
    (fun later => search.entered ++ schema.name?.toList ⊆ later.entered) start
    (fun before slot after hs kept step => by
      have grows := (grows_of_enterProperty
        (fun contains h => grows_of_enter read distinct contains steps h) (inside slot hs) step).1
      exact List.Subset.trans kept grows.entered) h
  obtain ⟨property, hr, inner, later, there, more, h⟩ :=
    exists_of_enterProperty read distinct (inside slot hs) h
  have branches := Schema.branches_iff.2 ⟨property, Schema.hasProperty_iff.2 ⟨slot, hs, hr⟩, there⟩
  exact ⟨inner, later, branches, List.Subset.trans kept more, h⟩

/-- A search that does not end leaves a trail of all its steps. -/
lemma exists_trail {steps : Nat} (contains : mapper.document.Contains (.owned schema))
    (h : (enter mapper.document mapper.listModels steps schema search).result = .error .outOfSteps) :
    ∃ path, path.length = steps ∧
      Schema.Trail (Schema.Branches mapper.document) search.entered schema path := by
  induction steps generalizing schema search with
  | zero => exact ⟨[], rfl, .nil⟩
  | succ steps ih =>
    obtain ⟨fresh, inner, later, step, kept, h⟩ := exists_branch read distinct contains h
    obtain ⟨path, rfl, trail⟩ := ih (contains.leads step.leads) h
    refine ⟨schema :: path, rfl, trail.cons step fresh ?_ ?_⟩
    · exact fun name hn => kept (List.mem_append_right _ hn)
    · exact fun name hn => kept (List.mem_append_left _ hn)

/-- A search that does not end within the steps of the document comes to a circle. -/
lemma circles_of_outOfSteps (contains : mapper.document.Contains (.owned schema))
    (h : (enter mapper.document mapper.listModels (mapper.document.steps schema.size) schema
      ⟨[], []⟩).result = .error .outOfSteps) : schema.Circles mapper.document := by
  by_contra free
  obtain ⟨path, long, trail⟩ := exists_trail read distinct contains h
  have short := trail.length_lt_steps (Document.coherent_of_read read distinct)
    (fun _ _ step => step.leads) contains fun inner reached circle => free ⟨inner, reached, circle⟩
  exact Nat.ne_of_lt short long

/-- A search that comes to a circle does not return. -/
lemma ne_ok_of_circles {steps : Nat} (contains : mapper.document.Contains (.owned schema))
    (circles : schema.Circles mapper.document) :
    (enter mapper.document mapper.listModels steps schema ⟨[], []⟩).result ≠ .ok found := by
  intro h
  obtain ⟨inner, reached, circle⟩ := circles
  exact (completes_of_enter read distinct contains h reached).2.1.not_onCircle circle

end Trail

end ChoiceSearch

/-- The search for the members of the choices inside a model comes to an end within its steps unless it
comes to a circle of nameless schemas.  If it does, it does not return members with any number of steps. -/
theorem Schema.choiceMembers_ends {id : DocumentId} {tree : Json} {document : Document}
    (read : Document.read id tree = .ok document) (distinct : tree.keysDistinct = true)
    {schema : Schema} (contains : document.Contains (.owned schema)) (listModels : List String) :
    (¬ schema.Circles document → ∀ name,
      (schema.choiceMembers document listModels name).result ≠ .error .outOfSteps) ∧
    (schema.Circles document → ∀ steps found,
      (ChoiceSearch.enter document listModels steps schema ⟨[], []⟩).result ≠ .ok found) := by
  let mapper : Mapper := ⟨document, listModels⟩
  have ofMapper : Document.read id tree = .ok mapper.document := read
  constructor
  · intro free name h
    rcases Run.bind_result_eq_error.1 h with h | ⟨_, -, h⟩
    · exact free (ChoiceSearch.circles_of_outOfSteps ofMapper distinct contains h)
    · cases h
  · exact fun circles steps found =>
      ChoiceSearch.ne_ok_of_circles ofMapper distinct contains circles

/-- In the zoo, schemas lead back to each other only where there are names. -/
theorem Schema.choiceMembers_ends_zoo :
    zooTree.keysDistinct = true ∧ ∃ document schema,
      Document.read ⟨0⟩ zooTree = .ok document ∧ document.schema? "Zoo" = some (.owned schema) ∧
      ¬ schema.Circles document ∧
      ∀ name, (schema.choiceMembers document [] name).result ≠ .error .outOfSteps := by
  have distinct : zooTree.keysDistinct = true := by decide +kernel
  have run : ((Document.read ⟨0⟩ zooTree).toOption.map fun document =>
      ((document.schema? "Zoo").bind Slot.owned?).map fun schema =>
        (schema.choiceMembers document [] "Zoo").result.toOption) =
      some (some (some ["Cat", "Bird"])) := by decide +kernel
  obtain ⟨document, found, run⟩ := Option.map_eq_some_iff.1 run
  obtain ⟨schema, held, run⟩ := Option.map_eq_some_iff.1 run
  have read := toOption_eq_some.1 found
  obtain ⟨search, ended, -⟩ := Run.bind_result_eq_ok.1 (toOption_eq_some.1 run)
  obtain ⟨slot, hs, ho⟩ := Option.bind_eq_some_iff.1 held
  obtain rfl := Slot.owned?_eq_some_iff.1 ho
  obtain ⟨ends, endless⟩ :=
    choiceMembers_ends read distinct (Document.contains_of_schema? hs) []
  have free : ¬ schema.Circles document := fun circles => endless circles _ search ended
  exact ⟨distinct, document, schema, read, hs, free, ends free⟩

attribute [local instance] Spelling.german

/-- A description of a grove: a forest is an array of nameless trees, with forests below them. -/
def groveTree : Json :=
  let forest : Json := .obj [("$ref", .str "#/components/schemas/Forest")]
  .obj [
    ("openapi", .str "3.0.0"),
    ("info", .obj [("title", .str "Grove"), ("version", .str "1")]),
    ("paths", .obj []),
    ("components", .obj [("schemas", .obj [
      ("Grove", .obj [("properties", .obj [("trees", forest)])]),
      ("Forest", .obj [("type", .str "array"),
        ("items", .obj [("properties", .obj [("below", forest)])])])])])]

/-- The search for choices in the grove goes on with any number of steps: the items of a forest are
nameless, and are entered again from below. -/
theorem Schema.choiceMembers_endless_grove :
    groveTree.keysDistinct = true ∧ ∃ document schema,
      Document.read ⟨0⟩ groveTree = .ok document ∧ document.schema? "Grove" = some (.owned schema) ∧
      (schema.choiceMembers document [] "Grove").result = .error .outOfSteps ∧
      ∀ steps, (ChoiceSearch.enter document [] steps schema ⟨[], []⟩).result = .error .outOfSteps := by
  have distinct : groveTree.keysDistinct = true := by decide +kernel
  have run : ((Document.read ⟨0⟩ groveTree).toOption.map fun document =>
      ((Generator.collect ⟨.standard, true⟩ document .empty).result.toOption,
        ((document.schema? "Grove").bind Slot.owned?).map fun schema =>
          decide ((schema.choiceMembers document [] "Grove").result = .error .outOfSteps))) =
      some (some (), some true) := by decide +kernel
  obtain ⟨document, found, run⟩ := Option.map_eq_some_iff.1 run
  obtain ⟨collected, run⟩ := Prod.mk.inj run
  obtain ⟨schema, held, run⟩ := Option.map_eq_some_iff.1 run
  have read := toOption_eq_some.1 found
  have stuck := of_decide_eq_true run
  obtain ⟨slot, hs, ho⟩ := Option.bind_eq_some_iff.1 held
  obtain rfl := Slot.owned?_eq_some_iff.1 ho
  refine ⟨distinct, document, schema, read, hs, stuck, fun steps => ?_⟩
  let mapper : Mapper := ⟨document, []⟩
  have ofMapper : Document.read ⟨0⟩ groveTree = .ok mapper.document := read
  have coherent := Document.coherent_of_read read distinct
  have contains := Document.contains_of_schema? hs
  have circles : schema.Circles document := by
    rcases Run.bind_result_eq_error.1 stuck with h | ⟨_, -, h⟩
    · exact ChoiceSearch.circles_of_outOfSteps ofMapper distinct contains h
    · cases h
  -- A walk that succeeded came to all that the search comes to, so that no reference leads nowhere.
  have collected := toOption_eq_some.1 collected
  obtain ⟨first, walked, -, closed, -⟩ := Generator.exists_walked coherent collected
  have safe := walked.visited_of_registered (Generator.registered_of_collect coherent collected hs)
  rcases (ChoiceSearch.enter_faultless closed steps safe).exists_ok_or with ⟨found, ok⟩ | out
  · exact absurd ok (ChoiceSearch.ne_ok_of_circles ofMapper distinct contains circles)
  · exact out

end OpenApiManifest
