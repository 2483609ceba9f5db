import OpenApiManifest.Proofs.Trails
import OpenApiManifest.Proofs.Types.Mentions

/-!
# The end of types

A type that is computed stays the same with more steps (`Mapper.schemaType_of_le`).  The type of one schema
is made of those of others (`Mapper.Passes`), and only a named array may lead back to itself that way
(`Mapper.exists_circle`).  The type of a schema on such a circle is never computed, and any other one is
computed within a number of steps that the document and the schema determine (`Mapper.schemaType_enough`).
-/

namespace OpenApiManifest

namespace Run

variable {α β : Type}

/-- What some work comes to, other than running out of steps, more work comes to as well. -/
def Lasts (run more : Run α) : Prop :=
  run.result ≠ .error .outOfSteps → more.result = run.result

namespace Lasts

/-- Work lasts where nothing is added to it. -/
lemma refl (run : Run α) : run.Lasts run := fun _ => rfl

/-- Work that runs out of steps lasts, whatever more work comes to. -/
lemma outOfSteps (more : Run α) : Lasts .outOfSteps more := fun h => absurd rfl h

/-- Work that lasts twice lasts. -/
lemma trans {run middle more : Run α} (h : run.Lasts middle) (h' : middle.Lasts more) :
    run.Lasts more := by
  intro ended
  have same := h ended
  exact (h' (same ▸ ended)).trans same

/-- Work in two parts lasts if both parts do. -/
lemma bind {run more : Run α} {next next' : α → Run β} (h : run.Lasts more)
    (hn : ∀ value, (next value).Lasts (next' value)) : (run >>= next).Lasts (more >>= next') := by
  intro ended
  rw [result_bind] at ended
  rw [result_bind, result_bind]
  cases hr : run.result with
  | error halt =>
    have halted : run.result ≠ .error .outOfSteps := by
      rw [hr] at ended ⊢
      exact fun e => ended (by rw [Except.error.inj e]; rfl)
    rw [h halted, hr]
    rfl
  | ok value =>
    rw [hr] at ended
    rw [h (by rw [hr]; nofun), hr]
    exact hn value ended

/-- Work on several values lasts if that on each of them does. -/
lemma mapM {next next' : α → Run β} {values : List α}
    (h : ∀ value ∈ values, (next value).Lasts (next' value)) :
    (values.mapM next).Lasts (values.mapM next') := by
  induction values with
  | nil => exact .refl _
  | cons value rest ih =>
    obtain ⟨first, others⟩ := List.forall_mem_cons.1 h
    rw [List.mapM_cons, List.mapM_cons]
    exact first.bind fun _ => (ih others).bind fun _ => .refl _

end Lasts

end Run

namespace Mapper

variable {mapper : Mapper} {steps more : Nat} {schema inside : Schema} {slot : SchemaSlot}
  {candidate inner : Option String} {type : TypeRef}

/-- One more step changes no type that is computed. -/
lemma types_last (mapper : Mapper) (steps : Nat) :
    (∀ schema candidate, (mapper.schemaType steps schema candidate).Lasts
      (mapper.schemaType (steps + 1) schema candidate)) ∧
    (∀ slot candidate, (mapper.valueType steps slot candidate).Lasts
      (mapper.valueType (steps + 1) slot candidate)) ∧
    (∀ slot, (mapper.unionMember steps slot).Lasts (mapper.unionMember (steps + 1) slot)) := by
  -- The three call each other, so they are shown together.
  induction steps with
  | zero => exact ⟨fun _ _ => .outOfSteps _, fun _ _ => .outOfSteps _, fun _ => .outOfSteps _⟩
  | succ steps ih =>
    obtain ⟨schemaType, valueType, unionMember⟩ := ih
    refine ⟨fun schema candidate => ?_, fun slot candidate => ?_, fun slot => ?_⟩
    · rw [schemaType_succ, schemaType_succ]
      cases mapper.form schema candidate with
      | model name model => exact .refl _
      | plain type => exact .refl _
      | only slot => exact (Run.Lasts.refl _).bind fun member => schemaType member candidate
      | list slot inner => exact (valueType slot inner).bind fun _ => .refl _
      | map slot => exact (valueType slot none).bind fun _ => .refl _
      | union members =>
        exact (Run.Lasts.mapM fun slot _ => unionMember slot).bind fun _ => .refl _
    · rw [Mapper.valueType, Mapper.valueType]
      exact (Run.Lasts.refl _).bind fun inside =>
        (schemaType inside candidate).bind fun _ => .refl _
    · rw [unionMember_succ, unionMember_succ]
      refine (Run.Lasts.refl _).bind fun member => ?_
      cases mapper.memberModel? member with
      | some name => exact .refl _
      | none => exact (schemaType member none).bind fun _ => .refl _

/-- More steps change no type that is computed. -/
theorem schemaType_of_le (le : steps ≤ more) :
    (mapper.schemaType steps schema candidate).Lasts (mapper.schemaType more schema candidate) := by
  induction le with
  | refl => exact .refl _
  | step _ ih => exact ih.trans ((types_last mapper _).1 schema candidate)

/-- The type of a schema is made of that of another: its only member, its items, its values, or a member
of a choice that is spelled out.  Each comes with the name of its model, should it become one. -/
inductive Passes (mapper : Mapper) : Schema × Option String → Schema × Option String → Prop
  | only {schema member : Schema} {slot : SchemaSlot} {candidate : Option String} :
    mapper.form schema candidate = .only slot → (slot.resolve mapper.document).result = .ok member →
      Passes mapper (schema, candidate) (member, candidate)
  | items {schema items : Schema} {slot : SchemaSlot} {candidate inner : Option String} :
    mapper.form schema candidate = .list slot inner →
      (slot.resolve mapper.document).result = .ok items →
      Passes mapper (schema, candidate) (items, inner)
  | values {schema value : Schema} {slot : SchemaSlot} {candidate : Option String} :
    mapper.form schema candidate = .map slot → (slot.resolve mapper.document).result = .ok value →
      Passes mapper (schema, candidate) (value, none)
  | member {schema member : Schema} {members : List SchemaSlot} {slot : SchemaSlot}
    {candidate : Option String} :
    mapper.form schema candidate = .union members → slot ∈ members →
      (slot.resolve mapper.document).result = .ok member → mapper.memberModel? member = none →
      Passes mapper (schema, candidate) (member, none)

/-- What the type of a schema is made of stands at a position of the schema. -/
lemma Passes.holds {start next : Schema × Option String} (h : mapper.Passes start next) :
    start.1.Holds mapper.document next.1 := by
  cases h with
  | @only schema _ slot _ hf hr =>
    refine ⟨slot, ?_, hr⟩
    rw [Schema.slots, (form_eq_only hf).2]
    exact List.mem_singleton_self slot
  | items hf hr =>
    obtain ⟨⟨least, most, hk⟩, -⟩ := form_eq_list hf
    exact ⟨_, Schema.mem_slots_of_items? (by rw [Schema.items?, hk]), hr⟩
  | values hf hr =>
    obtain ⟨-, -, properties, required, additional, hk, hv⟩ := form_eq_map hf
    exact ⟨_, Schema.mem_slots_of_additional? (by rw [Schema.additional?, hk]; exact hv), hr⟩
  | @member schema _ members slot _ hf hs hr _ =>
    refine ⟨slot, ?_, hr⟩
    rwa [Schema.slots, (form_eq_union hf).2.2]

/-- The type of a value runs out of steps where it has none, or where that of its schema does with one step
less. -/
lemma valueType_outOfSteps (h : (mapper.valueType steps slot candidate).result = .error .outOfSteps) :
    steps = 0 ∨ ∃ fewer, steps = fewer + 1 ∧ ∃ inside,
      (slot.resolve mapper.document).result = .ok inside ∧
        (mapper.schemaType fewer inside candidate).result = .error .outOfSteps := by
  cases steps with
  | zero => exact .inl rfl
  | succ fewer =>
    rw [valueType] at h
    rcases Run.bind_result_eq_error.1 h with first | ⟨inside, hr, h⟩
    · exact absurd first Slot.resolve_ne_outOfSteps
    · rcases Run.bind_result_eq_error.1 h with own | ⟨_, -, last⟩
      · exact .inr ⟨fewer, rfl, inside, hr, own⟩
      · cases last

/-- A member of a choice runs out of steps where it has none, or where it is no model and its type does with
one step less. -/
lemma unionMember_outOfSteps (h : (mapper.unionMember steps slot).result = .error .outOfSteps) :
    steps = 0 ∨ ∃ fewer, steps = fewer + 1 ∧ ∃ member,
      (slot.resolve mapper.document).result = .ok member ∧ mapper.memberModel? member = none ∧
        (mapper.schemaType fewer member none).result = .error .outOfSteps := by
  cases steps with
  | zero => exact .inl rfl
  | succ fewer =>
    rw [unionMember_succ] at h
    rcases Run.bind_result_eq_error.1 h with first | ⟨member, hr, h⟩
    · exact absurd first Slot.resolve_ne_outOfSteps
    · cases hm : mapper.memberModel? member with
      | some name =>
        rw [hm] at h
        cases h
      | none =>
        rw [hm] at h
        rcases Run.bind_result_eq_error.1 h with own | ⟨_, -, last⟩
        · exact .inr ⟨fewer, rfl, member, hr, hm, own⟩
        · cases last

/-- A type that is not computed for want of steps had one step at most, or is made of one that is not
computed with at most two steps less. -/
lemma exists_passes_of_outOfSteps
    (h : (mapper.schemaType steps schema candidate).result = .error .outOfSteps) :
    steps ≤ 1 ∨ ∃ fewer, steps ≤ fewer + 2 ∧ fewer < steps ∧ ∃ next,
      mapper.Passes (schema, candidate) next ∧
        (mapper.schemaType fewer next.1 next.2).result = .error .outOfSteps := by
  cases steps with
  | zero => exact .inl (Nat.zero_le 1)
  | succ steps =>
    rw [schemaType_succ] at h
    -- A form that goes into no other schema does not run out, so that the steps run out inside another one.
    cases hf : mapper.form schema candidate with
    | model name model =>
      rw [hf] at h
      cases h
    | plain type =>
      rw [hf] at h
      cases h
    | only slot =>
      rw [hf] at h
      rcases Run.bind_result_eq_error.1 h with first | ⟨member, hr, own⟩
      · exact absurd first Slot.resolve_ne_outOfSteps
      · exact .inr ⟨steps, by omega, by omega, _, .only hf hr, own⟩
    | list slot inner =>
      rw [hf] at h
      rcases Run.bind_result_eq_error.1 h with own | ⟨_, -, last⟩
      · rcases valueType_outOfSteps own with rfl | ⟨fewer, rfl, items, hr, own⟩
        · exact .inl (Nat.le_refl 1)
        · exact .inr ⟨fewer, by omega, by omega, _, .items hf hr, own⟩
      · cases last
    | map slot =>
      rw [hf] at h
      rcases Run.bind_result_eq_error.1 h with own | ⟨_, -, last⟩
      · rcases valueType_outOfSteps own with rfl | ⟨fewer, rfl, value, hr, own⟩
        · exact .inl (Nat.le_refl 1)
        · exact .inr ⟨fewer, by omega, by omega, _, .values hf hr, own⟩
      · cases last
    | union members =>
      rw [hf] at h
      rcases Run.bind_result_eq_error.1 h with own | ⟨_, -, last⟩
      · obtain ⟨slot, hs, own⟩ := Run.exists_of_mapM_error own
        rcases unionMember_outOfSteps own with rfl | ⟨fewer, rfl, member, hr, hm, own⟩
        · exact .inl (Nat.le_refl 1)
        · exact .inr ⟨fewer, by omega, by omega, _, .member hf hs hr hm, own⟩
      · cases last

/-- A type that is not computed for want of steps leaves a path of no less than half of them. -/
lemma exists_path_of_outOfSteps
    (h : (mapper.schemaType steps schema candidate).result = .error .outOfSteps) :
    ∃ path, ((schema, candidate) :: path).IsChain mapper.Passes ∧ steps ≤ 2 * (path.length + 1) := by
  induction steps using Nat.strongRecOn generalizing schema candidate with
  | ind steps ih =>
    rcases exists_passes_of_outOfSteps h with few | ⟨fewer, le, lt, ⟨inside, inner⟩, step, own⟩
    · exact ⟨[], .singleton _, by simp; omega⟩
    · obtain ⟨path, chain, long⟩ := ih fewer lt own
      refine ⟨(inside, inner) :: path, .cons_cons step chain, ?_⟩
      rw [List.length_cons]
      omega

/-- The name for a model of its own makes no difference to a schema that has a name. -/
lemma schemaType_of_name {name : String} (named : schema.name? = some name) (other : Option String) :
    mapper.schemaType steps schema candidate = mapper.schemaType steps schema other := by
  cases steps with
  | zero => rfl
  | succ steps =>
    rw [schemaType_succ, schemaType_succ]
    unfold form
    split
    · rfl
    · rename_i emitted
      cases one : schema.onlyMember? with
      | some member =>
        -- A composition with a name is emitted.
        have hk : schema.kind = .allOf [member] := by
          unfold Schema.onlyMember? at one
          split at one
          · cases one
            assumption
          · cases one
        have nameless := name?_eq_none_of_not_emitted (Bool.eq_false_iff.2 emitted) fun name => by
          simp [Schema.isEmitted, hk]
        cases nameless.symm.trans named
      | none =>
        dsimp only
        rw [named]
        unfold Schema.spelledForm
        rw [named]
        cases schema.kind with
        | object properties required additional => cases additional <;> rfl
        | _ => rfl

/-- A type is computed together with all those that it is made of, which take fewer steps. -/
lemma exists_of_passes {start next : Schema × Option String} (step : mapper.Passes start next)
    (h : (mapper.schemaType steps start.1 start.2).result = .ok type) :
    ∃ fewer < steps, ∃ spelled, (mapper.schemaType fewer next.1 next.2).result = .ok spelled := by
  cases steps with
  | zero => cases h
  | succ steps =>
    rw [schemaType_succ] at h
    cases step with
    | only hf hr =>
      rw [hf] at h
      obtain ⟨member, hr', h⟩ := Run.bind_result_eq_ok.1 h
      obtain rfl := Except.ok.inj (hr.symm.trans hr')
      exact ⟨steps, Nat.lt_succ_self steps, type, h⟩
    | items hf hr =>
      rw [hf] at h
      obtain ⟨items, hi, -⟩ := Run.bind_result_eq_ok.1 h
      obtain ⟨fewer, lt, inside, hr', spelled, ht, -⟩ := exists_of_valueType hi
      obtain rfl := Except.ok.inj (hr.symm.trans hr')
      exact ⟨fewer, Nat.lt_succ_of_lt lt, spelled, ht⟩
    | values hf hr =>
      rw [hf] at h
      obtain ⟨values, hv, -⟩ := Run.bind_result_eq_ok.1 h
      obtain ⟨fewer, lt, inside, hr', spelled, ht, -⟩ := exists_of_valueType hv
      obtain rfl := Except.ok.inj (hr.symm.trans hr')
      exact ⟨fewer, Nat.lt_succ_of_lt lt, spelled, ht⟩
    | member hf hs hr hm =>
      rw [hf] at h
      obtain ⟨described, hd, -⟩ := Run.bind_result_eq_ok.1 h
      obtain ⟨member, -, hu⟩ := Run.exists_of_mapM hd hs
      obtain ⟨fewer, lt, inside, hr', hu⟩ := exists_of_unionMember hu
      obtain rfl := Except.ok.inj (hr.symm.trans hr')
      rw [hm] at hu
      exact ⟨fewer, Nat.lt_succ_of_lt lt, _, hu⟩

/-- Where types lead from a schema to another one, the type of the first is computed only if that of the
other is, in fewer steps. -/
lemma exists_of_leads {start next : Schema × Option String}
    (leads : Relation.TransGen mapper.Passes start next)
    (h : (mapper.schemaType steps start.1 start.2).result = .ok type) :
    ∃ fewer < steps, ∃ spelled, (mapper.schemaType fewer next.1 next.2).result = .ok spelled := by
  induction leads with
  | single step => exact exists_of_passes step h
  | tail _ step ih =>
    obtain ⟨fewer, lt, _, h⟩ := ih
    obtain ⟨least, lt', there⟩ := exists_of_passes step h
    exact ⟨least, Nat.lt_trans lt' lt, there⟩

/-- A schema with a name whose type is made of itself. -/
def Circle (mapper : Mapper) (schema : Schema) : Prop :=
  schema.name?.isSome ∧ ∃ candidate other,
    Relation.TransGen mapper.Passes (schema, candidate) (schema, other)

/-- The type of a schema that is made of itself is not computed, whatever the steps. -/
lemma Circle.ne_ok (circle : mapper.Circle schema) :
    (mapper.schemaType steps schema candidate).result ≠ .ok type := by
  obtain ⟨named, first, other, leads⟩ := circle
  obtain ⟨name, named⟩ := Option.isSome_iff_exists.1 named
  rw [schemaType_of_name named first]
  induction steps using Nat.strongRecOn generalizing type with
  | ind steps ih =>
    intro h
    obtain ⟨fewer, lt, spelled, again⟩ := exists_of_leads leads h
    rw [schemaType_of_name named first] at again
    exact ih fewer lt again

section Enough

variable (coherent : mapper.document.Coherent) (contains : mapper.document.Contains (.owned schema))
include coherent contains

/-- Without a circle no name occurs twice among the schemas of a path. -/
lemma trail_of_isChain {path : List (Schema × Option String)}
    (chain : ((schema, candidate) :: path).IsChain mapper.Passes)
    (free : ∀ inside inner, Relation.ReflTransGen mapper.Passes (schema, candidate) (inside, inner) →
      ¬ mapper.Circle inside) :
    Schema.Trail (Schema.Holds mapper.document) [] schema
      (((schema, candidate) :: path).map Prod.fst) := by
  have pairwise : ((schema, candidate) :: path).Pairwise (Relation.TransGen mapper.Passes) :=
    List.isChain_iff_pairwise.1 (chain.imp fun _ _ => .single)
  have reached : ∀ next ∈ (schema, candidate) :: path,
      Relation.ReflTransGen mapper.Passes (schema, candidate) next := by
    intro next hn
    rcases List.mem_cons.1 hn with rfl | hn
    · exact .refl
    · exact ((List.pairwise_cons.1 pairwise).1 next hn).to_reflTransGen
  have there : ∀ next ∈ (schema, candidate) :: path, mapper.document.Contains (.owned next.1) := by
    intro next hn
    have leads : Relation.ReflTransGen (Schema.Holds mapper.document) schema next.1 :=
      Relation.ReflTransGen.lift Prod.fst (fun _ _ step => step.holds) _ _ (reached next hn)
    exact contains.leads leads
  exact
    { chain := (List.isChain_map _).2 (chain.imp fun _ _ step => step.holds)
      head := fun first hf => by
        cases hf
        rfl
      -- A name that occurs again stands for the same schema, which would then be on a circle.
      distinct := by
        rw [List.Nodup, List.pairwise_filterMap, List.pairwise_map]
        refine pairwise.imp_of_mem fun {first next} hf hn leads own named other named' => ?_
        rintro rfl
        obtain ⟨inside, inner⟩ := first
        obtain ⟨again, other⟩ := next
        obtain rfl := coherent.eq_of_name (there _ hf) (there _ hn) named named'
        exact free _ _ (reached _ hf) ⟨Option.isSome_of_mem named, inner, other, leads⟩
      fresh := fun _ _ => List.not_mem_nil }

/-- A type that is not computed within enough steps comes to a schema that is made of itself. -/
theorem exists_circle
    (enough : 2 * ((mapper.document.components.schemas.length + 2)
      * (schema.size + Schema.propertiesSize mapper.document.components.schemas + 1)) ≤ steps)
    (h : (mapper.schemaType steps schema candidate).result = .error .outOfSteps) :
    ∃ inside inner, Relation.ReflTransGen mapper.Passes (schema, candidate) (inside, inner) ∧
      mapper.Circle inside := by
  by_contra free
  simp only [not_exists, not_and] at free
  obtain ⟨path, chain, long⟩ := exists_path_of_outOfSteps h
  have trail := trail_of_isChain coherent contains chain free
  have short := trail.length_lt coherent (fun _ _ step => .single step) contains
    fun _ _ => coherent.not_onCircle fun _ _ step => step
  rw [List.length_map, List.length_cons] at short
  omega

/-- A type that is computed at all is computed within enough steps. -/
theorem schemaType_enough
    (enough : 2 * ((mapper.document.components.schemas.length + 2)
      * (schema.size + Schema.propertiesSize mapper.document.components.schemas + 1)) ≤ more)
    (h : (mapper.schemaType steps schema candidate).result = .ok type) :
    (mapper.schemaType more schema candidate).result = .ok type := by
  rcases Nat.le_total steps more with le | le
  · exact (schemaType_of_le le (by rw [h]; nofun)).trans h
  · have ends : (mapper.schemaType more schema candidate).result ≠ .error .outOfSteps := by
      intro e
      obtain ⟨inside, inner, leads, circle⟩ := exists_circle coherent contains enough e
      rcases Relation.reflTransGen_iff_eq_or_transGen.1 leads with same | leads
      · cases same
        exact circle.ne_ok h
      · obtain ⟨fewer, -, spelled, there⟩ := exists_of_leads leads h
        exact circle.ne_ok there
    exact (schemaType_of_le le ends).symm.trans h

end Enough

end Mapper

end OpenApiManifest
