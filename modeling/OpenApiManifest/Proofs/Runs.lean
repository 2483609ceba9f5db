import Mathlib.Data.List.Forall2
import OpenApiManifest.Proofs.Reading.Fields
import OpenApiManifest.Document.Resolve

/-!
# Work on lists of values

Work on each of some values succeeds exactly if it does for all of them (`Run.mapM_eq_ok`).  Work that
goes through some values keeps what each part of it keeps (`Run.foldlM_keeps`), and achieves what each part
achieves that lasts (`Run.foldlM_achieves`).
-/

namespace OpenApiManifest

/-- What is tried for each of some values succeeds if it does for all of them. -/
lemma mapM_eq_ok {ε α β : Type} {next : α → Except ε β} {values : List α} {results : List β} :
    values.mapM next = .ok results ↔
      List.Forall₂ (fun value result => next value = .ok result) values results := by
  induction values generalizing results with
  | nil =>
    rw [List.mapM_nil, List.forall₂_nil_left_iff]
    exact pure_eq_ok.trans eq_comm
  | cons value rest ih =>
    rw [List.mapM_cons, List.forall₂_cons_left_iff, bind_eq_ok]
    constructor
    · rintro ⟨first, hf, h⟩
      obtain ⟨others, ho, h⟩ := bind_eq_ok.1 h
      cases h
      exact ⟨first, others, hf, ih.1 ho, rfl⟩
    · rintro ⟨first, others, hf, ho, rfl⟩
      exact ⟨first, hf, bind_eq_ok.2 ⟨others, ih.2 ho, rfl⟩⟩

/-- What is tried goes on the same way if it does so with what it goes on with. -/
lemma bind_congr_of_ok {ε α β : Type} {first : Except ε α} {next other : α → Except ε β}
    (h : ∀ value, first = .ok value → next value = other value) : first >>= next = first >>= other := by
  cases first with
  | error cause => rfl
  | ok value => exact h value rfl

namespace Run

variable {α β γ : Type}

/-- Parts of work may be grouped in any way. -/
instance : LawfulMonad Run :=
  LawfulMonad.mk' Run
    (by
      intro α run
      rcases run with ⟨found, halt | value⟩
      · rfl
      · change (⟨found ++ [], .ok value⟩ : Run α) = ⟨found, .ok value⟩
        rw [List.append_nil])
    (by
      intro α β value next
      rfl)
    (by
      intro α β γ run next last
      rcases run with ⟨found, halt | value⟩
      · rfl
      · change andThen (andThen ⟨found, .ok value⟩ next) last =
          andThen ⟨found, .ok value⟩ fun value => andThen (next value) last
        rcases hn : next value with ⟨found', halt | value'⟩
        · simp only [andThen, hn]
        · simp only [andThen, hn, List.append_assoc])

/-- Two runs one after the other succeed exactly if both do, the second with what the first gives. -/
lemma bind_result_eq_ok {run : Run α} {next : α → Run β} {value : β} :
    (run >>= next).result = .ok value ↔
      ∃ middle, run.result = .ok middle ∧ (next middle).result = .ok value := by
  rw [result_bind, bind_eq_ok]

/-- Two runs one after the other fail exactly if the first fails, or the second after it. -/
lemma bind_result_eq_error {run : Run α} {next : α → Run β} {halt : Halt} :
    (run >>= next).result = .error halt ↔
      run.result = .error halt ∨
        ∃ middle, run.result = .ok middle ∧ (next middle).result = .error halt := by
  rw [result_bind]
  cases run.result with
  | error reason => simp [bind, Except.bind]
  | ok middle => simp [bind, Except.bind]

/-- A run whose value is changed succeeds exactly if the run does. -/
lemma map_result_eq_ok {run : Run α} {change : α → β} {value : β} :
    (change <$> run).result = .ok value ↔ ∃ before, run.result = .ok before ∧ change before = value := by
  rw [map_eq_pure_bind, bind_result_eq_ok]
  simp

/-- Work that goes on without references finds those of its first part. -/
lemma found_bind_of_nil {run : Run α} {next : α → Run β} (h : ∀ value, (next value).found = []) :
    (run >>= next).found = run.found := by
  rcases run with ⟨found, halt | value⟩
  · rfl
  · change found ++ (next value).found = found
    rw [h, List.append_nil]

/-- Two runs one after the other do not run out of steps if neither does. -/
lemma bind_ne_outOfSteps {run : Run α} {next : α → Run β} (h : run.result ≠ .error .outOfSteps)
    (hn : ∀ value, run.result = .ok value → (next value).result ≠ .error .outOfSteps) :
    (run >>= next).result ≠ .error .outOfSteps := by
  intro e
  rcases bind_result_eq_error.1 e with first | ⟨value, hr, rest⟩
  · exact h first
  · exact hn value hr rest

/-- The result of a run for each value is made of the results of these runs. -/
lemma result_mapM {next : α → Run β} {values : List α} :
    (values.mapM next).result = values.mapM fun value => (next value).result := by
  induction values with
  | nil => rfl
  | cons value rest ih =>
    rw [List.mapM_cons, List.mapM_cons, result_bind]
    refine congrArg _ (funext fun first => ?_)
    rw [result_bind, ih]
    rfl

/-- Work on each of some values succeeds if it does for all of them. -/
theorem mapM_eq_ok {next : α → Run β} {values : List α} {results : List β} :
    (values.mapM next).result = .ok results ↔
      List.Forall₂ (fun value result => (next value).result = .ok result) values results := by
  rw [result_mapM, OpenApiManifest.mapM_eq_ok]

/-- Each of the results is that of the run for one of the values. -/
lemma exists_of_mem_mapM {next : α → Run β} {values : List α} {results : List β} {result : β}
    (h : (values.mapM next).result = .ok results) (hr : result ∈ results) :
    ∃ value ∈ values, (next value).result = .ok result :=
  exists_of_forall₂_right (mapM_eq_ok.1 h) hr

/-- Each of the values has its result. -/
lemma exists_of_mapM {next : α → Run β} {values : List α} {results : List β} {value : α}
    (h : (values.mapM next).result = .ok results) (hv : value ∈ values) :
    ∃ result ∈ results, (next value).result = .ok result :=
  exists_of_forall₂_left (mapM_eq_ok.1 h) hv

/-- Where the runs for several values fail, that for one of them does. -/
lemma exists_of_mapM_error {next : α → Run β} {values : List α} {halt : Halt}
    (h : (values.mapM next).result = .error halt) :
    ∃ value ∈ values, (next value).result = .error halt := by
  induction values with
  | nil => cases h
  | cons value rest ih =>
    rw [List.mapM_cons] at h
    rcases bind_result_eq_error.1 h with here | ⟨_, -, h⟩
    · exact ⟨value, List.mem_cons_self, here⟩
    · rcases bind_result_eq_error.1 h with there | ⟨_, -, last⟩
      · obtain ⟨other, ho, he⟩ := ih there
        exact ⟨other, List.mem_cons_of_mem _ ho, he⟩
      · cases last

/-- Work goes on the same way if it does so with what it goes on with. -/
lemma bind_congr {run : Run α} {next other : α → Run β}
    (h : ∀ value, run.result = .ok value → next value = other value) : run >>= next = run >>= other := by
  rcases run with ⟨found, halt | value⟩
  · rfl
  · change andThen ⟨found, .ok value⟩ next = andThen ⟨found, .ok value⟩ other
    simp only [andThen, h value rfl]

/-- Runs that are the same for each value are the same for all values together. -/
lemma mapM_congr {next other : α → Run β} {values : List α}
    (h : ∀ value ∈ values, next value = other value) : values.mapM next = values.mapM other := by
  induction values with
  | nil => rfl
  | cons value rest ih =>
    rw [List.mapM_cons, List.mapM_cons, h value List.mem_cons_self,
      ih fun other ho => h other (List.mem_cons_of_mem _ ho)]

/-- Runs that are the same for each value, whatever came before, are the same one after the other. -/
lemma foldlM_congr {next other : β → α → Run β} {values : List α} {first : β}
    (h : ∀ state, ∀ value ∈ values, next state value = other state value) :
    values.foldlM next first = values.foldlM other first := by
  induction values generalizing first with
  | nil => rfl
  | cons value rest ih =>
    rw [List.foldlM_cons, List.foldlM_cons, h first value List.mem_cons_self]
    exact congrArg _ (funext fun state =>
      ih fun state other ho => h state other (List.mem_cons_of_mem _ ho))

/-- Work that goes through some values keeps what it keeps for each of them. -/
theorem foldlM_keeps (keeps : β → Prop) {next : β → α → Run β} {values : List α} {first last : β}
    (start : keeps first)
    (step : ∀ before value after, value ∈ values → keeps before →
      (next before value).result = .ok after → keeps after)
    (h : (values.foldlM next first).result = .ok last) : keeps last := by
  induction values generalizing first with
  | nil =>
    obtain rfl := pure_eq_ok.1 h
    exact start
  | cons value rest ih =>
    rw [List.foldlM_cons] at h
    obtain ⟨middle, hm, h⟩ := bind_result_eq_ok.1 h
    refine ih (step _ _ _ List.mem_cons_self start hm) ?_ h
    exact fun before value after hv => step before value after (List.mem_cons_of_mem _ hv)

/-- Work that goes through some values grows by what is done for each of them, which lasts. -/
theorem foldlM_achieves (grows : β → β → Prop) (achieves : α → β → Prop) {next : β → α → Run β}
    {values : List α} {first last : β} (refl : ∀ state, grows state state)
    (trans : ∀ before middle after, grows before middle → grows middle after → grows before after)
    (lasts : ∀ value before after, grows before after → achieves value before → achieves value after)
    (step : ∀ before value after, value ∈ values → (next before value).result = .ok after →
      grows before after ∧ achieves value after)
    (h : (values.foldlM next first).result = .ok last) :
    grows first last ∧ ∀ value ∈ values, achieves value last := by
  induction values generalizing first with
  | nil =>
    obtain rfl := pure_eq_ok.1 h
    exact ⟨refl first, nofun⟩
  | cons value rest ih =>
    rw [List.foldlM_cons] at h
    obtain ⟨middle, hm, h⟩ := bind_result_eq_ok.1 h
    obtain ⟨grown, achieved⟩ := step _ _ _ List.mem_cons_self hm
    obtain ⟨more, others⟩ := ih
      (fun before value after hv => step before value after (List.mem_cons_of_mem _ hv)) h
    refine ⟨trans _ _ _ grown more, fun other ho => ?_⟩
    rcases List.mem_cons.1 ho with rfl | ho
    · exact lasts other _ _ more achieved
    · exact others other ho

/-- Work that goes through some values stops at one of them, after it has kept what it keeps. -/
theorem exists_of_foldlM_error (keeps : β → Prop) {next : β → α → Run β} {values : List α} {first : β}
    {halt : Halt} (start : keeps first)
    (step : ∀ before value after, value ∈ values → keeps before →
      (next before value).result = .ok after → keeps after)
    (h : (values.foldlM next first).result = .error halt) :
    ∃ before, keeps before ∧ ∃ value ∈ values, (next before value).result = .error halt := by
  induction values generalizing first with
  | nil => cases h
  | cons value rest ih =>
    rw [List.foldlM_cons] at h
    rcases bind_result_eq_error.1 h with here | ⟨middle, hm, there⟩
    · exact ⟨first, start, value, List.mem_cons_self, here⟩
    · have kept := step _ _ _ List.mem_cons_self start hm
      obtain ⟨before, hb, other, ho, he⟩ := ih kept
        (fun before value after hv => step before value after (List.mem_cons_of_mem _ hv)) there
      exact ⟨before, hb, other, List.mem_cons_of_mem _ ho, he⟩

/-- Work that goes through some values finds something for each of them, and what holds of all that was found
before and of the state holds after each step. -/
theorem exists_of_foldlM {δ : Type} (finds : α → δ → Prop) (holds : List δ → β → Prop)
    {next : β → α → Run β} {values : List α} {first last : β} (start : holds [] first)
    (step : ∀ found before value after, holds found before → (next before value).result = .ok after →
      ∃ own, finds value own ∧ holds (found ++ [own]) after)
    (h : (values.foldlM next first).result = .ok last) :
    ∃ found, List.Forall₂ finds values found ∧ holds found last := by
  have go : ∀ seen first, holds seen first → (values.foldlM next first).result = .ok last →
      ∃ found, List.Forall₂ finds values found ∧ holds (seen ++ found) last := by
    clear h start
    induction values with
    | nil =>
      intro seen first start h
      obtain rfl := pure_eq_ok.1 h
      exact ⟨[], .nil, (List.append_nil seen).symm ▸ start⟩
    | cons value rest ih =>
      intro seen first start h
      rw [List.foldlM_cons] at h
      obtain ⟨middle, hm, h⟩ := bind_result_eq_ok.1 h
      obtain ⟨own, hf, held⟩ := step _ _ _ _ start hm
      obtain ⟨others, ho, held⟩ := ih _ _ held h
      exact ⟨own :: others, .cons hf ho, List.append_cons seen own others ▸ held⟩
  exact go [] first start h

/-- Work that goes through some values and appends what it finds for each of them. -/
lemma exists_of_foldlM_appends {δ : Type} (finds : α → δ → Prop) (of : δ → List γ)
    {next : List γ → α → Run (List γ)} {values : List α} {first last : List γ}
    (step : ∀ before value after, (next before value).result = .ok after →
      ∃ found, finds value found ∧ after = before ++ of found)
    (h : (values.foldlM next first).result = .ok last) :
    ∃ found, List.Forall₂ finds values found ∧ last = first ++ found.flatMap of := by
  refine exists_of_foldlM finds (fun found last => last = first ++ found.flatMap of)
    (List.append_nil first).symm ?_ h
  rintro found _ value after rfl made
  obtain ⟨own, hf, rfl⟩ := step _ _ _ made
  refine ⟨own, hf, ?_⟩
  rw [List.flatMap_append, List.flatMap_singleton, List.append_assoc]

/-- Work that goes through some values and appends something for each of them. -/
lemma foldlM_appends (view : β → List γ) (of : α → γ) {next : β → α → Run β} {values : List α}
    {first last : β}
    (step : ∀ before value after, (next before value).result = .ok after →
      view after = view before ++ [of value])
    (h : (values.foldlM next first).result = .ok last) : view last = view first ++ values.map of := by
  induction values generalizing first with
  | nil =>
    obtain rfl := pure_eq_ok.1 h
    exact (List.append_nil _).symm
  | cons value rest ih =>
    rw [List.foldlM_cons] at h
    obtain ⟨middle, hm, h⟩ := bind_result_eq_ok.1 h
    rw [ih h, step _ _ _ hm, List.map_cons, List.append_assoc]
    rfl

end Run

end OpenApiManifest
