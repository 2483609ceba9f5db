import OpenApiManifest.Document.EffectiveParameter
import OpenApiManifest.Proofs.Runs

/-!
# Overridden parameters

The parameters that a call takes are those of its path, overridden by those of the operation, and then those
made from the body (`OperationEntry.effectiveParameters_eq`).  Location and name tell parameters apart.  The
last declaration of the operation takes the place of the first parameter of the path, or else stands where
the operation declares it first.  Declarations without a schema are left out before, so that they override
nothing.
-/

namespace OpenApiManifest

/-- What tells parameters apart: where they travel, and their names. -/
abbrev ParameterKey := ParameterLocation × String

namespace Parameter

def key (parameter : Parameter) : ParameterKey :=
  (parameter.location, parameter.name)

/-- The parameters that some positions resolve to. -/
def ResolveTo (document : Document) (slots : List (Slot Parameter)) (parameters : List Parameter) :
    Prop :=
  List.Forall₂ (fun slot parameter => (slot.resolve document).result = .ok parameter) slots parameters

/-- A declared parameter as one that a call takes, if it has a schema. -/
def effective? (parameter : Parameter) : Option EffectiveParameter :=
  parameter.schema.map parameter.effective

end Parameter

namespace EffectiveParameter

def key (parameter : EffectiveParameter) : ParameterKey :=
  (parameter.location, parameter.name)

/-- The parameters with a key, in order. -/
def withKey (key : ParameterKey) (parameters : List EffectiveParameter) : List EffectiveParameter :=
  parameters.filter fun parameter => decide (parameter.key = key)

/-- The last of the parameters with a key. -/
def last? (key : ParameterKey) (parameters : List EffectiveParameter) : Option EffectiveParameter :=
  (withKey key parameters).getLast?

variable {key : ParameterKey} {parameter first : EffectiveParameter}
  {parameters rest : List EffectiveParameter}

/-- Among no parameters there is none with a key. -/
@[simp] lemma withKey_nil (key : ParameterKey) : withKey key [] = [] := rfl

/-- The parameters with a key are the first one, if it has that key, and those of the rest. -/
lemma withKey_cons (key : ParameterKey) (first : EffectiveParameter) (rest : List EffectiveParameter) :
    withKey key (first :: rest) =
      if first.key = key then first :: withKey key rest else withKey key rest := by
  rw [withKey, List.filter_cons]
  exact if_congr decide_eq_true_iff rfl rfl

/-- No parameter has a key exactly if the key is none of theirs. -/
lemma withKey_eq_nil_iff : withKey key parameters = [] ↔ key ∉ parameters.map EffectiveParameter.key := by
  simp [withKey, List.filter_eq_nil_iff]

/-- A parameter replaces the first one, if that has its key, and else one of the rest. -/
lemma override_cons (parameter first : EffectiveParameter) (rest : List EffectiveParameter) :
    override parameter (first :: rest) =
      if first.key = parameter.key then parameter :: rest else first :: override parameter rest := by
  have same : first.location = parameter.location ∧ first.name = parameter.name ↔
      first.key = parameter.key := (Prod.ext_iff (x := first.key) (y := parameter.key)).symm
  rw [override]
  exact if_congr same rfl rfl

/-- What overrides is put in the place of the first of its key, if there is one. -/
lemma withKey_override (key : ParameterKey) (parameter : EffectiveParameter)
    (parameters : List EffectiveParameter) :
    withKey key (override parameter parameters) =
      if parameter.key = key then parameter :: (withKey key parameters).tail
      else withKey key parameters := by
  induction parameters with
  | nil => exact withKey_cons key parameter []
  | cons first rest ih =>
    rw [override_cons, withKey_cons key first]
    by_cases same : first.key = parameter.key
    · rw [if_pos same, withKey_cons, same]
      split
      · rfl
      · rfl
    · rw [if_neg same, withKey_cons, ih]
      by_cases own : parameter.key = key
      · rw [if_pos own, if_pos own, if_neg (own ▸ same), if_neg (own ▸ same)]
      · rw [if_neg own, if_neg own]

/-- What overrides adds no key that is there. -/
lemma keys_override (parameter : EffectiveParameter) (parameters : List EffectiveParameter) :
    (override parameter parameters).map EffectiveParameter.key =
      if parameter.key ∈ parameters.map EffectiveParameter.key then
        parameters.map EffectiveParameter.key
      else parameters.map EffectiveParameter.key ++ [parameter.key] := by
  induction parameters with
  | nil => rfl
  | cons first rest ih =>
    rw [override_cons, List.map_cons]
    by_cases same : first.key = parameter.key
    · rw [if_pos same, List.map_cons, same, if_pos List.mem_cons_self]
    · rw [if_neg same, List.map_cons, ih]
      by_cases known : parameter.key ∈ rest.map EffectiveParameter.key
      · rw [if_pos known, if_pos (List.mem_cons_of_mem _ known)]
      · have fresh : parameter.key ∉ first.key :: rest.map EffectiveParameter.key :=
          mt List.mem_cons.1 (not_or.2 ⟨Ne.symm same, known⟩)
        rw [if_neg known, if_neg fresh]
        rfl

/-- Some parameters, overridden one by one by others. -/
def overridden (own parameters : List EffectiveParameter) : List EffectiveParameter :=
  own.foldl (fun parameters parameter => override parameter parameters) parameters

/-- Of the parameters with a key that override, the last one stands in the place of the first one that is
overridden. -/
lemma withKey_overridden (key : ParameterKey) (own parameters : List EffectiveParameter) :
    withKey key (overridden own parameters) =
      match last? key own with
      | some last => last :: (withKey key parameters).tail
      | none => withKey key parameters := by
  induction own generalizing parameters with
  | nil => rfl
  | cons parameter rest ih =>
    rw [overridden, List.foldl_cons]
    change withKey key (overridden rest (override parameter parameters)) = _
    rw [ih, withKey_override, last?, last?, withKey_cons]
    by_cases same : parameter.key = key
    · rw [if_pos same, if_pos same, List.getLast?_cons]
      cases (withKey key rest).getLast? with
      | none => rfl
      | some last => rfl
    · rw [if_neg same, if_neg same]

/-- The keys of overridden parameters keep their places, and new keys follow in the order in which they first
occur. -/
lemma keys_overridden (own parameters : List EffectiveParameter) :
    (overridden own parameters).map EffectiveParameter.key =
      parameters.map EffectiveParameter.key ++ ((own.map EffectiveParameter.key).filter fun key =>
        decide (key ∉ parameters.map EffectiveParameter.key)).eraseDups := by
  induction own generalizing parameters with
  | nil => simp [overridden]
  | cons parameter rest ih =>
    rw [overridden, List.foldl_cons]
    change (overridden rest (override parameter parameters)).map _ = _
    rw [ih, keys_override, List.map_cons]
    by_cases known : parameter.key ∈ parameters.map EffectiveParameter.key
    · rw [if_pos known, List.filter_cons_of_neg (by simpa using known)]
    · rw [if_neg known, List.filter_cons_of_pos (by simpa using known), List.eraseDups_cons,
        List.filter_filter, List.append_assoc]
      refine congrArg _ (congrArg _ (congrArg _ (List.filter_congr fun key _ => ?_)))
      rw [Bool.eq_iff_iff]
      simp [and_comm]

variable {document : Document}

/-- The declared parameters that a call takes are those with a schema. -/
lemma exists_of_declared {slots : List (Slot Parameter)} {parameters : List EffectiveParameter}
    (h : (declared document slots).result = .ok parameters) :
    ∃ resolved, Parameter.ResolveTo document slots resolved ∧
      parameters = resolved.filterMap Parameter.effective? := by
  obtain ⟨resolved, each, e⟩ := Run.exists_of_foldlM_appends
    (fun slot parameter => (slot.resolve document).result = .ok parameter)
    (fun parameter : Parameter => parameter.effective?.toList) (fun before slot after step => by
      obtain ⟨parameter, hp, step⟩ := Run.bind_result_eq_ok.1 step
      refine ⟨parameter, hp, ?_⟩
      cases hs : parameter.schema with
      | none =>
        rw [hs] at step
        rw [Parameter.effective?, hs, ← pure_eq_ok.1 step]
        exact (List.append_nil _).symm
      | some schema =>
        rw [hs] at step
        rw [Parameter.effective?, hs, ← pure_eq_ok.1 step]
        rfl) h
  exact ⟨resolved, each, by rw [e, List.nil_append, List.filterMap_eq_flatMap_toList]⟩

/-- A declared parameter with a schema keeps its key. -/
lemma key_of_effective? {declared : Parameter} (h : declared.effective? = some parameter) :
    parameter.key = declared.key := by
  obtain ⟨schema, -, rfl⟩ := Option.map_eq_some_iff.1 h
  rfl

/-- Declared parameters are not made from a body. -/
lemma not_synthesized_of_effective? {declared : Parameter} (h : declared.effective? = some parameter) :
    parameter.synthesized = false := by
  obtain ⟨schema, -, rfl⟩ := Option.map_eq_some_iff.1 h
  rfl

/-- The parameters made from a body say so. -/
lemma synthesized_of_ofRequestBody {body : RequestBody} {parameters : List EffectiveParameter}
    (h : (ofRequestBody document body).result = .ok parameters) :
    ∀ parameter ∈ parameters, parameter.synthesized = true := by
  intro parameter hp
  unfold ofRequestBody at h
  split at h
  · split at h
    · rw [← pure_eq_ok.1 h] at hp
      cases hp
    · obtain ⟨schema, -, h⟩ := Run.bind_result_eq_ok.1 h
      obtain ⟨flattened, -, h⟩ := Run.bind_result_eq_ok.1 h
      obtain ⟨property, -, made⟩ := Run.exists_of_mem_mapM h hp
      obtain ⟨value, -, made⟩ := Run.bind_result_eq_ok.1 made
      rw [← pure_eq_ok.1 made]
  · rw [← pure_eq_ok.1 h] at hp
    obtain ⟨schema, -, rfl⟩ := Option.map_eq_some_iff.1 (Option.mem_toList.1 hp)
    rfl

end EffectiveParameter

/-- Some parameters, overridden by others.  Their keys keep their places, and new keys follow in the order in
which they first occur.  Of those with a key that override, the last one stands in the place of the first one
that is overridden. -/
structure EffectiveParameter.Overrides (own parameters merged : List EffectiveParameter) : Prop where
  keys : merged.map key = parameters.map key ++
    ((own.map key).filter fun key => decide (key ∉ parameters.map EffectiveParameter.key)).eraseDups
  withKey : ∀ key, withKey key merged =
    match last? key own with
    | some last => last :: (EffectiveParameter.withKey key parameters).tail
    | none => EffectiveParameter.withKey key parameters

namespace EffectiveParameter.Overrides

variable {own parameters merged : List EffectiveParameter} {parameter : EffectiveParameter}

/-- What overriding computes is what overriding means. -/
lemma of_overridden (own parameters : List EffectiveParameter) :
    Overrides own parameters (overridden own parameters) where
  keys := keys_overridden own parameters
  withKey key := withKey_overridden key own parameters

/-- Each parameter after overriding is one of the operation or one of its path. -/
lemma mem_or_mem (overrides : Overrides own parameters merged) (h : parameter ∈ merged) :
    parameter ∈ own ∨ parameter ∈ parameters := by
  have mem : parameter ∈ EffectiveParameter.withKey parameter.key merged :=
    List.mem_filter.2 ⟨h, decide_eq_true rfl⟩
  rw [overrides.withKey] at mem
  cases hl : last? parameter.key own with
  | none =>
    rw [hl] at mem
    exact .inr (List.mem_filter.1 mem).1
  | some last =>
    rw [hl] at mem
    rcases List.mem_cons.1 mem with rfl | mem
    · exact .inl (List.mem_filter.1 (List.mem_of_getLast? hl)).1
    · exact .inr (List.mem_filter.1 (List.mem_of_mem_tail mem)).1

/-- A parameter whose key nothing overrides is left. -/
lemma mem_of_left (overrides : Overrides own parameters merged) (h : parameter ∈ parameters)
    (left : parameter.key ∉ own.map EffectiveParameter.key) : parameter ∈ merged := by
  have mem : parameter ∈ EffectiveParameter.withKey parameter.key parameters :=
    List.mem_filter.2 ⟨h, decide_eq_true rfl⟩
  have unsaid : last? parameter.key own = none := by
    rw [last?, withKey_eq_nil_iff.2 left, List.getLast?_nil]
  have kept : EffectiveParameter.withKey parameter.key merged =
      EffectiveParameter.withKey parameter.key parameters := by rw [overrides.withKey, unsaid]
  rw [← kept] at mem
  exact (List.mem_filter.1 mem).1

/-- The last of the parameters with a key that override is all there is exactly if there is no more than that
to override. -/
lemma alone_iff (overrides : Overrides own parameters merged) (key : ParameterKey) :
    EffectiveParameter.withKey key merged = (last? key own).toList ↔
      (EffectiveParameter.withKey key parameters).length ≤ (last? key own).toList.length := by
  rw [overrides.withKey]
  cases last? key own with
  | none => exact List.length_eq_zero_iff.symm.trans Nat.le_zero.symm
  | some last =>
    cases EffectiveParameter.withKey key parameters with
    | nil => simp
    | cons first rest => simp

end EffectiveParameter.Overrides

/-- The parameters of an operation are made of those of its path, of its own, and of those of its body. -/
lemma OperationEntry.exists_of_effectiveParameters {document : Document} {entry : OperationEntry}
    {parameters : List EffectiveParameter}
    (h : (entry.effectiveParameters document).result = .ok parameters) :
    ∃ path own body, Parameter.ResolveTo document entry.item.parameters path ∧
      Parameter.ResolveTo document entry.operation.parameters own ∧
      (entry.operation.bodyParameters document).result = .ok body ∧
      parameters = EffectiveParameter.overridden (own.filterMap Parameter.effective?)
        (path.filterMap Parameter.effective?) ++ body := by
  obtain ⟨ofPath, hp, h⟩ := Run.bind_result_eq_ok.1 h
  obtain ⟨ofOperation, ho, h⟩ := Run.bind_result_eq_ok.1 h
  obtain ⟨body, hb, h⟩ := Run.bind_result_eq_ok.1 h
  obtain ⟨path, resolved, rfl⟩ := EffectiveParameter.exists_of_declared hp
  obtain ⟨own, resolved', rfl⟩ := EffectiveParameter.exists_of_declared ho
  exact ⟨path, own, body, resolved, resolved', hb, (pure_eq_ok.1 h).symm⟩

/-- What a call takes are the parameters of the path, overridden by those of the operation, and then those
made from the body.  Only declarations with a schema count.  So no more than the last word of the operation
is left of a key exactly if the path declares the key at most once, and not at all where the operation does
not declare it with a schema. -/
theorem OperationEntry.effectiveParameters_eq {document : Document} {entry : OperationEntry}
    {parameters : List EffectiveParameter}
    (h : (entry.effectiveParameters document).result = .ok parameters) :
    ∃ path own merged body,
      Parameter.ResolveTo document entry.item.parameters path ∧
      Parameter.ResolveTo document entry.operation.parameters own ∧
      (entry.operation.bodyParameters document).result = .ok body ∧
      parameters = merged ++ body ∧
      (∀ parameter ∈ merged, parameter.synthesized = false) ∧
      (∀ parameter ∈ body, parameter.synthesized = true) ∧
      EffectiveParameter.Overrides (own.filterMap Parameter.effective?)
        (path.filterMap Parameter.effective?) merged ∧
      ∀ key, EffectiveParameter.withKey key merged =
          (EffectiveParameter.last? key (own.filterMap Parameter.effective?)).toList ↔
        (EffectiveParameter.withKey key (path.filterMap Parameter.effective?)).length ≤
          (EffectiveParameter.last? key (own.filterMap Parameter.effective?)).toList.length := by
  obtain ⟨path, own, body, resolved, resolved', hb, e⟩ := exists_of_effectiveParameters h
  have overrides := EffectiveParameter.Overrides.of_overridden (own.filterMap Parameter.effective?)
    (path.filterMap Parameter.effective?)
  refine ⟨path, own, _, body, resolved, resolved', hb, e, fun parameter hm => ?_, fun parameter hm => ?_,
    overrides, overrides.alone_iff⟩
  · rcases overrides.mem_or_mem hm with hm | hm
    · obtain ⟨declared, -, made⟩ := List.mem_filterMap.1 hm
      exact EffectiveParameter.not_synthesized_of_effective? made
    · obtain ⟨declared, -, made⟩ := List.mem_filterMap.1 hm
      exact EffectiveParameter.not_synthesized_of_effective? made
  · unfold Operation.bodyParameters at hb
    split at hb
    · exact EffectiveParameter.synthesized_of_ofRequestBody hb parameter hm
    · rw [← pure_eq_ok.1 hb] at hm
      cases hm

/-- A description of a search.  Its operation says again what its path says of the order and the limit, of the
limit without a schema. -/
def searchTree : Json :=
  let query (name : String) (more : Entries Json) : Json :=
    .obj ([("name", .str name), ("in", .str "query")] ++ more)
  let typed (type : String) : Entries Json := [("schema", .obj [("type", .str type)])]
  let json (type : String) : Entries Json :=
    [("content", .obj [("application/json", .obj (typed type))])]
  .obj [
    ("openapi", .str "3.0.0"),
    ("info", .obj [("title", .str "Search"), ("version", .str "1")]),
    ("paths", .obj [("/search", .obj [
      ("parameters", .arr [query "order" (typed "string"), query "limit" (typed "integer")]),
      ("post", .obj [
        ("parameters", .arr [query "page" (typed "integer"), query "order" (typed "boolean"),
          query "limit" (json "integer")]),
        ("requestBody", .obj (json "string")),
        ("responses", .obj [])])])])]

/-- The operation of the search overrides the order, and adds the page and the body. -/
theorem OperationEntry.effectiveParameters_eq_search :
    ∃ document entry parameters, Document.read ⟨0⟩ searchTree = .ok document ∧
      entry ∈ document.operations ∧ (entry.effectiveParameters document).result = .ok parameters ∧
      parameters.map (fun parameter => (parameter.name,
          (parameter.schema.resolve document).result.toOption.map Schema.type?)) =
        [("order", some (some .boolean)), ("limit", some (some .integer)), ("page", some (some .integer)),
          ("body", some (some .string))] ∧
      ∃ own path merged body, parameters = merged ++ body ∧
        (∀ parameter ∈ merged, parameter.synthesized = false) ∧
        (∀ parameter ∈ body, parameter.synthesized = true) ∧
        EffectiveParameter.Overrides own path merged := by
  have run : ((Document.read ⟨0⟩ searchTree).toOption.bind fun document =>
      document.operations.head?.bind fun entry =>
        (entry.effectiveParameters document).result.toOption.map fun parameters =>
          parameters.map fun parameter => (parameter.name,
            (parameter.schema.resolve document).result.toOption.map Schema.type?)) =
      some [("order", some (some .boolean)), ("limit", some (some .integer)),
        ("page", some (some .integer)), ("body", some (some .string))] := by decide +kernel
  obtain ⟨document, read, run⟩ := Option.bind_eq_some_iff.1 run
  obtain ⟨entry, first, run⟩ := Option.bind_eq_some_iff.1 run
  obtain ⟨parameters, ok, run⟩ := Option.map_eq_some_iff.1 run
  have h := toOption_eq_some.1 ok
  obtain ⟨path, own, merged, body, -, -, -, e, declared, made, overrides, -⟩ := effectiveParameters_eq h
  exact ⟨document, entry, parameters, toOption_eq_some.1 read, List.mem_of_head? first, h, run, _, _,
    merged, body, e, declared, made, overrides⟩

/-- The limit of the path is left, though the operation declares a parameter of that location and name. -/
theorem OperationEntry.effectiveParameters_eq_limit :
    ∃ document entry parameters path own, Document.read ⟨0⟩ searchTree = .ok document ∧
      entry ∈ document.operations ∧ (entry.effectiveParameters document).result = .ok parameters ∧
      Parameter.ResolveTo document entry.item.parameters path ∧
      Parameter.ResolveTo document entry.operation.parameters own ∧
      ∃ declared ∈ path, declared.key ∈ own.map Parameter.key ∧
        ∃ parameter, declared.effective? = some parameter ∧ parameter ∈ parameters := by
  let resolve (document : Document) (slots : List (Slot Parameter)) : Option (List Parameter) :=
    (slots.mapM fun slot : Slot Parameter => slot.resolve document).result.toOption
  have run : ((Document.read ⟨0⟩ searchTree).toOption.bind fun document =>
      document.operations.head?.bind fun entry =>
        (entry.effectiveParameters document).result.toOption.bind fun _ =>
          (resolve document entry.item.parameters).bind fun path =>
            (resolve document entry.operation.parameters).map fun own =>
              ((path.filterMap Parameter.effective?).map EffectiveParameter.key, own.map Parameter.key,
                (own.filterMap Parameter.effective?).map EffectiveParameter.key)) =
      some ([(ParameterLocation.query, "order"), (.query, "limit")],
        [(.query, "page"), (.query, "order"), (.query, "limit")],
        [(.query, "page"), (.query, "order")]) := by decide +kernel
  obtain ⟨document, read, run⟩ := Option.bind_eq_some_iff.1 run
  obtain ⟨entry, first, run⟩ := Option.bind_eq_some_iff.1 run
  obtain ⟨parameters, ok, run⟩ := Option.bind_eq_some_iff.1 run
  have h := toOption_eq_some.1 ok
  obtain ⟨path, own, body, resolved, resolved', -, rfl⟩ := exists_of_effectiveParameters h
  have ofPath : resolve document entry.item.parameters = some path :=
    toOption_eq_some.2 (Run.mapM_eq_ok.2 resolved)
  have ofOperation : resolve document entry.operation.parameters = some own :=
    toOption_eq_some.2 (Run.mapM_eq_ok.2 resolved')
  rw [ofPath, Option.bind_some, ofOperation, Option.map_some, Option.some.injEq] at run
  obtain ⟨pathKeys, run⟩ := Prod.mk.inj run
  obtain ⟨ownKeys, overriding⟩ := Prod.mk.inj run
  have limit : (ParameterLocation.query, "limit") ∈
      (path.filterMap Parameter.effective?).map EffectiveParameter.key := by rw [pathKeys]; decide
  obtain ⟨parameter, mem, key⟩ := List.mem_map.1 limit
  obtain ⟨declared, hd, made⟩ := List.mem_filterMap.1 mem
  have left : parameter.key ∉ (own.filterMap Parameter.effective?).map EffectiveParameter.key := by
    rw [key, overriding]
    decide
  refine ⟨document, entry, _, path, own, toOption_eq_some.1 read, List.mem_of_head? first, h, resolved,
    resolved', declared, hd, ?_, parameter, made, ?_⟩
  · rw [← EffectiveParameter.key_of_effective? made, key, ownKeys]
    decide
  · exact List.mem_append_left _ ((EffectiveParameter.Overrides.of_overridden _ _).mem_of_left mem left)

end OpenApiManifest
