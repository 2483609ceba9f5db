import OpenApiManifest.Proofs.Runs
import OpenApiManifest.Types.Mapper

/-!
# The models that a type mentions

The type of a schema has a form (`Mapper.form`): a model, the type of something else, or a container of
such types.  A type that is computed names a model exactly if its form comes down to that model
(`Mapper.mem_models_iff`), and then it is settled which schema the name stands for
(`Mapper.Mentions`).
-/

namespace OpenApiManifest

/-- What the type of a schema is made of. -/
inductive TypeForm where
  /-- The schema itself, as a model. -/
  | model (name : String) (model : Registered)
  /-- The type of the only member of a composition. -/
  | only (member : SchemaSlot)
  /-- A type without schemas in it. -/
  | plain (type : TypeRef)
  | list (items : SchemaSlot) (candidate : Option String)
  | map (value : SchemaSlot)
  | union (members : List SchemaSlot)

/-- What the type of a schema without a model is made of. -/
def Schema.spelledForm (schema : Schema) (candidate : Option String) : TypeForm :=
  match schema.kind with
  | .primitive type _ => .plain (.ofScalar (type.map PrimitiveType.type) schema.info.format)
  | .enum _ | .anyOf _ => .plain (.ofScalar schema.type? schema.info.format)
  | .array items _ _ => .list items ((schema.name?.map Naming.itemName).or candidate)
  | .object _ _ additional =>
    match additional.slot? with
    | some value => .map value
    | none => .plain .anyMap
  | .oneOf members => .union members
  | .allOf _ => .plain .anyMap

namespace TypeRef

/-- A type names a model: it is the model, or it is made of a type that names it. -/
inductive Names (name : String) : TypeRef → Prop
  | model : Names name (.model name)
  | list {items : TypeRef} : Names name items → Names name (.list items)
  | map {values : TypeRef} : Names name values → Names name (.map values)
  | union {members : List TypeRef} {member : TypeRef} :
    member ∈ members → Names name member → Names name (.union members)
  | nullable {type : TypeRef} : Names name type → Names name (.nullable type)

/-- The models of some types are those of each of them. -/
lemma mem_modelsOfAll {name : String} {types : List TypeRef} :
    name ∈ modelsOfAll types ↔ ∃ type ∈ types, name ∈ type.models := by
  induction types with
  | nil => simp [modelsOfAll]
  | cons type rest ih => simp [modelsOfAll, ih]

mutual
/-- A model that is gathered from a type is named in it. -/
lemma names_of_mem_models {name : String} : ∀ {type : TypeRef}, name ∈ type.models → type.Names name
  | .model _, h => by
    obtain rfl := List.mem_singleton.1 h
    exact .model
  | .list _, h => .list (names_of_mem_models h)
  | .map _, h => .map (names_of_mem_models h)
  | .nullable _, h => .nullable (names_of_mem_models h)
  | .union _, h => by
    obtain ⟨member, hm, named⟩ := names_of_mem_modelsOfAll h
    exact .union hm named
  | .int, h | .float, h | .text, h | .dateTime, h | .file, h | .uuid, h | .bool, h | .anyMap, h
  | .any, h => absurd h List.not_mem_nil

/-- A model that is gathered from some types is named in one of them. -/
lemma names_of_mem_modelsOfAll {name : String} :
    ∀ {types : List TypeRef}, name ∈ modelsOfAll types → ∃ type ∈ types, type.Names name
  | [], h => absurd h List.not_mem_nil
  | type :: rest, h => by
    rcases List.mem_append.1 h with own | other
    · exact ⟨type, List.mem_cons_self, names_of_mem_models own⟩
    · obtain ⟨type, ht, named⟩ := names_of_mem_modelsOfAll other
      exact ⟨type, List.mem_cons_of_mem _ ht, named⟩
end

/-- The models that are gathered from a type are those that it names. -/
theorem mem_models_iff_names {name : String} {type : TypeRef} : name ∈ type.models ↔ type.Names name := by
  refine ⟨names_of_mem_models, fun h => ?_⟩
  induction h with
  | model => exact List.mem_singleton_self name
  | list _ ih | map _ ih | nullable _ ih => exact ih
  | union hm _ ih => exact mem_modelsOfAll.2 ⟨_, hm, ih⟩

/-- The models that are gathered from some types are those that one of them names. -/
lemma mem_modelsOfAll_iff_names {name : String} {types : List TypeRef} :
    name ∈ modelsOfAll types ↔ ∃ type ∈ types, type.Names name := by
  simp only [mem_modelsOfAll, mem_models_iff_names]

/-- The models of a type are the same whether it admits null or not. -/
@[simp] lemma models_nullableIf (nullable : Bool) (type : TypeRef) :
    (type.nullableIf nullable).models = type.models := by
  unfold nullableIf
  split
  · rfl
  · rfl

/-- The type of a scalar names no models. -/
@[simp] lemma models_ofScalar (type : Option SchemaType) (format : Option String) :
    (ofScalar type format).models = [] := by
  unfold ofScalar
  split <;> try rfl
  split <;> rfl

end TypeRef

namespace Mapper

variable (mapper : Mapper)

/-- What the type of a schema is made of. -/
def form (schema : Schema) (candidate : Option String) : TypeForm :=
  if mapper.emits schema then .model (schema.name?.getD "") ⟨schema, .component⟩
  else
    match schema.onlyMember? with
    | some member => .only member
    | none =>
      match schema.name?, candidate, schema.wantsName with
      | none, some name, true => .model name ⟨schema, .synthetic⟩
      | _, _, _ => schema.spelledForm candidate

/-- The model of a member of a choice, if the member is one. -/
def memberModel? (member : Schema) : Option String :=
  match member.name? with
  | some name =>
    if member.type?.getD .object = .object ∨ name ∈ mapper.listModels then some name else none
  | none => none

/-- The type of a schema mentions a model: the schema that the name stands for, and how it got the
name. -/
inductive Mentions : Schema → Option String → String → Registered → Prop
  | model {schema : Schema} {candidate : Option String} {name : String} {model : Registered} :
    mapper.form schema candidate = .model name model → Mentions schema candidate name model
  | only {schema member : Schema} {slot : SchemaSlot} {candidate : Option String} {name : String}
    {model : Registered} :
    mapper.form schema candidate = .only slot →
      (slot.resolve mapper.document).result = .ok member → Mentions member candidate name model →
      Mentions schema candidate name model
  | items {schema items : Schema} {slot : SchemaSlot} {candidate inner : Option String}
    {name : String} {model : Registered} :
    mapper.form schema candidate = .list slot inner →
      (slot.resolve mapper.document).result = .ok items → Mentions items inner name model →
      Mentions schema candidate name model
  | values {schema value : Schema} {slot : SchemaSlot} {candidate : Option String} {name : String}
    {model : Registered} :
    mapper.form schema candidate = .map slot →
      (slot.resolve mapper.document).result = .ok value → Mentions value none name model →
      Mentions schema candidate name model
  | memberModel {schema member : Schema} {members : List SchemaSlot} {slot : SchemaSlot}
    {candidate : Option String} {name : String} :
    mapper.form schema candidate = .union members → slot ∈ members →
      (slot.resolve mapper.document).result = .ok member → mapper.memberModel? member = some name →
      Mentions schema candidate name ⟨member, .component⟩
  | member {schema member : Schema} {members : List SchemaSlot} {slot : SchemaSlot}
    {candidate : Option String} {name : String} {model : Registered} :
    mapper.form schema candidate = .union members → slot ∈ members →
      (slot.resolve mapper.document).result = .ok member → mapper.memberModel? member = none →
      Mentions member none name model → Mentions schema candidate name model

/-- The type of a schema by its form, where some steps are left for the types inside it. -/
def typeOfForm (steps : Nat) (candidate : Option String) : TypeForm → Run TypeRef
  | .model name _ => return .model name
  | .only member => do
    mapper.schemaType steps (← member.resolve mapper.document) candidate
  | .plain type => return type
  | .list items inner => return .list (← mapper.valueType steps items inner)
  | .map value => return .map (← mapper.valueType steps value none)
  | .union members => return .union ((← members.mapM (mapper.unionMember steps)).map UnionMember.type)

/-- The type of a schema follows from its form. -/
lemma schemaType_succ (steps : Nat) (schema : Schema) (candidate : Option String) :
    mapper.schemaType (steps + 1) schema candidate =
      mapper.typeOfForm steps candidate (mapper.form schema candidate) := by
  unfold schemaType form Schema.spelledForm
  split
  · rfl
  · cases schema.onlyMember? with
    | some member => rfl
    | none =>
      -- The name and the candidate decide first, and only then the kind.
      cases schema.name? <;> cases candidate <;> cases schema.wantsName <;> try rfl
      all_goals
        cases schema.kind with
        | object properties required additional => cases additional <;> rfl
        | _ => rfl

/-- A member of a choice is its model, or else its type. -/
lemma unionMember_succ (steps : Nat) (slot : SchemaSlot) :
    mapper.unionMember (steps + 1) slot = (do
      let member ← slot.resolve mapper.document
      match mapper.memberModel? member with
      | some name => return ⟨.model name, some name⟩
      | none => return ⟨← mapper.schemaType steps member none, none⟩) := by
  rw [unionMember]
  refine congrArg _ (funext fun member => ?_)
  unfold memberModel?
  cases member.name? with
  | none => rfl
  | some name =>
    dsimp only
    split
    · rfl
    · rfl

variable {mapper} {steps : Nat} {slot : SchemaSlot} {schema inside : Schema}
  {candidate inner : Option String} {name : String} {model : Registered} {type : TypeRef}

/-- A schema whose type is a model is emitted under its name, or nameless and takes the name for it. -/
lemma form_eq_model (hf : mapper.form schema candidate = .model name model) :
    (mapper.emits schema = true ∧ schema.name? = some name ∧ model = ⟨schema, .component⟩) ∨
      (schema.onlyMember? = none ∧ schema.name? = none ∧ candidate = some name ∧
        schema.wantsName = true ∧ model = ⟨schema, .synthetic⟩) := by
  unfold form at hf
  split at hf
  · rename_i emitted
    cases hf
    refine .inl ⟨emitted, ?_, rfl⟩
    cases hn : schema.name? with
    | some own => rfl
    | none =>
      rw [emits, hn] at emitted
      cases emitted
  · split at hf
    · cases hf
    · rename_i one
      split at hf
      · rename_i nameless wants
        cases hf
        exact .inr ⟨one, nameless, rfl, wants, rfl⟩
      · unfold Schema.spelledForm at hf
        repeat' split at hf
        all_goals cases hf

/-- A schema whose type is that of its only member is not emitted. -/
lemma form_eq_only (hf : mapper.form schema candidate = .only slot) :
    mapper.emits schema = false ∧ schema.kind = .allOf [slot] := by
  unfold form at hf
  split at hf
  · cases hf
  · rename_i emitted
    split at hf
    · rename_i own one
      cases hf
      refine ⟨Bool.eq_false_iff.2 emitted, ?_⟩
      unfold Schema.onlyMember? at one
      split at one
      · cases one
        assumption
      · cases one
    · split at hf
      · cases hf
      · unfold Schema.spelledForm at hf
        repeat' split at hf
        all_goals cases hf

/-- A schema whose type is spelled out is not emitted, and if it is nameless and wants a name there is
none for it. -/
lemma form_eq_spelled {form : TypeForm} (hf : mapper.form schema candidate = form)
    (models : ∀ name model, form ≠ .model name model) (only : ∀ slot, form ≠ .only slot) :
    mapper.emits schema = false ∧ schema.spelledForm candidate = form ∧
      (schema.name? = none → schema.wantsName = true → candidate = none) := by
  unfold Mapper.form at hf
  split at hf
  · exact absurd hf.symm (models _ _)
  · rename_i emitted
    split at hf
    · exact absurd hf.symm (only _)
    · split at hf
      · exact absurd hf.symm (models _ _)
      · rename_i spelled
        refine ⟨Bool.eq_false_iff.2 emitted, hf, fun nameless wants => ?_⟩
        exact Option.eq_none_iff_forall_ne_some.2 fun own e => spelled own nameless e wants

/-- A schema that is not emitted has no name, if it would be emitted under any name. -/
lemma name?_eq_none_of_not_emitted (emitted : mapper.emits schema = false)
    (always : ∀ name, schema.isEmitted mapper.listModels name = true) : schema.name? = none := by
  unfold emits at emitted
  split at emitted
  · rw [always] at emitted
    cases emitted
  · assumption

/-- A plain type names no models. -/
lemma models_of_form_plain (hf : mapper.form schema candidate = .plain type) : type.models = [] := by
  have spelled := (form_eq_spelled hf nofun nofun).2.1
  unfold Schema.spelledForm at spelled
  split at spelled
  · cases spelled
    exact TypeRef.models_ofScalar _ _
  · cases spelled
    exact TypeRef.models_ofScalar _ _
  · cases spelled
    exact TypeRef.models_ofScalar _ _
  · cases spelled
  · split at spelled
    · cases spelled
    · cases spelled
      rfl
  · cases spelled
  · cases spelled
    rfl

/-- A schema whose type is a list is an array, and its items take the name for them from the name of the
array. -/
lemma form_eq_list (hf : mapper.form schema candidate = .list slot inner) :
    (∃ least most, schema.kind = .array slot least most) ∧
      inner = (schema.name?.map Naming.itemName).or candidate := by
  have spelled := (form_eq_spelled hf nofun nofun).2.1
  unfold Schema.spelledForm at spelled
  split at spelled
  all_goals try split at spelled
  all_goals cases spelled
  rename_i hk
  exact ⟨⟨_, _, hk⟩, rfl⟩

/-- A map is made of a nameless object that is given no name, and of the values beside its properties. -/
lemma form_eq_map (hf : mapper.form schema candidate = .map slot) :
    schema.name? = none ∧ (schema.wantsName = true → candidate = none) ∧
      ∃ properties required additional, schema.kind = .object properties required additional ∧
        additional.slot? = some slot := by
  obtain ⟨emitted, spelled, free⟩ := form_eq_spelled hf nofun nofun
  unfold Schema.spelledForm at spelled
  cases hk : schema.kind with
  | object properties required additional =>
    rw [hk] at spelled
    dsimp only at spelled
    split at spelled
    · rename_i value hv
      cases spelled
      have nameless := name?_eq_none_of_not_emitted emitted fun name => by
        simp [Schema.isEmitted, hk]
      exact ⟨nameless, free nameless, properties, required, additional, rfl, hv⟩
    · cases spelled
  | _ =>
    rw [hk] at spelled
    cases spelled

/-- A schema whose type is a choice is nameless, and there is no name for it. -/
lemma form_eq_union {members : List SchemaSlot}
    (hf : mapper.form schema candidate = .union members) :
    schema.name? = none ∧ candidate = none ∧ schema.kind = .oneOf members := by
  obtain ⟨emitted, spelled, free⟩ := form_eq_spelled hf nofun nofun
  unfold Schema.spelledForm at spelled
  cases hk : schema.kind with
  | oneOf members =>
    rw [hk] at spelled
    cases spelled
    have nameless := name?_eq_none_of_not_emitted emitted fun name => by simp [Schema.isEmitted, hk]
    exact ⟨nameless, free nameless (by rw [Schema.wantsName, hk]), rfl⟩
  | object properties required additional =>
    rw [hk] at spelled
    dsimp only at spelled
    split at spelled
    · cases spelled
    · cases spelled
  | _ =>
    rw [hk] at spelled
    cases spelled

/-- A member of a choice that is a model has the name of the model. -/
lemma name?_of_memberModel (h : mapper.memberModel? schema = some name) :
    schema.name? = some name := by
  unfold memberModel? at h
  split at h
  · split at h
    · cases h
      assumption
    · cases h
  · cases h

/-- The type of a schema that is a model mentions this model only. -/
lemma mentions_model_iff {own : String} {registered : Registered}
    (hf : mapper.form schema candidate = .model own registered) :
    mapper.Mentions schema candidate name model ↔ name = own ∧ model = registered := by
  constructor
  · intro h
    rcases h with e | ⟨e, -, -⟩ | ⟨e, -, -⟩ | ⟨e, -, -⟩ | ⟨e, -, -, -⟩ | ⟨e, -, -, -, -⟩
    all_goals
      rw [hf] at e
      cases e
    exact ⟨rfl, rfl⟩
  · rintro ⟨rfl, rfl⟩
    exact .model hf

/-- The type of a composition of one member mentions what that of the member mentions. -/
lemma mentions_only_iff (hf : mapper.form schema candidate = .only slot)
    (hs : (slot.resolve mapper.document).result = .ok inside) :
    mapper.Mentions schema candidate name model ↔ mapper.Mentions inside candidate name model := by
  constructor
  · intro h
    rcases h with e | ⟨e, hs', h⟩ | ⟨e, -, -⟩ | ⟨e, -, -⟩ | ⟨e, -, -, -⟩ | ⟨e, -, -, -, -⟩
    all_goals
      rw [hf] at e
      cases e
    rw [hs] at hs'
    cases hs'
    exact h
  · exact .only hf hs

/-- The type of a list mentions what that of its items mentions. -/
lemma mentions_list_iff (hf : mapper.form schema candidate = .list slot inner)
    (hs : (slot.resolve mapper.document).result = .ok inside) :
    mapper.Mentions schema candidate name model ↔ mapper.Mentions inside inner name model := by
  constructor
  · intro h
    rcases h with e | ⟨e, -, -⟩ | ⟨e, hs', h⟩ | ⟨e, -, -⟩ | ⟨e, -, -, -⟩ | ⟨e, -, -, -, -⟩
    all_goals
      rw [hf] at e
      cases e
    rw [hs] at hs'
    cases hs'
    exact h
  · exact .items hf hs

/-- The type of a map mentions what that of its values mentions. -/
lemma mentions_map_iff (hf : mapper.form schema candidate = .map slot)
    (hs : (slot.resolve mapper.document).result = .ok inside) :
    mapper.Mentions schema candidate name model ↔ mapper.Mentions inside none name model := by
  constructor
  · intro h
    rcases h with e | ⟨e, -, -⟩ | ⟨e, -, -⟩ | ⟨e, hs', h⟩ | ⟨e, -, -, -⟩ | ⟨e, -, -, -, -⟩
    all_goals
      rw [hf] at e
      cases e
    rw [hs] at hs'
    cases hs'
    exact h
  · exact .values hf hs

/-- A plain type mentions nothing. -/
lemma not_mentions_of_plain (hf : mapper.form schema candidate = .plain type) :
    ¬ mapper.Mentions schema candidate name model := by
  intro h
  rcases h with e | ⟨e, -, -⟩ | ⟨e, -, -⟩ | ⟨e, -, -⟩ | ⟨e, -, -, -⟩ | ⟨e, -, -, -, -⟩
  all_goals
    rw [hf] at e
    cases e

/-- The type of a choice mentions the members that are models, and what the types of the others mention. -/
lemma mentions_union_iff {members : List SchemaSlot}
    (hf : mapper.form schema candidate = .union members) :
    mapper.Mentions schema candidate name model ↔
      ∃ slot ∈ members, ∃ member, (slot.resolve mapper.document).result = .ok member ∧
        match mapper.memberModel? member with
        | some own => name = own ∧ model = ⟨member, .component⟩
        | none => mapper.Mentions member none name model := by
  constructor
  · intro h
    rcases h with e | ⟨e, -, -⟩ | ⟨e, -, -⟩ | ⟨e, -, -⟩ | ⟨e, hm, hs, hn⟩ | ⟨e, hm, hs, hn, h⟩
    all_goals
      rw [hf] at e
      cases e
    · refine ⟨_, hm, _, hs, ?_⟩
      rw [hn]
      exact ⟨rfl, rfl⟩
    · refine ⟨_, hm, _, hs, ?_⟩
      rw [hn]
      exact h
  · rintro ⟨slot, hm, member, hs, h⟩
    cases hn : mapper.memberModel? member with
    | some own =>
      rw [hn] at h
      obtain ⟨rfl, rfl⟩ := h
      exact .memberModel hf hm hs hn
    | none =>
      rw [hn] at h
      exact .member hf hm hs hn h

/-- The type of items or values is that of the schema to which their position resolves. -/
lemma exists_of_valueType (h : (mapper.valueType steps slot candidate).result = .ok type) :
    ∃ fewer < steps, ∃ inside, (slot.resolve mapper.document).result = .ok inside ∧
      ∃ spelled, (mapper.schemaType fewer inside candidate).result = .ok spelled ∧
        type = spelled.nullableIf inside.info.nullable := by
  cases steps with
  | zero => cases h
  | succ steps =>
    rw [valueType] at h
    obtain ⟨inside, hs, h⟩ := Run.bind_result_eq_ok.1 h
    obtain ⟨spelled, ht, h⟩ := Run.bind_result_eq_ok.1 h
    cases h
    exact ⟨steps, Nat.lt_succ_self steps, inside, hs, spelled, ht, rfl⟩

/-- The type of a member of a choice is its model, or that of the schema to which its position
resolves. -/
lemma exists_of_unionMember {member : UnionMember}
    (h : (mapper.unionMember steps slot).result = .ok member) :
    ∃ fewer < steps, ∃ inside, (slot.resolve mapper.document).result = .ok inside ∧
      match mapper.memberModel? inside with
      | some own => member.type = .model own
      | none => (mapper.schemaType fewer inside none).result = .ok member.type := by
  cases steps with
  | zero => cases h
  | succ steps =>
    rw [unionMember_succ] at h
    obtain ⟨inside, hs, h⟩ := Run.bind_result_eq_ok.1 h
    refine ⟨steps, Nat.lt_succ_self steps, inside, hs, ?_⟩
    split at h
    · cases h
      rfl
    · obtain ⟨spelled, ht, h⟩ := Run.bind_result_eq_ok.1 h
      cases h
      exact ht

/-- A type that is computed names the models that it mentions. -/
theorem mem_models_iff (h : (mapper.schemaType steps schema candidate).result = .ok type) :
    name ∈ type.models ↔ ∃ model, mapper.Mentions schema candidate name model := by
  -- By induction on the steps, which the types inside may use up two at a time; the form is followed.
  induction steps using Nat.strongRecOn generalizing schema candidate type with
  | ind steps ih =>
    cases steps with
    | zero => cases h
    | succ steps =>
      rw [schemaType_succ] at h
      cases hf : mapper.form schema candidate with
      | model own registered =>
        rw [hf] at h
        cases h
        simp [mentions_model_iff hf, TypeRef.models]
      | only slot =>
        rw [hf] at h
        obtain ⟨inside, hs, h⟩ := Run.bind_result_eq_ok.1 h
        simp only [mentions_only_iff hf hs]
        exact ih steps (Nat.lt_succ_self steps) h
      | plain plain =>
        rw [hf] at h
        cases h
        simp [models_of_form_plain hf, not_mentions_of_plain hf]
      | list slot inner =>
        rw [hf] at h
        obtain ⟨items, hi, h⟩ := Run.bind_result_eq_ok.1 h
        cases h
        obtain ⟨fewer, lt, inside, hs, spelled, ht, rfl⟩ := exists_of_valueType hi
        simp only [mentions_list_iff hf hs, TypeRef.models, TypeRef.models_nullableIf]
        exact ih fewer (Nat.lt_succ_of_lt lt) ht
      | map slot =>
        rw [hf] at h
        obtain ⟨values, hv, h⟩ := Run.bind_result_eq_ok.1 h
        cases h
        obtain ⟨fewer, lt, inside, hs, spelled, ht, rfl⟩ := exists_of_valueType hv
        simp only [mentions_map_iff hf hs, TypeRef.models, TypeRef.models_nullableIf]
        exact ih fewer (Nat.lt_succ_of_lt lt) ht
      | union members =>
        rw [hf] at h
        obtain ⟨described, hd, h⟩ := Run.bind_result_eq_ok.1 h
        cases h
        simp only [mentions_union_iff hf, TypeRef.models, TypeRef.mem_modelsOfAll]
        constructor
        · rintro ⟨_, ht, hn⟩
          obtain ⟨member, hm, rfl⟩ := List.mem_map.1 ht
          obtain ⟨slot, hslot, hu⟩ := Run.exists_of_mem_mapM hd hm
          obtain ⟨fewer, lt, inside, hs, hu⟩ := exists_of_unionMember hu
          cases hk : mapper.memberModel? inside with
          | some own =>
            rw [hk] at hu
            rw [hu] at hn
            exact ⟨_, slot, hslot, inside, hs, by rw [hk]; exact ⟨List.mem_singleton.1 hn, rfl⟩⟩
          | none =>
            rw [hk] at hu
            obtain ⟨model, hn⟩ := (ih fewer (Nat.lt_succ_of_lt lt) hu).1 hn
            exact ⟨model, slot, hslot, inside, hs, by rw [hk]; exact hn⟩
        · rintro ⟨model, slot, hslot, inside, hs, hn⟩
          obtain ⟨member, hm, hu⟩ := Run.exists_of_mapM hd hslot
          refine ⟨member.type, List.mem_map.2 ⟨member, hm, rfl⟩, ?_⟩
          obtain ⟨fewer, lt, found, hs', hu⟩ := exists_of_unionMember hu
          obtain rfl : found = inside := Except.ok.inj (hs'.symm.trans hs)
          cases hk : mapper.memberModel? found with
          | some own =>
            rw [hk] at hu hn
            rw [hu, hn.1]
            exact List.mem_singleton_self own
          | none =>
            rw [hk] at hu hn
            exact (ih fewer (Nat.lt_succ_of_lt lt) hu).2 ⟨model, hn⟩

end Mapper

end OpenApiManifest
