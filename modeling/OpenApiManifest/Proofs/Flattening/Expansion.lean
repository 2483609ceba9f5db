import OpenApiManifest.Proofs.Flattening

/-!
# What compositions expand to

Members expand to objects in the order in which these are declared (`Schema.Expands`).  Where a member is a
composition its own members stand in its place, and a member of a name that is being expanded is passed
over.  Flattening adds up the objects to which a schema expands (`Flattened.SumsUp`,
`Schema.exists_expands_of_flatten`).
-/

namespace OpenApiManifest

namespace Entries

variable {α : Type}

/-- The value of the last entry under a key. -/
def last? (key : String) (entries : Entries α) : Option α :=
  get? key entries.reverse

/-- The last entry under a key is the one that is added, if it has that key. -/
lemma last?_append_singleton (key other : String) (value : α) (entries : Entries α) :
    last? other (entries ++ [(key, value)]) = if key = other then some value else last? other entries := by
  rw [last?, List.reverse_append]
  rfl

/-- There is no last entry under a key exactly if the key is not there. -/
lemma last?_eq_none_iff {key : String} {entries : Entries α} :
    last? key entries = none ↔ key ∉ keys entries := by
  rw [last?, get?_eq_none_iff, keys, keys, List.map_reverse, List.mem_reverse]

/-- The keys of some entries and more are those of both, in order. -/
lemma keys_append (entries more : Entries α) : keys (entries ++ more) = keys entries ++ keys more :=
  List.map_append

end Entries

/-- What is said about additional properties, unless nothing is. -/
def AdditionalProperties.declared? {σ : Type} : AdditionalProperties σ → Option (AdditionalProperties σ)
  | .absent => none
  | .allowed value => some (.allowed value)
  | .schema slot => some (.schema slot)

namespace Flattened

/-- An object to which members are expanded, with the named schema on behalf of which it declares its
properties. -/
structure Part where
  owner : Option String
  properties : Entries SchemaSlot
  required : List String
  additional : AdditionalProperties SchemaSlot

/-- The properties that an object declares, each with its schema and the owner. -/
def Part.declarations (part : Part) : Entries (SchemaSlot × Option String) :=
  part.properties.map fun property => (property.1, property.2, part.owner)

/-- A part declares its properties. -/
lemma Part.keys_declarations (part : Part) : part.declarations.keys = part.properties.keys := by
  rw [Entries.keys, Entries.keys, declarations, List.map_map]
  rfl

/-- What an object declares last of a property is on behalf of the owner. -/
lemma Part.last?_bind (part : Part) (property : String) :
    (part.declarations.last? property).bind Prod.snd =
      if property ∈ part.properties.keys then part.owner else none := by
  rw [← part.keys_declarations]
  cases hl : part.declarations.last? property with
  | none =>
    rw [if_neg (Entries.last?_eq_none_iff.1 hl)]
    rfl
  | some declared =>
    have mem := List.mem_reverse.1 (Entries.mem_of_get? hl)
    have key : property ∈ part.declarations.keys := List.mem_map.2 ⟨_, mem, rfl⟩
    rw [if_pos key]
    obtain ⟨entry, -, e⟩ := List.mem_map.1 mem
    cases e
    rfl

/-- Adds an object to what was merged before. -/
def add (flattened : Flattened) (part : Part) : Flattened :=
  flattened.addObject part.owner part.properties part.required part.additional

end Flattened

/-- The objects to which members are expanded on behalf of an owner, in the order in which they are
declared.  A member is passed over if its name is among those that are being expanded. -/
inductive Schema.Expands (document : Document) :
    List String → Option String → List SchemaSlot → List Flattened.Part → Prop
  | nil {expanding : List String} {owner : Option String} : Expands document expanding owner [] []
  | cut {expanding : List String} {owner : Option String} {slot : SchemaSlot} {rest : List SchemaSlot}
    {parts : List Flattened.Part} {member : Schema} {name : String} :
    (slot.resolve document).result = .ok member → member.name? = some name → name ∈ expanding →
      Expands document expanding owner rest parts →
      Expands document expanding owner (slot :: rest) parts
  | object {expanding : List String} {owner : Option String} {slot : SchemaSlot} {rest : List SchemaSlot}
    {parts : List Flattened.Part} {member : Schema} {properties : Entries SchemaSlot}
    {required : List String} {additional : AdditionalProperties SchemaSlot} :
    (slot.resolve document).result = .ok member → (∀ name ∈ member.name?, name ∉ expanding) →
      member.kind = .object properties required additional →
      Expands document expanding owner rest parts →
      Expands document expanding owner (slot :: rest)
        (⟨member.name?.or owner, properties, required, additional⟩ :: parts)
  | allOf {expanding : List String} {owner : Option String} {slot : SchemaSlot}
    {members rest : List SchemaSlot} {inside parts : List Flattened.Part} {member : Schema} :
    (slot.resolve document).result = .ok member → (∀ name ∈ member.name?, name ∉ expanding) →
      member.kind = .allOf members →
      Expands document (member.name?.toList ++ expanding) (member.name?.or owner) members inside →
      Expands document expanding owner rest parts →
      Expands document expanding owner (slot :: rest) (inside ++ parts)
  | other {expanding : List String} {owner : Option String} {slot : SchemaSlot} {rest : List SchemaSlot}
    {parts : List Flattened.Part} {member : Schema} :
    (slot.resolve document).result = .ok member → (∀ name ∈ member.name?, name ∉ expanding) →
      member.tag ≠ .object → member.tag ≠ .allOf → Expands document expanding owner rest parts →
      Expands document expanding owner (slot :: rest) parts

namespace Schema.Expands

variable {document : Document} {expanding : List String} {owner : Option String} {slot : SchemaSlot}
  {slots : List SchemaSlot} {parts : List Flattened.Part}

/-- Members expand to the same objects always. -/
lemma unique {others : List Flattened.Part} (h : Expands document expanding owner slots parts)
    (h' : Expands document expanding owner slots others) : parts = others := by
  -- By induction on the first expansion.  Different rules never apply to the same schema: its name is being
  -- expanded or it is not, and it has one kind.
  induction h generalizing others with
  | nil =>
    cases h'
    rfl
  | cut hr hn mem _ ih =>
    cases h' with
    | cut _ _ _ rest => exact ih rest
    | object hr' fresh _ _ | allOf hr' fresh _ _ _ | other hr' fresh _ _ _ =>
      obtain rfl := Except.ok.inj (hr.symm.trans hr')
      exact absurd mem (fresh _ hn)
  | object hr fresh hk _ ih =>
    cases h' with
    | cut hr' hn mem _ =>
      obtain rfl := Except.ok.inj (hr.symm.trans hr')
      exact absurd mem (fresh _ hn)
    | object hr' _ hk' rest =>
      obtain rfl := Except.ok.inj (hr.symm.trans hr')
      cases hk.symm.trans hk'
      rw [ih rest]
    | allOf hr' _ hk' _ _ =>
      obtain rfl := Except.ok.inj (hr.symm.trans hr')
      cases hk.symm.trans hk'
    | other hr' _ object _ _ =>
      obtain rfl := Except.ok.inj (hr.symm.trans hr')
      exact absurd (by rw [tag, hk]) object
  | allOf hr fresh hk _ _ inner ih =>
    cases h' with
    | cut hr' hn mem _ =>
      obtain rfl := Except.ok.inj (hr.symm.trans hr')
      exact absurd mem (fresh _ hn)
    | object hr' _ hk' _ =>
      obtain rfl := Except.ok.inj (hr.symm.trans hr')
      cases hk.symm.trans hk'
    | allOf hr' _ hk' inside rest =>
      obtain rfl := Except.ok.inj (hr.symm.trans hr')
      cases hk.symm.trans hk'
      rw [inner inside, ih rest]
    | other hr' _ _ allOf _ =>
      obtain rfl := Except.ok.inj (hr.symm.trans hr')
      exact absurd (by rw [tag, hk]) allOf
  | other hr fresh object allOf _ ih =>
    cases h' with
    | cut hr' hn mem _ =>
      obtain rfl := Except.ok.inj (hr.symm.trans hr')
      exact absurd mem (fresh _ hn)
    | object hr' _ hk' _ =>
      obtain rfl := Except.ok.inj (hr.symm.trans hr')
      exact absurd (by rw [tag, hk']) object
    | allOf hr' _ hk' _ _ =>
      obtain rfl := Except.ok.inj (hr.symm.trans hr')
      exact absurd (by rw [tag, hk']) allOf
    | other _ _ _ _ rest => exact ih rest

/-- The objects of a member come before those of the members after it. -/
lemma cons {more : List Flattened.Part} (h : Expands document expanding owner [slot] parts)
    (h' : Expands document expanding owner slots more) :
    Expands document expanding owner (slot :: slots) (parts ++ more) := by
  cases h with
  | cut hr hn mem last =>
    cases last
    exact .cut hr hn mem h'
  | object hr fresh hk last =>
    cases last
    exact .object hr fresh hk h'
  | allOf hr fresh hk inside last =>
    cases last
    rw [List.append_nil]
    exact .allOf hr fresh hk inside h'
  | other hr fresh object allOf last =>
    cases last
    exact .other hr fresh object allOf h'

end Schema.Expands

namespace Flattened

variable {document : Document} {expanding : List String} {owner : Option String}
  {merged flattened : Flattened}

/-- Merges what stands at the position of a member, unless its name is being expanded. -/
def mergeSlot (document : Document) (steps : Nat) (expanding : List String) (owner : Option String)
    (merged : Flattened) (slot : SchemaSlot) : Run Flattened := do
  let member ← slot.resolve document
  match member.name? with
  | none => merge document steps expanding owner member merged
  | some name =>
    if name ∈ expanding then return merged
    else merge document steps (name :: expanding) (some name) member merged

/-- With one more step, a composition is merged member by member, an object is added, and any other schema
adds nothing. -/
lemma merge_succ (steps : Nat) (schema : Schema) :
    merge document (steps + 1) expanding owner schema merged =
      match schema.kind with
      | .allOf members => members.foldlM (mergeSlot document steps expanding owner) merged
      | .object properties required additional =>
        return merged.addObject owner properties required additional
      | _ => return merged := rfl

/-- A member is passed over, or it is merged while its name is expanded. -/
lemma mergeSlot_of_resolve {steps : Nat} {slot : SchemaSlot} {member : Schema}
    (hm : (slot.resolve document).result = .ok member) :
    (∃ name, member.name? = some name ∧ name ∈ expanding ∧
      (mergeSlot document steps expanding owner merged slot).result = .ok merged) ∨
    (∀ name ∈ member.name?, name ∉ expanding) ∧
      (mergeSlot document steps expanding owner merged slot).result =
        (merge document steps (member.name?.toList ++ expanding) (member.name?.or owner) member
          merged).result := by
  have opened : (mergeSlot document steps expanding owner merged slot).result =
      (match member.name? with
        | none => merge document steps expanding owner member merged
        | some name =>
          if name ∈ expanding then pure merged
          else merge document steps (name :: expanding) (some name) member merged).result := by
    rw [mergeSlot, Run.result_bind, hm]
    rfl
  rw [opened]
  cases member.name? with
  | none => exact .inr ⟨nofun, rfl⟩
  | some name =>
    dsimp only
    by_cases mem : name ∈ expanding
    · rw [if_pos mem]
      exact .inl ⟨name, rfl, mem, rfl⟩
    · rw [if_neg mem]
      refine .inr ⟨?_, rfl⟩
      rintro _ ⟨⟩
      exact mem

/-- What is merged of members, if that succeeds, are the objects to which they are expanded. -/
lemma exists_expands_of_foldlM {steps : Nat}
    (each : ∀ {slot : SchemaSlot} {merged flattened : Flattened},
      (mergeSlot document steps expanding owner merged slot).result = .ok flattened →
      ∃ parts, Schema.Expands document expanding owner [slot] parts ∧
        flattened = parts.foldl add merged) {slots : List SchemaSlot}
    (h : (slots.foldlM (mergeSlot document steps expanding owner) merged).result = .ok flattened) :
    ∃ parts, Schema.Expands document expanding owner slots parts ∧ flattened = parts.foldl add merged := by
  induction slots generalizing merged with
  | nil =>
    obtain rfl := pure_eq_ok.1 h
    exact ⟨[], .nil, rfl⟩
  | cons slot rest ih =>
    rw [List.foldlM_cons] at h
    obtain ⟨middle, hm, h⟩ := Run.bind_result_eq_ok.1 h
    obtain ⟨parts, first, rfl⟩ := each hm
    obtain ⟨more, others, rfl⟩ := ih h
    exact ⟨parts ++ more, first.cons others, (List.foldl_append ..).symm⟩

/-- What is merged of a member, if that succeeds, are the objects to which it is expanded. -/
lemma exists_expands_of_merge {steps : Nat} {slot : SchemaSlot} {member : Schema}
    (hm : (slot.resolve document).result = .ok member) (fresh : ∀ name ∈ member.name?, name ∉ expanding)
    (h : (merge document steps (member.name?.toList ++ expanding) (member.name?.or owner) member
      merged).result = .ok flattened) :
    ∃ parts, Schema.Expands document expanding owner [slot] parts ∧
      flattened = parts.foldl add merged := by
  -- By induction on the steps, of which every composition on the way takes one.
  induction steps generalizing expanding owner merged flattened slot member with
  | zero => cases h
  | succ steps ih =>
    rw [merge_succ] at h
    cases hk : member.kind with
    | allOf members =>
      rw [hk] at h
      have each : ∀ {slot : SchemaSlot} {merged flattened : Flattened},
          (mergeSlot document steps (member.name?.toList ++ expanding) (member.name?.or owner) merged
            slot).result = .ok flattened →
          ∃ parts, Schema.Expands document (member.name?.toList ++ expanding) (member.name?.or owner)
            [slot] parts ∧ flattened = parts.foldl add merged := by
        intro slot merged flattened h
        obtain ⟨inner, hi, -⟩ := Run.bind_result_eq_ok.1 h
        rcases mergeSlot_of_resolve hi with ⟨name, hn, mem, passed⟩ | ⟨fresh, merges⟩
        · obtain rfl := Except.ok.inj (passed.symm.trans h)
          exact ⟨[], .cut hi hn mem .nil, rfl⟩
        · exact ih hi fresh (merges.symm.trans h)
      obtain ⟨inside, expands, rfl⟩ := exists_expands_of_foldlM each h
      exact ⟨inside ++ [], .allOf hm fresh hk expands .nil, by rw [List.append_nil]⟩
    | object properties required additional =>
      rw [hk] at h
      cases h
      exact ⟨[_], .object hm fresh hk .nil, rfl⟩
    | _ =>
      rw [hk] at h
      cases h
      exact ⟨[], .other hm fresh (by simp [Schema.tag, hk]) (by simp [Schema.tag, hk]) .nil, rfl⟩

/-- Merged properties that follow from their declarations: keys stand where they occur first, and the last
declaration of a property settles its schema and its owner. -/
structure Declares (declarations : Entries (SchemaSlot × Option String)) (flattened : Flattened) :
    Prop where
  keys : flattened.properties.keys = OrderedSet.ofList declarations.keys
  property (name : String) :
    Entries.get? name flattened.properties = (declarations.last? name).map Prod.fst
  declaring (name : String) : flattened.declaring? name = (declarations.last? name).bind Prod.snd

/-- Merged properties that sum up objects: beside what these declare, required names stand where they occur
first, and the first word on additional properties counts. -/
structure SumsUp (parts : List Part) (flattened : Flattened) : Prop
    extends Declares (parts.flatMap Part.declarations) flattened where
  required : flattened.required = OrderedSet.ofList (parts.flatMap Part.required)
  additional : flattened.additional = parts.findSome? fun part => part.additional.declared?

/-- Adding a property adds its declaration. -/
lemma Declares.addProperty {declarations : Entries (SchemaSlot × Option String)}
    (h : Declares declarations flattened) (property : String × SchemaSlot) :
    Declares (declarations ++ [(property.1, property.2, owner)])
      (addProperty owner flattened property) where
  keys := by
    change (Entries.put property.1 property.2 flattened.properties).keys = _
    rw [Entries.keys_put, h.keys, Entries.keys_append, OrderedSet.ofList_append]
    rfl
  property name := by
    change Entries.get? name (Entries.put property.1 property.2 flattened.properties) = _
    rw [Entries.get?_put, h.property, Entries.last?_append_singleton]
    split <;> rfl
  declaring name := by
    rw [declaring?_addProperty, h.declaring, Entries.last?_append_singleton]
    split <;> rfl

/-- Properties are added as they are declared, and nothing but them. -/
lemma foldl_addProperty {declarations : Entries (SchemaSlot × Option String)}
    (h : Declares declarations flattened) (properties : Entries SchemaSlot) :
    Declares (declarations ++ properties.map fun property => (property.1, property.2, owner))
        (properties.foldl (addProperty owner) flattened) ∧
      (properties.foldl (addProperty owner) flattened).required = flattened.required ∧
      (properties.foldl (addProperty owner) flattened).additional = flattened.additional := by
  induction properties generalizing flattened declarations with
  | nil => exact ⟨by rwa [List.map_nil, List.append_nil], rfl, rfl⟩
  | cons property rest ih =>
    have first : Declares _ (addProperty owner flattened property) := h.addProperty property
    obtain ⟨declares, required, additional⟩ := ih first
    refine ⟨?_, required, additional⟩
    rwa [List.append_assoc] at declares

/-- Properties with new names are added at the end. -/
lemma properties_foldl_addProperty {properties : Entries SchemaSlot}
    (distinct : (flattened.properties ++ properties).keys.Nodup) :
    (properties.foldl (addProperty owner) flattened).properties = flattened.properties ++ properties := by
  induction properties generalizing flattened with
  | nil => exact (List.append_nil _).symm
  | cons property rest ih =>
    have absent : property.1 ∉ flattened.properties.keys := by
      intro mem
      rw [Entries.keys_append] at distinct
      exact (List.nodup_append.1 distinct).2.2 _ mem _ List.mem_cons_self rfl
    have added : (addProperty owner flattened property).properties =
        flattened.properties ++ [property] := Entries.put_of_not_mem absent
    rw [List.append_cons, ← added] at distinct ⊢
    exact ih distinct

/-- What is empty sums up no parts. -/
lemma SumsUp.empty : SumsUp [] empty where
  keys := rfl
  property _ := rfl
  declaring _ := rfl
  required := rfl
  additional := rfl

/-- Adding an object sums it up with those before. -/
lemma SumsUp.add {parts : List Part} (h : SumsUp parts flattened) (part : Part) :
    SumsUp (parts ++ [part]) (flattened.add part) := by
  obtain ⟨declares, required, additional⟩ : Declares (parts.flatMap Part.declarations ++ part.declarations)
      (part.properties.foldl (addProperty part.owner) flattened) ∧ _ :=
    foldl_addProperty h.toDeclares part.properties
  have declared : (parts ++ [part]).flatMap Part.declarations =
      parts.flatMap Part.declarations ++ part.declarations := by
    rw [List.flatMap_append, List.flatMap_singleton]
  refine ⟨?_, ?_, ?_⟩
  · rw [declared]
    exact ⟨declares.keys, declares.property, declares.declaring⟩
  · change OrderedSet.addAll part.required _ = _
    rw [required, h.required, List.flatMap_append, List.flatMap_singleton, OrderedSet.ofList_append]
  · unfold Flattened.add addObject
    dsimp only
    rw [additional, h.additional, List.findSome?_append, List.findSome?_singleton]
    cases parts.findSome? fun part => part.additional.declared? with
    | some first => rfl
    | none => cases part.additional <;> rfl

/-- What is added object by object sums the objects up. -/
theorem sumsUp_foldl (parts : List Part) : SumsUp parts (parts.foldl Flattened.add empty) := by
  induction parts using List.reverseRecOn with
  | nil => exact .empty
  | append_singleton parts part ih =>
    rw [List.foldl_append]
    exact ih.add part

end Flattened

/-- A schema that is flattened sums up the objects to which it expands. -/
theorem Schema.exists_expands_of_flatten {document : Document} {schema : Schema} {flattened : Flattened}
    (h : (schema.flatten document).result = .ok flattened) :
    ∃ parts, Expands document [] none [.owned schema] parts ∧ flattened.SumsUp parts := by
  have merged : (Flattened.merge document (document.steps schema.size) (schema.name?.toList ++ [])
      (schema.name?.or none) schema .empty).result = .ok flattened := by
    rwa [List.append_nil, Option.or_none]
  have itself : ((Slot.owned schema).resolve document).result = .ok schema := rfl
  obtain ⟨parts, expands, rfl⟩ :=
    Flattened.exists_expands_of_merge itself (fun _ _ => List.not_mem_nil) merged
  exact ⟨parts, expands, Flattened.sumsUp_foldl parts⟩

/-- A plain object flattens to itself, on behalf of its own name. -/
theorem Schema.flatten_of_object (document : Document) {schema : Schema}
    {properties : Entries SchemaSlot} {required : List String}
    {additional : AdditionalProperties SchemaSlot} (distinct : properties.keys.Nodup)
    (hk : schema.kind = .object properties required additional) :
    ∃ flattened, (schema.flatten document).result = .ok flattened ∧ flattened.properties = properties ∧
      flattened.additional = additional.declared? ∧
      ∀ property, flattened.declaring? property =
        if property ∈ properties.keys then schema.name? else none := by
  let part : Flattened.Part := ⟨schema.name?, properties, required, additional⟩
  have sums : Flattened.SumsUp [part] (Flattened.empty.add part) := Flattened.sumsUp_foldl [part]
  refine ⟨Flattened.empty.add part, ?_, Flattened.properties_foldl_addProperty distinct, ?_,
    fun property => ?_⟩
  · have pos : 0 < document.steps schema.size :=
      Nat.mul_pos (Nat.mul_pos (Nat.succ_pos 3) (Nat.succ_pos _)) (Nat.succ_pos _)
    obtain ⟨steps, hs⟩ := Nat.exists_eq_succ_of_ne_zero (Nat.ne_of_gt pos)
    rw [flatten, hs, Flattened.merge_succ, hk]
    rfl
  · rw [sums.additional, List.findSome?_singleton]
  · rw [sums.declaring, List.flatMap_singleton]
    exact part.last?_bind property

end OpenApiManifest
