import OpenApiManifest.Naming
import OpenApiManifest.Proofs.Reading.Pointers
import OpenApiManifest.Proofs.References.Chains

/-!
# Addresses of components

An entry of the components is referred to by the pointer of its section and its key, in which every tilde
is replaced first and then every slash; undoing the two replacements in the other order gives the key back
(`Pointer.unescapeInTurn_escapeInTurn`).  Whatever the key is, as long as it is not empty, this text is
read as a reference to the section and the key, and leads to the entry under the key and no other
(`Document.addresses_resolve`).
-/

namespace OpenApiManifest

namespace Naming

/-- A token of one character is replaced wherever it stands. -/
lemma replaceToken_singleton (t : Char) (replacement cs : List Char) :
    replaceToken [t] replacement 0 cs = cs.flatMap fun c => if c = t then replacement else [c] := by
  induction cs with
  | nil => rfl
  | cons c rest ih =>
    rw [replaceToken, List.flatMap_cons, ← ih]
    by_cases h : c = t
    · simp [h]
    · simp [h, Ne.symm h]

end Naming

namespace Pointer

open Naming

/-- Writes every tilde of a key as `~0`, and after that every slash as `~1`. -/
def escapeInTurn (cs : List Char) : List Char :=
  replaceToken ['/'] ['~', '1'] 0 (replaceToken ['~'] ['~', '0'] 0 cs)

/-- Puts a slash for every `~1`, and after that a tilde for every `~0`. -/
def unescapeInTurn (cs : List Char) : List Char :=
  replaceToken ['~', '0'] ['~'] 0 (replaceToken ['~', '1'] ['/'] 0 cs)

/-- The first replacement makes nothing that the second one finds. -/
lemma escapeInTurn_eq (cs : List Char) : escapeInTurn cs = escapeChars cs := by
  rw [escapeInTurn, replaceToken_singleton, replaceToken_singleton, List.flatMap_assoc, escapeChars]
  refine congrArg (List.flatMap · cs) (funext fun c => ?_)
  by_cases tilde : c = '~'
  · rw [tilde]
    rfl
  · rw [if_neg tilde, List.flatMap_singleton]
    by_cases slash : c = '/'
    · rw [slash]
      rfl
    · rw [if_neg slash]
      unfold escapeChar
      split
      · exact absurd rfl tilde
      · exact absurd rfl slash
      · rfl

/-- Putting slashes makes no `~0`: a zero comes first only where one came first before. -/
lemma head?_of_slashes {cs : List Char}
    (h : (replaceToken ['~', '1'] ['/'] 0 cs).head? = some '0') : cs.head? = some '0' := by
  cases cs with
  | nil => exact h
  | cons c rest =>
    rw [replaceToken] at h
    split at h
    · cases h
    · exact h

/-- Replacing one escape after the other is the same as replacing both in a single pass. -/
lemma unescapeInTurn_eq (cs : List Char) : unescapeInTurn cs = unescapeChars cs := by
  unfold unescapeInTurn
  induction cs using unescapeChars.induct with
  | case1 => rfl
  | case2 rest ih => exact congrArg ('~' :: ·) ih
  | case3 rest ih => exact congrArg ('/' :: ·) ih
  | case4 c rest zero one ih =>
    have first : ['~', '1'].isPrefixOf (c :: rest) = false := by
      refine Bool.eq_false_iff.2 fun found => ?_
      obtain ⟨more, e⟩ := List.isPrefixOf_iff_prefix.1 found
      cases e
      exact one _ rfl rfl
    have second : ['~', '0'].isPrefixOf (c :: replaceToken ['~', '1'] ['/'] 0 rest) = false := by
      refine Bool.eq_false_iff.2 fun found => ?_
      obtain ⟨more, e⟩ := List.isPrefixOf_iff_prefix.1 found
      obtain ⟨tilde, e⟩ := List.cons.inj e
      have head : rest.head? = some '0' := head?_of_slashes (by rw [← e]; rfl)
      obtain ⟨tail, rfl⟩ : ∃ tail, rest = '0' :: tail := by
        cases rest with
        | nil => cases head
        | cons d tail =>
          cases head
          exact ⟨tail, rfl⟩
      exact zero tail tilde.symm rfl
    rw [replaceToken_cons_of_not first, replaceToken_cons_of_not second, ih, unescapeChars]
    · exact zero
    · exact one

/-- Undoing the replacements in the other order gives the key back. -/
theorem unescapeInTurn_escapeInTurn (cs : List Char) : unescapeInTurn (escapeInTurn cs) = cs := by
  rw [escapeInTurn_eq, unescapeInTurn_eq, unescapeChars_escapeChars]

end Pointer

/-- The text that refers to the entry under a key of a section. -/
def ComponentSection.address (within : ComponentSection) (key : String) : String :=
  "#/components/" ++ within.key ++ "/" ++ String.ofList (Pointer.escapeInTurn key.toList)

/-- The address of an entry is made of its section and its key, which is escaped in turn. -/
lemma ComponentSection.address_def (within : ComponentSection) (key : String) :
    within.address key =
      "#/components/" ++ within.key ++ "/" ++ String.ofList (Pointer.escapeInTurn key.toList) := rfl

/-- The reference to the entry under a key of a section that stands at a place. -/
def ComponentSection.refersTo (within : ComponentSection) (key : String) (place : Place) : Reference :=
  ⟨within.address key, within.key, key, place⟩

/-- The address of an entry is the pointer to its key below that of the section. -/
lemma ComponentSection.address_eq (within : ComponentSection) (key : String) :
    within.address key = Pointer.child ("#/components/" ++ within.key) key := by
  rw [address_def, Pointer.escapeInTurn_eq, Pointer.child, Pointer.escape]

/-- The pointer of a schema with a name is its address. -/
lemma ComponentSection.address_schemas (name : String) :
    schemas.address name = Pointer.ofSteps ["components", "schemas", name] := by
  have front : "#/components/" ++ schemas.key ++ "/" = "#/components/schemas/" := by decide +kernel
  rw [Pointer.ofSteps_of_name, address_def, front, Pointer.escapeInTurn_eq, Pointer.escape]

namespace Reference

/-- The steps of an address are fixed up to the key. -/
lemma splitOn_address (within : ComponentSection) (key : String) :
    (within.address key).toList.splitOn '/' =
      [['#'], "components".toList, within.key.toList, Pointer.escapeChars key.toList] := by
  have chars : (within.address key).toList =
      ("#/components/" ++ within.key).toList ++ '/' :: Pointer.escapeChars key.toList := by
    simp [ComponentSection.address_def, Pointer.escapeInTurn_eq]
  have front : ("#/components/" ++ within.key).toList.splitOn '/' =
      [['#'], "components".toList, within.key.toList] := by
    cases within <;> decide +kernel
  rw [chars, List.splitOn_append_cons_self, front,
    List.splitOn_eq_singleton (Pointer.slash_not_mem_escapeChars _)]
  rfl

/-- The address of an entry is read as a reference to its section and its key, unless the key is empty. -/
theorem ofText_address (within : ComponentSection) (key : String) (place : Place) :
    ofText (within.address key) place =
      if key = "" then .error (.malformed place.pointer (.referenceWithEmptySegment (within.address key)))
      else .ok (within.refersTo key place) := by
  have section_ : within.key.toList.isEmpty = false ∧
      String.ofList (Pointer.unescapeChars within.key.toList) = within.key := by
    cases within <;> decide +kernel
  have last : Pointer.escapeChars key.toList = [] ↔ key = "" := by
    constructor
    · intro h
      have chars := congrArg Pointer.unescapeChars h
      rw [Pointer.unescapeChars_escapeChars] at chars
      exact String.toList_eq_nil_iff.1 chars
    · rintro rfl
      rfl
  rw [ofText, splitOn_address]
  change (if (Pointer.escapeChars key.toList).isEmpty || within.key.toList.isEmpty then _ else _) = _
  rw [section_.1, section_.2, Bool.or_false]
  simp only [List.isEmpty_iff, last, Pointer.unescapeChars_escapeChars, String.ofList_toList]
  rfl

end Reference

namespace Entries

variable {α : Type} {key other : String} {value : α} {entries : Entries α}

/-- An entry under a key that no other entry has is located. -/
lemma exists_locate? (distinct : entries.keys.Nodup) (h : (key, value) ∈ entries) :
    ∃ index, locate? key entries = some (index, value) ∧ entries[index]? = some (key, value) := by
  have held := get?_of_mem distinct h
  cases hl : locate? key entries with
  | none => cases held.symm.trans (get?_of_locate?_eq_none hl)
  | some found =>
    obtain ⟨index, own⟩ := found
    have same := get?_of_locate? hl
    obtain rfl := Option.some.inj (held.symm.trans same)
    exact ⟨index, rfl, getElem?_of_locate? hl⟩

end Entries

namespace Document

variable {id : DocumentId} {tree : Json} {document : Document}

/-- The entries of each section of the components have distinct keys. -/
lemma nodup_keys_entries (read : Document.read id tree = .ok document) (distinct : tree.keysDistinct = true)
    (within : ComponentSection) :
    (Component.entries (α := within.Value) document.components).keys.Nodup := by
  obtain ⟨-, -, -, -, empty | ⟨value, hv, h⟩⟩ := read_eq_ok read
  · rw [empty]
    cases within <;> exact List.nodup_nil
  · obtain ⟨fields, hf, h⟩ := bind_eq_ok.1 h
    have at_ := Fields.standAt_of_ofJson hv hf
    simp only [bind_eq_ok, pure_eq_ok] at h
    obtain ⟨schemas, hs, parameters, hp, responses, hr, securitySchemes, hc, h⟩ := h
    rw [← h]
    cases within with
    | schemas => exact Fields.nodup_keys_table at_ distinct hs
    | parameters => exact Fields.nodup_keys_table at_ distinct hp
    | responses => exact Fields.nodup_keys_table at_ distinct hr
    | securitySchemes => exact Fields.nodup_keys_table at_ distinct hc

/-- A reference to an entry that is there finds it, at its position. -/
lemma hop_refersTo {within : ComponentSection} {key : String} {slot : Slot within.Value} {index : Nat}
    (located : Entries.locate? key (Component.entries document.components) = some (index, slot))
    (pointer : String) : (within.refersTo key ⟨document.id, pointer⟩).hop document =
      ⟨[⟨⟨document.id, pointer⟩, index⟩], .ok slot⟩ := by
  have own : ComponentSection.ofKey? within.key = some within := ComponentSection.ofKey?_eq_some_iff.2 rfl
  have found : (within.refersTo key ⟨document.id, pointer⟩).lookup document = .ok (index, slot) := by
    unfold Reference.lookup ComponentSection.refersTo
    dsimp only
    rw [if_neg (not_not_intro rfl), own]
    dsimp only
    rw [if_neg (not_not_intro (Handle.within_value within).symm), located]
  rw [Reference.hop, found]
  rfl

/-- What a reference to an entry finds stands at its position under its key. -/
lemma entry_of_hop {within : ComponentSection} {key : String} {slot : Slot within.Value} {place : Place}
    {index : Nat} (h : (within.refersTo key place).hop document = ⟨[⟨place, index⟩], .ok slot⟩) :
    (Component.entries document.components)[index]? = some (key, slot) := by
  unfold Reference.hop at h
  split at h
  · rename_i position own found
    cases h
    exact Entries.getElem?_of_locate? (Reference.lookup_eq_ok found).2.2
  · cases h

/-- Every key of a section that is not empty has an address, whatever its characters: it is the pointer of
the key below the section, read as a reference to just these.  The reference finds the entry under the key,
and others find others; in particular the pointer of a schema with a name leads to it. -/
theorem addresses_resolve (read : Document.read id tree = .ok document)
    (distinct : tree.keysDistinct = true) :
    (∀ (within : ComponentSection) key place, key ≠ "" →
      within.address key = Pointer.child ("#/components/" ++ within.key) key ∧
      Pointer.unescapeInTurn (Pointer.escapeInTurn key.toList) = key.toList ∧
      Reference.ofText (within.address key) place = .ok (within.refersTo key place)) ∧
    (∀ within key (slot : Slot (ComponentSection.Value within)),
      (key, slot) ∈ Component.entries document.components → ∀ pointer, ∃ index,
        (Component.entries document.components)[index]? = some (key, slot) ∧
        (within.refersTo key ⟨document.id, pointer⟩).hop document =
          ⟨[⟨⟨document.id, pointer⟩, index⟩], .ok slot⟩) ∧
    (∀ within key other place place' index index' (slot slot' : Slot (ComponentSection.Value within)),
      (within.refersTo key place).hop document = ⟨[⟨place, index⟩], .ok slot⟩ →
      (within.refersTo other place').hop document = ⟨[⟨place', index'⟩], .ok slot'⟩ →
        key ≠ other → index ≠ index') ∧
    ∀ key schema, (key, .owned schema) ∈ document.components.schemas → key ≠ "" → ∀ pointer,
      ∃ reference, Reference.ofText schema.pointer ⟨document.id, pointer⟩ = .ok reference ∧
        ((Slot.ref reference).resolve document).result = .ok schema := by
  have parsed : ∀ (within : ComponentSection) key place, key ≠ "" →
      Reference.ofText (within.address key) place = .ok (within.refersTo key place) :=
    fun within key place some => (Reference.ofText_address within key place).trans (if_neg some)
  have finds : ∀ within key (slot : Slot (ComponentSection.Value within)),
      (key, slot) ∈ Component.entries document.components → ∀ pointer, ∃ index,
        (Component.entries document.components)[index]? = some (key, slot) ∧
        (within.refersTo key ⟨document.id, pointer⟩).hop document =
          ⟨[⟨⟨document.id, pointer⟩, index⟩], .ok slot⟩ := fun within key slot mem pointer => by
    obtain ⟨index, located, entry⟩ := Entries.exists_locate? (nodup_keys_entries read distinct within) mem
    exact ⟨index, entry, hop_refersTo located pointer⟩
  refine ⟨fun within key place some => ⟨within.address_eq key, Pointer.unescapeInTurn_escapeInTurn _,
      parsed within key place some⟩, finds, ?_, fun key schema mem some pointer => ?_⟩
  · rintro within key other place place' index _ slot slot' found found' ne rfl
    have entry := entry_of_hop found
    have entry' := entry_of_hop found'
    exact ne (congrArg Prod.fst (Option.some.inj (entry.symm.trans entry')))
  · have held := Entries.get?_of_mem (nodup_keys_of_read read distinct) mem
    have address : schema.pointer = ComponentSection.schemas.address key := by
      rw [(slotAt_of_schema? read distinct held).pointer, ComponentSection.address_schemas]
    obtain ⟨index, -, found⟩ := finds .schemas key (.owned schema) mem pointer
    have hop : ((ComponentSection.schemas.refersTo key ⟨document.id, pointer⟩).hop document :
        Run SchemaSlot).result = .ok (.owned schema) := congrArg Run.result found
    refine ⟨_, address ▸ parsed .schemas key _ some, ?_⟩
    exact ((Slot.resolution document _).value schema).2 ⟨1, by decide, .more hop .none⟩

/-- A description of a schema and a response whose names look like pointers. -/
def slashTree : Json :=
  .obj [
    ("openapi", .str "3.0.0"),
    ("info", .obj [("title", .str "Names"), ("version", .str "1")]),
    ("components", .obj [
      ("schemas", .obj [("/", .obj [("type", .str "integer")]), ("~1/~0", .obj [("type", .str "string")])]),
      ("responses", .obj [("~01", .obj [("description", .str "")])])])]

/-- The pointer of the schema and the address of the response lead to them. -/
theorem addresses_resolve_slashes :
    slashTree.keysDistinct = true ∧ ∃ document, Document.read ⟨0⟩ slashTree = .ok document ∧
      (∃ schema reference, ("~1/~0", .owned schema) ∈ document.components.schemas ∧
        schema.pointer = "#/components/schemas/~01~1~00" ∧
        Reference.ofText schema.pointer ⟨document.id, "#"⟩ = .ok reference ∧
        ((Slot.ref reference).resolve document).result = .ok schema) ∧
      ∃ response reference, ("~01", response) ∈ document.components.responses ∧
        Reference.ofText "#/components/responses/~001" ⟨document.id, "#"⟩ = .ok reference ∧
        (reference.hop document).result = .ok response := by
  have distinct : slashTree.keysDistinct = true := by decide +kernel
  have run : ((Document.read ⟨0⟩ slashTree).toOption.map fun document =>
      (((document.schema? "~1/~0").bind Slot.owned?).map Schema.pointer,
        (Entries.get? "~01" document.components.responses).isSome)) =
      some (some "#/components/schemas/~01~1~00", true) := by decide +kernel
  obtain ⟨document, found, run⟩ := Option.map_eq_some_iff.1 run
  obtain ⟨schemas, responses⟩ := Prod.mk.inj run
  obtain ⟨schema, owned, pointer⟩ := Option.map_eq_some_iff.1 schemas
  obtain ⟨slot, held, owned⟩ := Option.bind_eq_some_iff.1 owned
  obtain rfl := Slot.owned?_eq_some_iff.1 owned
  obtain ⟨response, held'⟩ := Option.isSome_iff_exists.1 responses
  have read := toOption_eq_some.1 found
  have mem := Entries.mem_of_get? held
  have mem' := Entries.mem_of_get? held'
  obtain ⟨parses, finds, -, leads⟩ := addresses_resolve read distinct
  obtain ⟨reference, parsed, resolved⟩ := leads "~1/~0" schema mem (by decide) "#"
  obtain ⟨index, -, hop⟩ := finds .responses "~01" response mem' "#"
  have address : ComponentSection.responses.address "~01" = "#/components/responses/~001" := by
    decide +kernel
  have parsed' := (parses .responses "~01" ⟨document.id, "#"⟩ (by decide)).2.2
  rw [address] at parsed'
  exact ⟨distinct, document, read, ⟨schema, reference, mem, pointer, parsed, resolved⟩,
    response, _, mem', parsed', congrArg Run.result hop⟩

end Document

end OpenApiManifest
