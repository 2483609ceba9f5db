import OpenApiManifest.Document.Basic
import OpenApiManifest.Proofs.Reading.Fields

/-!
# Where readers report malformations

A reader blames places of the tree only (`Blames`): whatever malformation it reports for the value at a
path stands at a pointer that leads to something in the tree.  This holds of each access to a field, and
so, reader by reader, of the whole document (`Document.read_blames`).
-/

namespace OpenApiManifest

/-- Every malformation that a result reports stands at a pointer that leads to a value of a tree. -/
def Blames {α : Type} (tree : Json) (result : Except ModelError α) : Prop :=
  ∀ pointer cause, result = .error (.malformed pointer cause) → Pointer.LeadsIn tree pointer

/-- A reader that blames places of a tree only, wherever in the tree it reads. -/
def ReadsBlaming {α : Type} (tree : Json) (read : Json → String → Except ModelError α) : Prop :=
  ∀ path value, Json.follow? tree path = some value → Blames tree (read value (Pointer.ofSteps path))

namespace Blames

variable {α β : Type} {tree value : Json} {path : List String}

/-- A result that is a value blames nothing. -/
lemma ok (a : α) : Blames tree (.ok a) := nofun

/-- A reader that only gives a value blames nothing. -/
lemma pure (a : α) : Blames tree (Pure.pure a : Except ModelError α) := nofun

/-- A malformation at a path of the tree. -/
lemma malformed {cause : Malformation} (hv : Json.follow? tree path = some value) :
    Blames tree (.error (.malformed (Pointer.ofSteps path) cause) : Except ModelError α) := by
  intro pointer cause' e
  cases e
  exact Pointer.leadsIn_ofSteps hv

/-- Readers one after the other blame places of the tree if the first does, and so does the second for what
the first gives. -/
lemma bind_ok {first : Except ModelError α} {next : α → Except ModelError β} (h : Blames tree first)
    (hn : ∀ a, first = .ok a → Blames tree (next a)) : Blames tree (first >>= next) := by
  intro pointer cause e
  cases first with
  | error _ =>
    cases e
    exact h pointer cause rfl
  | ok a => exact hn a rfl pointer cause e

/-- Readers one after the other blame places of the tree if each of them does. -/
lemma bind {first : Except ModelError α} {next : α → Except ModelError β} (h : Blames tree first)
    (hn : ∀ a, Blames tree (next a)) : Blames tree (first >>= next) :=
  h.bind_ok fun a _ => hn a

/-- What is done with a value that was read blames nothing more. -/
lemma map {first : Except ModelError α} {change : α → β} (h : Blames tree first) :
    Blames tree (first.map change) := by
  intro pointer cause e
  cases first with
  | error _ =>
    cases e
    exact h pointer cause rfl
  | ok a => cases e

/-- Reading on from the fields of a value that must be an object. -/
lemma ofJson {next : Fields → Except ModelError α} (hv : Json.follow? tree path = some value)
    (hn : ∀ fields : Fields, fields.StandAt tree path → Blames tree (next fields)) :
    Blames tree (Fields.ofJson value (Pointer.ofSteps path) >>= next) := by
  refine bind_ok ?_ fun fields hf => hn fields (Fields.standAt_of_ofJson hv hf)
  cases value with
  | obj entries => exact ok _
  | _ => exact malformed hv

/-- Reading the items of an array, each where it stands. -/
lemma eachItem {read : Json → String → Except ModelError α} {pointer : String} {index : Nat}
    {values : List Json}
    (h : ∀ i value, values[i]? = some value → Blames tree (read value (Pointer.item pointer (index + i)))) :
    Blames tree (Fields.eachItem read pointer index values) := by
  induction values generalizing index with
  | nil => exact ok []
  | cons value rest ih =>
    refine bind (h 0 value rfl) fun first => bind (ih fun i other hi => ?_) fun others => pure _
    rw [Nat.add_assoc, Nat.add_comm 1 i]
    exact h (i + 1) other hi

/-- Reading the entries of an object, each where it stands. -/
lemma eachEntry {read : String → Json → String → Except ModelError α} {pointer : String}
    {entries : List (String × Json)}
    (h : ∀ entry ∈ entries, Blames tree (read entry.1 entry.2 (Pointer.child pointer entry.1))) :
    Blames tree (Fields.eachEntry read pointer entries) := by
  induction entries with
  | nil => exact ok []
  | cons entry rest ih =>
    refine bind (h entry List.mem_cons_self) fun first => bind (ih fun other ho => ?_) fun _ => pure _
    exact h other (List.mem_cons_of_mem _ ho)

end Blames

namespace Fields

variable {α : Type} {tree : Json} {path : List String} {fields : Fields} {key : String}

/-- A field that is there has a value. -/
lemma get?_of_has (h : fields.has key = true) : ∃ value, fields.get? key = some value :=
  Option.isSome_iff_exists.1 h

/-- A text that has to be there is what the field holds. -/
lemma get?_of_string {text : String} (h : fields.string key = .ok text) :
    fields.get? key = some (.str text) := by
  obtain ⟨text?, ht, h⟩ := bind_eq_ok.1 h
  cases text? with
  | none => cases h
  | some own =>
    obtain rfl := pure_eq_ok.1 h
    unfold string? at ht
    split at ht <;> cases ht
    assumption

namespace StandAt

variable (at_ : fields.StandAt tree path)
include at_

/-- A malformation of the object itself. -/
lemma blames_here {cause : Malformation} :
    Blames tree (.error (.malformed fields.pointer cause) : Except ModelError α) := by
  rw [at_.pointer]
  exact .malformed at_.follow

/-- A malformation of a field that is there. -/
lemma blames_field {value : Json} {cause : Malformation} (hv : fields.get? key = some value) :
    Blames tree (.error (.malformed (fields.childPointer key) cause) : Except ModelError α) := by
  rw [at_.childPointer]
  exact .malformed (at_.follow_get? hv)

/-- A text that may be missing is blamed where it stands. -/
lemma string? (key : String) : Blames tree (fields.string? key) := by
  unfold Fields.string?
  split
  case h_4 hv => exact at_.blames_field hv
  all_goals exact .ok _

/-- A text that is missing is blamed on the object. -/
lemma string (key : String) : Blames tree (fields.string key) := by
  refine .bind (at_.string? key) fun text? => ?_
  cases text? with
  | some text => exact .pure text
  | none => exact at_.blames_here

/-- A truth value that is none is blamed where it stands, whether it is another value or another text. -/
lemma bool? (key : String) : Blames tree (fields.bool? key) := by
  unfold Fields.bool?
  split
  case h_4 hv =>
    split
    · exact .ok _
    · exact at_.blames_field hv
  case h_5 hv => exact at_.blames_field hv
  all_goals exact .ok _

/-- A flag is blamed as a truth value that may be missing. -/
lemma flag (key : String) : Blames tree (fields.flag key) :=
  .bind (at_.bool? key) fun _ => .pure _

/-- A count that is no natural number is blamed where it stands. -/
lemma nat? (key : String) : Blames tree (fields.nat? key) := by
  unfold Fields.nat?
  split
  case h_3 hv =>
    split
    · exact .ok _
    · exact at_.blames_field hv
  case h_4 hv => exact at_.blames_field hv
  all_goals exact .ok _

/-- A number that is none is blamed where it stands. -/
lemma number? (key : String) : Blames tree (fields.number? key) := by
  unfold Fields.number?
  split
  case h_4 hv => exact at_.blames_field hv
  all_goals exact .ok _

/-- An array that is none is blamed where it stands. -/
lemma array? (key : String) : Blames tree (fields.array? key) := by
  unfold Fields.array?
  split
  case h_4 hv => exact at_.blames_field hv
  all_goals exact .ok _

/-- An object that is none is blamed where it stands. -/
lemma object? (key : String) : Blames tree (fields.object? key) := by
  unfold Fields.object?
  split
  case h_4 hv => exact at_.blames_field hv
  all_goals exact .ok _

/-- A part that may be missing is read where it stands. -/
lemma optional {read : Json → String → Except ModelError α} (key : String)
    (h : ReadsBlaming tree read) : Blames tree (fields.optional key read) := by
  unfold Fields.optional
  split
  · exact .pure none
  · rename_i value hv
    refine .bind ?_ fun _ => .pure _
    rw [at_.childPointer]
    exact h _ value (at_.follow_get? hv)

/-- Reading the items of an array that is a field. -/
lemma eachItem {read : Json → String → Except ModelError α} {values : List Json}
    (hv : fields.get? key = some (.arr values)) (h : ReadsBlaming tree read) :
    Blames tree (Fields.eachItem read (fields.childPointer key) 0 values) := by
  refine .eachItem fun i value hi => ?_
  rw [Nat.zero_add, Pointer.item, at_.childPointer, ← Pointer.ofSteps_append_singleton]
  exact h _ value (Json.follow?_item (at_.follow_get? hv) hi)

/-- The parts of an array that may be missing are read where they stand. -/
lemma items {read : Json → String → Except ModelError α} (key : String)
    (h : ReadsBlaming tree read) : Blames tree (fields.items key read) := by
  refine .bind_ok (at_.array? key) fun values? hv => ?_
  cases values? with
  | none => exact .pure []
  | some values => exact at_.eachItem (array?_eq_some hv) h

/-- A text of an array is blamed where it stands among the items. -/
lemma strings (key : String) : Blames tree (fields.strings key) := by
  refine at_.items key fun path value hv => ?_
  cases value with
  | str text => exact .ok text
  | _ => exact .malformed hv

variable (distinct : tree.keysDistinct = true)
include distinct

/-- Reading some of the entries of an object that is a field. -/
lemma eachEntry {read : String → Json → String → Except ModelError α}
    {entries kept : List (String × Json)} (hv : fields.get? key = some (.obj entries))
    (hk : ∀ entry ∈ kept, entry ∈ entries) (h : ∀ name, ReadsBlaming tree (read name)) :
    Blames tree (Fields.eachEntry read (fields.childPointer key) kept) := by
  have followed := at_.follow_get? hv
  have nodup := (Json.keysDistinct_obj.1 (Json.keysDistinct_follow? distinct followed)).1
  refine .eachEntry fun entry hm => ?_
  rw [at_.childPointer, ← Pointer.ofSteps_append_singleton]
  exact h _ _ _ (Json.follow?_field followed (Entries.get?_of_mem nodup (hk entry hm)))

/-- The parts of an object that may be missing are read where they stand. -/
lemma table {read : String → Json → String → Except ModelError α} (key : String)
    (h : ∀ name, ReadsBlaming tree (read name)) : Blames tree (fields.table key read) := by
  refine .bind_ok (at_.object? key) fun entries? hv => ?_
  cases entries? with
  | none => exact .pure []
  | some entries => exact at_.eachEntry distinct (object?_eq_some hv) (fun _ hm => hm) h

end StandAt

end Fields

section Metadata

variable {tree : Json}

/-- Reading a contact blames its name, its address or its email. -/
lemma Contact.read_blames : ReadsBlaming tree Contact.read := by
  intro path value hv
  refine .ofJson hv fun fields at_ => ?_
  refine .bind (at_.string? _) fun _ => ?_
  refine .bind (at_.string? _) fun _ => ?_
  refine .bind (at_.string? _) fun _ => ?_
  exact .pure _

/-- Reading the metadata blames the contact, or a text. -/
lemma Info.read_blames : ReadsBlaming tree Info.read := by
  intro path value hv
  refine .ofJson hv fun fields at_ => ?_
  refine .bind (at_.optional _ Contact.read_blames) fun _ => ?_
  refine .bind (at_.string _) fun _ => ?_
  refine .bind (at_.string _) fun _ => ?_
  refine .bind (at_.string? _) fun _ => ?_
  exact .pure _

/-- Reading a variable of a server blames its default, its choices or its description. -/
lemma ServerVariable.read_blames : ReadsBlaming tree ServerVariable.read := by
  intro path value hv
  refine .ofJson hv fun fields at_ => ?_
  refine .bind (at_.string _) fun _ => ?_
  refine .bind (at_.strings _) fun _ => ?_
  refine .bind (at_.string? _) fun _ => ?_
  exact .pure _

/-- Reading a server blames its variables, its address or its description. -/
lemma Server.read_blames (distinct : tree.keysDistinct = true) : ReadsBlaming tree Server.read := by
  intro path value hv
  refine .ofJson hv fun fields at_ => ?_
  refine .bind (at_.table distinct _ fun _ => ServerVariable.read_blames) fun _ => ?_
  refine .bind (at_.string _) fun _ => ?_
  refine .bind (at_.string? _) fun _ => ?_
  exact .pure _

/-- Reading a security requirement blames the scopes of one of its schemes. -/
lemma SecurityRequirement.read_blames : ReadsBlaming tree SecurityRequirement.read := by
  intro path value hv
  refine .ofJson hv fun fields at_ => ?_
  generalize fields.entries = entries
  induction entries with
  | nil => exact .ok []
  | cons entry rest ih =>
    refine .bind (at_.strings _) fun _ => ?_
    refine .bind ih fun _ => ?_
    exact .pure _

/-- Reading a link to further documentation blames its address or its description. -/
lemma ExternalDocs.read_blames : ReadsBlaming tree ExternalDocs.read := by
  intro path value hv
  refine .ofJson hv fun fields at_ => ?_
  refine .bind (at_.string _) fun _ => ?_
  refine .bind (at_.string? _) fun _ => ?_
  exact .pure _

/-- Reading a tag blames its name, its description or its link. -/
lemma Tag.read_blames : ReadsBlaming tree Tag.read := by
  intro path value hv
  refine .ofJson hv fun fields at_ => ?_
  refine .bind (at_.string _) fun _ => ?_
  refine .bind (at_.string? _) fun _ => ?_
  refine .bind (at_.optional _ ExternalDocs.read_blames) fun _ => ?_
  exact .pure _

variable {path : List String} {fields : Fields} (at_ : fields.StandAt tree path)
include at_

/-- Reading the security requirements of an object blames one of them. -/
lemma SecurityRequirement.readAll_blames : Blames tree (SecurityRequirement.readAll fields) := by
  refine .bind_ok (at_.array? _) fun values? hv => ?_
  cases values? with
  | none => exact .pure none
  | some values =>
    refine .bind (at_.eachItem (Fields.array?_eq_some hv) read_blames) fun _ => ?_
    exact .pure _

/-- Reading a security scheme blames one of its texts. -/
lemma SecurityScheme.readFields_blames : Blames tree (SecurityScheme.readFields fields) := by
  refine .bind (at_.string _) fun _ => ?_
  refine .bind (at_.string? _) fun _ => ?_
  refine .bind (at_.string? _) fun _ => ?_
  refine .bind (at_.string? _) fun _ => ?_
  refine .bind (at_.string? _) fun _ => ?_
  refine .bind (at_.string? _) fun _ => ?_
  refine .bind (at_.string? _) fun _ => ?_
  exact .pure _

end Metadata

/-- A slot blames places of the tree if what is no reference does. -/
lemma Slot.read_blames {α : Type} {tree : Json} {id : DocumentId}
    {owned : Fields → Except ModelError α}
    (h : ∀ path (fields : Fields), fields.StandAt tree path → Blames tree (owned fields)) :
    ReadsBlaming tree fun value pointer => Slot.read id value pointer owned := by
  intro path value hv
  refine .ofJson hv fun fields at_ => .bind (at_.string? _) fun text? => ?_
  cases text? with
  | none =>
    refine .bind (h path fields at_) fun _ => ?_
    exact .pure _
  | some text =>
    refine .bind ?_ fun _ => .pure _
    unfold Reference.ofText
    split
    · split
      · exact .malformed hv
      · exact .ok _
    · exact .malformed hv

namespace Schema

variable {tree : Json} {path : List String} {fields : Fields}

/-- A name that is of no type is blamed where it stands. -/
lemma readTypeName_blames {text : String} {value : Json}
    (hv : Json.follow? tree path = some value) :
    Blames tree (readTypeName text (Pointer.ofSteps path)) := by
  unfold readTypeName
  split
  · exact .ok _
  · exact .malformed hv

/-- A type in a list of types is blamed where it stands. -/
lemma readListedType_blames : ReadsBlaming tree readListedType := by
  intro path value hv
  unfold readListedType
  split
  · exact .ok _
  · exact (readTypeName_blames hv).map
  · exact .malformed hv

/-- A value of an enumeration that is no scalar is blamed where it stands. -/
lemma readEnumValue_blames : ReadsBlaming tree readEnumValue := by
  intro path value hv
  unfold readEnumValue
  split
  case h_4 => exact .malformed hv
  all_goals exact .ok _

section Fields

variable (at_ : fields.StandAt tree path)
include at_

/-- The declared type is blamed where it stands, or one of the types in its list is. -/
lemma readType_blames : Blames tree (readType fields) := by
  unfold readType
  dsimp only
  split
  case h_3 text hv =>
    rw [at_.childPointer]
    exact (readTypeName_blames (at_.follow_get? hv)).map
  case h_4 entries hv =>
    refine .bind (at_.eachItem hv readListedType_blames) fun listed => ?_
    split
    · exact .pure _
    · exact .pure _
    · exact at_.blames_field hv
  case h_5 hv => exact at_.blames_field hv
  all_goals exact .ok _

/-- Reading what schemas of any kind declare blames the type, a text or a flag. -/
lemma readInfo_blames {document : DocumentId} {name : Option String} :
    Blames tree (readInfo document name fields) := by
  refine .bind (readType_blames at_) fun type => ?_
  refine .bind (at_.string? _) fun _ => ?_
  refine .bind (at_.string? _) fun _ => ?_
  refine .bind (at_.string? _) fun _ => ?_
  dsimp only
  -- The flag `nullable` is not read if the list of types has null in it.
  split
  · refine .bind (.ok true) fun _ => ?_
    refine .bind (at_.flag _) fun _ => ?_
    refine .bind (at_.flag _) fun _ => ?_
    refine .bind (at_.flag _) fun _ => ?_
    exact .pure _
  · refine .bind (at_.flag _) fun _ => ?_
    refine .bind (at_.flag _) fun _ => ?_
    refine .bind (at_.flag _) fun _ => ?_
    refine .bind (at_.flag _) fun _ => ?_
    exact .pure _

/-- Whether a bound is exclusive is blamed on its flag, unless the keyword is a bound itself. -/
lemma readExclusive_blames {key : String} {bound : Option Number} :
    Blames tree (readExclusive fields key bound) := by
  unfold readExclusive
  split
  · exact .pure _
  · refine .bind (at_.flag _) fun _ => ?_
    exact .pure _

/-- Reading constraints blames a bound, a length, the pattern or a flag. -/
lemma readConstraints_blames : Blames tree (readConstraints fields) := by
  refine .bind (at_.number? _) fun _ => ?_
  refine .bind (at_.number? _) fun _ => ?_
  refine .bind (at_.nat? _) fun _ => ?_
  refine .bind (at_.nat? _) fun _ => ?_
  refine .bind (at_.string? _) fun _ => ?_
  refine .bind (readExclusive_blames at_) fun _ => ?_
  refine .bind (readExclusive_blames at_) fun _ => ?_
  exact .pure _

/-- The keyword `enum` is blamed only where it is there. -/
lemma readEnum_blames (has : fields.has "enum" = true) : Blames tree (readEnum fields) := by
  obtain ⟨value, there⟩ := Fields.get?_of_has has
  refine .bind_ok (at_.array? _) fun entries? hv => ?_
  cases entries? with
  | none => exact at_.blames_field there
  | some entries =>
    refine .bind (at_.eachItem (Fields.array?_eq_some hv) readEnumValue_blames) fun _ => ?_
    exact .pure _

variable {σ : Type} {readSlot : Json → String → Except ModelError σ}
  (slots : ReadsBlaming tree readSlot)
include slots

/-- The members of a composition or a choice are blamed where they stand, and what is no list of them is
blamed on its keyword. -/
lemma readMembers_blames {key : String} (has : fields.has key = true) :
    Blames tree (readMembers readSlot fields key) := by
  obtain ⟨value, there⟩ := Fields.get?_of_has has
  refine .bind_ok (at_.array? _) fun entries? hv => ?_
  cases entries? with
  | none => exact at_.blames_field there
  | some entries => exact at_.eachItem (Fields.array?_eq_some hv) slots

/-- An array without items is blamed itself. -/
lemma readArray_blames : Blames tree (readArray readSlot fields) := by
  unfold readArray
  split
  · exact at_.blames_here
  · rename_i items hv
    refine .bind ?_ fun _ => ?_
    · rw [at_.childPointer]
      exact slots _ items (at_.follow_get? hv)
    refine .bind (at_.nat? _) fun _ => ?_
    refine .bind (at_.nat? _) fun _ => ?_
    exact .pure _

/-- Additional properties that are neither a truth value nor a schema are blamed where they stand. -/
lemma readAdditional_blames : Blames tree (readAdditional readSlot fields) := by
  unfold readAdditional
  dsimp only
  split
  case h_4 entries hv =>
    refine .bind ?_ fun _ => .pure _
    rw [at_.childPointer]
    exact slots _ _ (at_.follow_get? hv)
  case h_5 hv => exact at_.blames_field hv
  all_goals exact .pure _

variable (distinct : tree.keysDistinct = true)
include distinct

/-- Reading an object blames its properties, the names of the required ones or its additional properties. -/
lemma readObject_blames : Blames tree (readObject readSlot fields) := by
  refine .bind (at_.table distinct _ fun _ => slots) fun _ => ?_
  refine .bind (at_.strings _) fun _ => ?_
  refine .bind (readAdditional_blames at_ slots) fun _ => ?_
  exact .pure _

/-- A schema is blamed by the first of its keywords that settles its kind. -/
lemma readKind_blames {declared : Option SchemaType} :
    Blames tree (readKind readSlot declared fields) := by
  unfold readKind
  split_ifs with oneOf allOf anyOf enum
  · exact .bind (readMembers_blames at_ slots oneOf) fun _ => .pure _
  · exact .bind (readMembers_blames at_ slots allOf) fun _ => .pure _
  · exact .bind (readMembers_blames at_ slots anyOf) fun _ => .pure _
  · exact .bind (readEnum_blames at_ enum) fun _ => .pure _
  · exact .bind (readArray_blames at_ slots) fun _ => .pure _
  · exact .bind (readObject_blames at_ slots distinct) fun _ => .pure _
  · exact .bind (readConstraints_blames at_) fun _ => .pure _

end Fields

variable (distinct : tree.keysDistinct = true) {document : DocumentId}
include distinct

/-- Reading the schemas inside a schema, to any number of levels, blames places of the tree only. -/
lemma readWithin_blames {levels : Nat} {name : Option String} :
    ReadsBlaming tree (readWithin document levels name) := by
  -- By induction on the levels: the positions inside are read with one level less.
  induction levels generalizing name with
  | zero => exact fun path value hv => .malformed hv
  | succ levels ih =>
    refine Slot.read_blames fun path fields at_ => ?_
    refine .bind (readInfo_blames at_) fun _ => ?_
    refine .bind (readKind_blames at_ ih distinct) fun _ => ?_
    exact .pure _

/-- Reading a schema blames places of the tree only. -/
lemma read_blames {name : Option String} : ReadsBlaming tree (read document name) :=
  fun path value hv => readWithin_blames distinct path value hv

end Schema

section Parts

variable {tree : Json} (distinct : tree.keysDistinct = true) {id : DocumentId}
include distinct

/-- Reading a parameter blames its schema, a text or a flag, and what is no place of a parameter. -/
lemma Parameter.read_blames : ReadsBlaming tree (Parameter.read id) := by
  refine Slot.read_blames fun path fields at_ => ?_
  refine .bind_ok (at_.string _) fun written hw => ?_
  split
  · refine .bind (.ok _) fun _ => ?_
    refine .bind (at_.optional _ (Schema.read_blames distinct)) fun _ => ?_
    refine .bind (at_.string _) fun _ => ?_
    refine .bind (at_.string? _) fun _ => ?_
    refine .bind (at_.flag _) fun _ => ?_
    refine .bind (at_.flag _) fun _ => ?_
    refine .bind (at_.string? _) fun _ => ?_
    refine .bind (at_.bool? _) fun _ => ?_
    exact .pure _
  · exact at_.blames_field (Fields.get?_of_string hw)

/-- Reading a media type blames its schema. -/
lemma MediaType.read_blames : ReadsBlaming tree (MediaType.read id) := by
  intro path value hv
  refine .ofJson hv fun fields at_ => ?_
  refine .bind (at_.optional _ (Schema.read_blames distinct)) fun _ => ?_
  exact .pure _

/-- Reading the body of a request blames its content, or the body itself if that is a reference. -/
lemma RequestBody.read_blames : ReadsBlaming tree (RequestBody.read id) := by
  intro path value hv
  refine .ofJson hv fun fields at_ => ?_
  split
  · exact .malformed hv
  · refine .bind (at_.table distinct _ fun _ => MediaType.read_blames distinct) fun _ => ?_
    refine .bind (at_.string? _) fun _ => ?_
    refine .bind (at_.flag _) fun _ => ?_
    exact .pure _

/-- Reading a response blames its description or its content. -/
lemma Response.read_blames : ReadsBlaming tree (Response.read id) := by
  refine Slot.read_blames fun path fields at_ => ?_
  refine .bind (at_.string? _) fun _ => ?_
  refine .bind (at_.table distinct _ fun _ => MediaType.read_blames distinct) fun _ => ?_
  exact .pure _

/-- Reading an operation blames its parts where they stand. -/
lemma Operation.read_blames : ReadsBlaming tree (Operation.read id) := by
  intro path value hv
  refine .ofJson hv fun fields at_ => ?_
  refine .bind (at_.items _ (Parameter.read_blames distinct)) fun _ => ?_
  refine .bind (at_.optional _ (RequestBody.read_blames distinct)) fun _ => ?_
  refine .bind (at_.table distinct _ fun _ => Response.read_blames distinct) fun _ => ?_
  refine .bind (at_.strings _) fun _ => ?_
  refine .bind (at_.string? _) fun _ => ?_
  refine .bind (at_.string? _) fun _ => ?_
  refine .bind (at_.string? _) fun _ => ?_
  refine .bind (at_.flag _) fun _ => ?_
  refine .bind (at_.items _ (Server.read_blames distinct)) fun _ => ?_
  refine .bind (SecurityRequirement.readAll_blames at_) fun _ => ?_
  refine .bind (at_.optional _ ExternalDocs.read_blames) fun _ => ?_
  exact .pure _

/-- Reading a path blames its operations and its other parts where they stand, or the path itself if it is a
reference. -/
lemma PathItem.read_blames : ReadsBlaming tree (PathItem.read id) := by
  intro path value hv
  refine .ofJson hv fun fields at_ => ?_
  have operations : ∀ methods, Blames tree (PathItem.readOperations id fields methods) := by
    intro methods
    induction methods with
    | nil => exact .ok []
    | cons method rest ih =>
      unfold PathItem.readOperations
      split
      · exact ih
      · rename_i own there
        refine .bind ?_ fun _ => ?_
        · rw [at_.childPointer]
          exact Operation.read_blames distinct _ own (at_.follow_get? there)
        refine .bind ih fun _ => ?_
        exact .pure _
  split
  · exact .malformed hv
  · refine .bind (operations _) fun _ => ?_
    refine .bind (at_.string? _) fun _ => ?_
    refine .bind (at_.string? _) fun _ => ?_
    refine .bind (at_.items _ (Server.read_blames distinct)) fun _ => ?_
    refine .bind (at_.items _ (Parameter.read_blames distinct)) fun _ => ?_
    exact .pure _

/-- Reading the components blames an entry of one of the sections. -/
lemma Components.read_blames : ReadsBlaming tree (Components.read id) := by
  intro path value hv
  refine .ofJson hv fun fields at_ => ?_
  refine .bind (at_.table distinct _ fun _ => Schema.read_blames distinct) fun _ => ?_
  refine .bind (at_.table distinct _ fun _ => Parameter.read_blames distinct) fun _ => ?_
  refine .bind (at_.table distinct _ fun _ => Response.read_blames distinct) fun _ => ?_
  refine .bind (at_.table distinct _ fun _ => ?_) fun _ => .pure _
  exact Slot.read_blames fun _ _ at_ => SecurityScheme.readFields_blames at_

/-- Reading the paths blames one of those that are no extensions. -/
lemma Document.readPaths_blames {path : List String} {fields : Fields}
    (at_ : fields.StandAt tree path) : Blames tree (readPaths id fields) := by
  refine .bind_ok (at_.object? _) fun entries? hv => ?_
  cases entries? with
  | none => exact .pure []
  | some entries =>
    have kept : ∀ entry ∈ entries.filter fun entry => !Fields.isExtension entry.1,
        entry ∈ entries := fun entry hm => (List.mem_filter.1 hm).1
    exact at_.eachEntry distinct (Fields.object?_eq_some hv) kept fun _ =>
      PathItem.read_blames distinct

/-- Reading a document blames places of its tree only. -/
theorem Document.read_blames : Blames tree (Document.read id tree) := by
  have root : Json.follow? tree [] = some tree := rfl
  refine .ofJson root fun fields at_ => .bind_ok (at_.string _) fun openapi ho => ?_
  cases supported : isSupported openapi with
  | false => exact at_.blames_field (Fields.get?_of_string ho)
  | true =>
    simp only [Bool.not_true, Bool.false_eq_true, if_false]
    split
    · rename_i value hv
      refine .bind ?_ fun _ => .bind (readPaths_blames distinct at_) fun _ => ?_
      · rw [at_.childPointer]
        exact Info.read_blames _ value (at_.follow_get? hv)
      refine .bind (at_.optional _ (Components.read_blames distinct)) fun _ => ?_
      refine .bind (at_.items _ Tag.read_blames) fun _ => ?_
      refine .bind (at_.items _ (Server.read_blames distinct)) fun _ => ?_
      refine .bind (at_.optional _ ExternalDocs.read_blames) fun _ => ?_
      refine .bind (SecurityRequirement.readAll_blames at_) fun _ => ?_
      exact .pure _
    · exact Blames.malformed root

end Parts

end OpenApiManifest
