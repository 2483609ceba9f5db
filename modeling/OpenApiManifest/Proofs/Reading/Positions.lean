import Mathlib.Data.List.Basic
import OpenApiManifest.Document.Resolve
import OpenApiManifest.Proofs.Reading.Slots

/-!
# The positions of a document

Every position of a document is held at a path (`Document.HoldsAt`), and stands there in the tree that
the document is read from (`Document.HoldsAt.slotAt`).  So a document that is read from a tree without
repeated keys is coherent (`Document.coherent_of_read`): a place identifies the schema that stands
there, a schema has a name exactly if the components hold it under that name, and schemas inside of
schemas are nameless.
-/

namespace OpenApiManifest

/-- The positions in what stands in a slot; a reference has none. -/
def Slot.sites {α σ : Type} (sites : α → Sites σ) : Slot α → Sites σ
  | .owned value => sites value
  | .ref _ => []

/-- A slot owns a value exactly if the value stands in it. -/
lemma Slot.owned?_eq_some_iff {α : Type} {slot : Slot α} {value : α} :
    slot.owned? = some value ↔ slot = .owned value := by
  cases slot with
  | owned own => exact ⟨fun h => congrArg _ (Option.some.inj h), fun h => congrArg _ (Slot.owned.inj h)⟩
  | ref reference => exact ⟨nofun, nofun⟩

/-- The positions in some slots are those in what is not a reference. -/
lemma Slot.slots_sites {α σ : Type} (sites : α → Sites σ) (all : List (Slot α)) :
    (all.flatMap fun slot => (slot.sites sites).slots) =
      (all.filterMap Slot.owned?).flatMap fun value => (sites value).slots := by
  induction all with
  | nil => rfl
  | cons first rest ih =>
    cases first with
    | owned value => simpa [Slot.sites, Slot.owned?] using ih
    | ref reference => exact ih

/-- The positions directly in a parameter. -/
def Parameter.slots (parameter : Parameter) : List SchemaSlot :=
  parameter.schema.toList

/-- The positions directly in some parameters that are not references. -/
def Parameter.slotsOfAll (parameters : List (Slot Parameter)) : List SchemaSlot :=
  (parameters.filterMap Slot.owned?).flatMap Parameter.slots

/-- The positions directly in a parameter, with the keys that lead to them. -/
def Parameter.sites (parameter : Parameter) : Sites SchemaSlot :=
  Sites.ofField "schema" Sites.here parameter.schema

/-- The positions directly in some content, with the keys that lead to them. -/
def MediaType.sites (content : Entries MediaType) : Sites SchemaSlot :=
  Sites.ofEntries "content" (fun media => Sites.ofField "schema" Sites.here media.schema) content

/-- The positions directly in some responses that are not references. -/
def Response.slotsOfAll (responses : List (Slot Response)) : List SchemaSlot :=
  (responses.filterMap Slot.owned?).flatMap fun response => MediaType.schemas response.content

/-- The positions directly in a response, with the keys that lead to them. -/
def Response.sites (response : Response) : Sites SchemaSlot :=
  MediaType.sites response.content

/-- The positions directly in an operation. -/
def Operation.slots (operation : Operation) : List SchemaSlot :=
  Parameter.slotsOfAll operation.parameters
    ++ operation.requestBody.toList.flatMap (fun body => MediaType.schemas body.content)
    ++ Response.slotsOfAll operation.responses.values

/-- The positions directly in an operation, with the keys and indexes that lead to them. -/
def Operation.sites (operation : Operation) : Sites SchemaSlot :=
  Sites.ofItems "parameters" (Slot.sites Parameter.sites) operation.parameters
    ++ Sites.ofField "requestBody" (fun body => MediaType.sites body.content) operation.requestBody
    ++ Sites.ofEntries "responses" (Slot.sites Response.sites) operation.responses

/-- The positions directly in a path. -/
def PathItem.slots (item : PathItem) : List SchemaSlot :=
  Parameter.slotsOfAll item.parameters ++ item.operations.flatMap fun entry => entry.2.slots

/-- The positions directly in a path, with the keys and indexes that lead to them. -/
def PathItem.sites (item : PathItem) : Sites SchemaSlot :=
  Sites.ofItems "parameters" (Slot.sites Parameter.sites) item.parameters
    ++ item.operations.flatMap fun entry => Sites.under [entry.1.key] entry.2.sites

/-- The positions directly in some components. -/
def Components.slots (components : Components) : List SchemaSlot :=
  components.schemas.values ++ Parameter.slotsOfAll components.parameters.values
    ++ Response.slotsOfAll components.responses.values

/-- The positions directly in some components, with the keys that lead to them. -/
def Components.sites (components : Components) : Sites SchemaSlot :=
  Sites.ofEntries "schemas" Sites.here components.schemas
    ++ Sites.ofEntries "parameters" (Slot.sites Parameter.sites) components.parameters
    ++ Sites.ofEntries "responses" (Slot.sites Response.sites) components.responses

section Sites

/-- Without the keys that lead to them, the positions in a parameter are its positions. -/
lemma Parameter.slots_sites (parameter : Parameter) : parameter.sites.slots = parameter.slots := by
  simp [Parameter.sites, Parameter.slots]

/-- Without the keys that lead to them, the positions in several parameters are theirs. -/
lemma Parameter.slots_sites_of_all (parameters : List (Slot Parameter)) :
    (parameters.flatMap fun slot => (slot.sites Parameter.sites).slots) =
      Parameter.slotsOfAll parameters := by
  rw [Slot.slots_sites, Parameter.slotsOfAll, funext Parameter.slots_sites]

/-- Without the keys that lead to them, the positions in some content are its schemas. -/
lemma MediaType.slots_sites (content : Entries MediaType) :
    (MediaType.sites content).slots = MediaType.schemas content := by
  have each : (fun media : MediaType => media.schema.toList.flatMap fun slot => [slot]) =
      fun media => media.schema.toList := funext fun media => by simp
  simp only [MediaType.sites, MediaType.schemas, Sites.slots_ofEntries, Sites.slots_ofField,
    Sites.slots_here, each, List.filterMap_eq_flatMap_toList]

/-- Without the keys that lead to them, the positions in several responses are theirs. -/
lemma Response.slots_sites_of_all (responses : List (Slot Response)) :
    (responses.flatMap fun slot => (slot.sites Response.sites).slots) =
      Response.slotsOfAll responses := by
  rw [Slot.slots_sites, Response.slotsOfAll]
  exact congrArg (List.flatMap · _) (funext fun response => MediaType.slots_sites response.content)

/-- Without the keys that lead to them, the positions in an operation are its positions. -/
lemma Operation.slots_sites (operation : Operation) : operation.sites.slots = operation.slots := by
  simp only [Operation.sites, Operation.slots, Sites.slots_append, Sites.slots_ofItems,
    Sites.slots_ofField, Sites.slots_ofEntries, Parameter.slots_sites_of_all,
    Response.slots_sites_of_all, MediaType.slots_sites]

/-- Without the keys that lead to them, the positions at a path are its positions. -/
lemma PathItem.slots_sites (item : PathItem) : item.sites.slots = item.slots := by
  have operations : (item.operations.flatMap fun entry =>
      Sites.under [entry.1.key] entry.2.sites).map Prod.snd =
        item.operations.flatMap fun entry => entry.2.slots := by
    rw [List.map_flatMap]
    refine congrArg (List.flatMap · _) (funext fun entry => ?_)
    exact (Sites.slots_under _ _).trans (Operation.slots_sites entry.2)
  rw [PathItem.sites, PathItem.slots, Sites.slots_append, Sites.slots_ofItems,
    Parameter.slots_sites_of_all, Sites.slots, operations]

/-- Without the keys that lead to them, the positions in the components are theirs. -/
lemma Components.slots_sites (components : Components) :
    components.sites.slots = components.slots := by
  simp only [Components.sites, Components.slots, Sites.slots_append, Sites.slots_ofEntries,
    Sites.slots_here, Parameter.slots_sites_of_all, Response.slots_sites_of_all,
    List.flatMap_singleton']

end Sites

namespace Document

/-- The positions of a document that are not inside of schemas. -/
def outerSlots (document : Document) : List SchemaSlot :=
  document.components.slots ++ document.paths.values.flatMap PathItem.slots

/-- The positions of a document that are not inside of schemas, with the keys and indexes that lead to
them. -/
def outerSites (document : Document) : Sites SchemaSlot :=
  Sites.under ["components"] document.components.sites
    ++ Sites.ofEntries "paths" PathItem.sites document.paths

/-- Without the keys that lead to them, the outer positions are the outer slots. -/
lemma slots_outerSites (document : Document) : document.outerSites.slots = document.outerSlots := by
  simp only [outerSites, outerSlots, Sites.slots_append, Sites.slots_under, Sites.slots_ofEntries,
    Components.slots_sites, PathItem.slots_sites]

/-- The positions of a document. -/
inductive Contains (document : Document) : SchemaSlot → Prop
  | outer {slot : SchemaSlot} : slot ∈ document.outerSlots → Contains document slot
  | inside {schema : Schema} {slot : SchemaSlot} :
    Contains document (.owned schema) → slot ∈ schema.slots → Contains document slot

/-- The positions of a document with their paths: the keys and indexes that lead to them. -/
inductive HoldsAt (document : Document) : List String → SchemaSlot → Prop
  | outer {path : List String} {slot : SchemaSlot} : (path, slot) ∈ document.outerSites →
    HoldsAt document path slot
  | inside {path steps : List String} {schema : Schema} {slot : SchemaSlot} :
    HoldsAt document path (.owned schema) → (steps, slot) ∈ schema.sites →
      HoldsAt document (path ++ steps) slot

/-- The positions of a document are those that it holds somewhere. -/
lemma contains_iff_holdsAt {document : Document} {slot : SchemaSlot} :
    document.Contains slot ↔ ∃ path, document.HoldsAt path slot := by
  constructor
  · intro h
    induction h with
    | outer h =>
      rw [← slots_outerSites, Sites.mem_slots] at h
      obtain ⟨path, h⟩ := h
      exact ⟨path, .outer h⟩
    | inside _ h ih =>
      obtain ⟨path, at_⟩ := ih
      rw [Schema.slots, ← SchemaKind.slots_sites, Sites.mem_slots] at h
      obtain ⟨steps, h⟩ := h
      exact ⟨path ++ steps, .inside at_ h⟩
  · rintro ⟨path, h⟩
    induction h with
    | outer h =>
      refine .outer ?_
      rw [← slots_outerSites]
      exact Sites.mem_slots.2 ⟨_, h⟩
    | inside _ h ih =>
      refine .inside ih ?_
      rw [Schema.slots, ← SchemaKind.slots_sites]
      exact Sites.mem_slots.2 ⟨_, h⟩

/-- A document in which places and names tell schemas apart. -/
structure Coherent (document : Document) : Prop where
  eq_of_place {schema other : Schema} : document.Contains (.owned schema) →
    document.Contains (.owned other) → schema.place = other.place → schema = other
  name?_eq_some_iff {schema : Schema} {name : String} : document.Contains (.owned schema) →
    (schema.name? = some name ↔ document.schema? name = some (.owned schema))
  nameless {schema inner : Schema} : document.Contains (.owned schema) →
    .owned inner ∈ schema.slots → inner.name? = none
  distinct : document.components.schemas.keys.Nodup

/-- The slot of a component schema is contained in the document. -/
lemma contains_of_schema? {document : Document} {name : String} {slot : SchemaSlot}
    (h : document.schema? name = some slot) : document.Contains slot := by
  have mem : slot ∈ document.components.schemas.values :=
    List.mem_map.2 ⟨_, Entries.mem_of_get? h, rfl⟩
  refine .outer (List.mem_append_left _ ?_)
  exact List.mem_append_left _ (List.mem_append_left _ mem)

end Document

section Outer

variable {id : DocumentId} {tree : Json} {path steps : List String} {fields : Fields}
  {slot : SchemaSlot}

/-- A slot that is read without a name deep in a tree stands there. -/
lemma SlotAt.of_readAt (deep : 4 ≤ path.length)
    (h : ReadAt tree (Schema.read id none) path slot) : SlotAt id tree path slot := by
  refine ⟨by omega, ?_⟩
  rwa [nameAt_of_length_ne (by omega)]

/-- What is not a reference is read from the fields of an object. -/
lemma exists_fields_of_readAt {α : Type} {owned : Fields → Except ModelError α} {a : α}
    (h : ReadAt tree (fun value pointer => Slot.read id value pointer owned) path (.owned a)) :
    ∃ fields, fields.StandAt tree path ∧ owned fields = .ok a := by
  obtain ⟨value, hv, hr⟩ := h
  obtain ⟨fields, hf, hr⟩ := bind_eq_ok.1 hr
  obtain ⟨text?, -, hr⟩ := bind_eq_ok.1 hr
  cases text? with
  | some text =>
    obtain ⟨_, -, hr⟩ := bind_eq_ok.1 hr
    cases hr
  | none =>
    obtain ⟨a', ha, hr⟩ := bind_eq_ok.1 hr
    cases hr
    exact ⟨fields, Fields.standAt_of_ofJson hv hf, ha⟩

/-- The positions of a schema that a field may hold stand under the key of the field. -/
lemma SlotAt.of_optional {schema : Option SchemaSlot} {key : String}
    (at_ : fields.StandAt tree path) (deep : 3 ≤ path.length)
    (h : fields.optional key (Schema.read id none) = .ok schema)
    (hs : (steps, slot) ∈ Sites.ofField key Sites.here schema) :
    SlotAt id tree (path ++ steps) slot := by
  obtain ⟨own, rest, rfl, he, rfl⟩ := Sites.mem_ofField.1 hs
  obtain ⟨rfl, rfl⟩ := Sites.mem_here.1 he
  refine .of_readAt ?_ (Fields.readAt_optional at_ h)
  rw [List.length_append]
  exact Nat.succ_le_succ deep

/-- The positions of a parameter stand below it. -/
lemma Parameter.slotAt {parameter : Slot Parameter} (deep : 3 ≤ path.length)
    (h : ReadAt tree (Parameter.read id) path parameter)
    (hs : (steps, slot) ∈ parameter.sites Parameter.sites) : SlotAt id tree (path ++ steps) slot := by
  cases parameter with
  | ref reference => cases hs
  | owned parameter =>
    obtain ⟨fields, at_, h⟩ := exists_fields_of_readAt h
    obtain ⟨written, -, h⟩ := bind_eq_ok.1 h
    split at h
    · simp only [bind_eq_ok, pure_eq_ok] at h
      obtain ⟨_, -, schema, hr, _, -, _, -, _, -, _, -, _, -, _, -, rfl⟩ := h
      exact .of_optional at_ deep hr hs
    · cases h

/-- The positions of the parameters of an object stand below it. -/
lemma Parameter.slotAt_of_readAll {parameters : List (Slot Parameter)}
    (at_ : fields.StandAt tree path) (deep : 1 ≤ path.length)
    (h : Parameter.readAll id fields = .ok parameters)
    (hs : (steps, slot) ∈ Sites.ofItems "parameters" (Slot.sites Parameter.sites) parameters) :
    SlotAt id tree (path ++ steps) slot := by
  obtain ⟨i, parameter, rest, hi, he, rfl⟩ := Sites.mem_ofItems.1 hs
  have hr := Fields.readAt_items at_ h hi
  simpa using Parameter.slotAt (by simpa using deep) hr he

/-- The operations of a path stand below it. -/
lemma PathItem.readAt_of_readOperations {methods : List Method}
    {operations : List (Method × Operation)} {entry : Method × Operation}
    (at_ : fields.StandAt tree path)
    (h : PathItem.readOperations id fields methods = .ok operations) (hm : entry ∈ operations) :
    ReadAt tree (Operation.read id) (path ++ [entry.1.key]) entry.2 := by
  induction methods generalizing operations with
  | nil =>
    cases h
    cases hm
  | cons method rest ih =>
    unfold PathItem.readOperations at h
    split at h
    · exact ih h hm
    · rename_i value hv
      obtain ⟨operation, ho, h⟩ := bind_eq_ok.1 h
      obtain ⟨others, hr, h⟩ := bind_eq_ok.1 h
      cases h
      cases hm with
      | head =>
        rw [at_.childPointer] at ho
        exact ⟨value, at_.follow_get? hv, ho⟩
      | tail _ hm => exact ih hr hm

variable (distinct : tree.keysDistinct = true)
include distinct

/-- The positions of some content stand below its object. -/
lemma MediaType.slotAt {content : Entries MediaType} (at_ : fields.StandAt tree path)
    (deep : 1 ≤ path.length) (h : MediaType.readContent id fields = .ok content)
    (hs : (steps, slot) ∈ MediaType.sites content) : SlotAt id tree (path ++ steps) slot := by
  obtain ⟨key, media, rest, hm, he, rfl⟩ := Sites.mem_ofEntries.1 hs
  obtain ⟨value, ht, hr⟩ := Fields.readAt_table at_ distinct h hm
  simp only [MediaType.read, bind_eq_ok, pure_eq_ok] at hr
  obtain ⟨inner, hf, schema, hr, rfl⟩ := hr
  have at' := Fields.standAt_of_ofJson ht hf
  simpa using SlotAt.of_optional at' (by simpa using deep) hr he

/-- The positions of a response stand below it. -/
lemma Response.slotAt {response : Slot Response} (deep : 1 ≤ path.length)
    (h : ReadAt tree (Response.read id) path response)
    (hs : (steps, slot) ∈ response.sites Response.sites) : SlotAt id tree (path ++ steps) slot := by
  cases response with
  | ref reference => cases hs
  | owned response =>
    obtain ⟨fields, at_, h⟩ := exists_fields_of_readAt h
    simp only [Response.readFields, bind_eq_ok, pure_eq_ok] at h
    obtain ⟨_, -, content, hc, rfl⟩ := h
    exact MediaType.slotAt distinct at_ deep hc hs

/-- The positions of the responses in a table stand below its object. -/
lemma Response.slotAt_of_table {responses : Entries (Slot Response)} (at_ : fields.StandAt tree path)
    (h : fields.table "responses" (fun _ => Response.read id) = .ok responses)
    (hs : (steps, slot) ∈ Sites.ofEntries "responses" (Slot.sites Response.sites) responses) :
    SlotAt id tree (path ++ steps) slot := by
  obtain ⟨code, response, rest, hm, he, rfl⟩ := Sites.mem_ofEntries.1 hs
  have hr := Fields.readAt_table at_ distinct h hm
  simpa using Response.slotAt distinct (by simp) hr he

/-- The positions of an operation stand below it. -/
lemma Operation.slotAt {operation : Operation} (deep : 1 ≤ path.length)
    (h : ReadAt tree (Operation.read id) path operation) (hs : (steps, slot) ∈ operation.sites) :
    SlotAt id tree (path ++ steps) slot := by
  obtain ⟨value, hv, h⟩ := h
  obtain ⟨fields, hf, h⟩ := bind_eq_ok.1 h
  have at_ := Fields.standAt_of_ofJson hv hf
  obtain ⟨parameters, hp, h⟩ := bind_eq_ok.1 h
  obtain ⟨body?, hb, h⟩ := bind_eq_ok.1 h
  obtain ⟨responses, hr, h⟩ := bind_eq_ok.1 h
  simp only [bind_eq_ok, pure_eq_ok] at h
  obtain ⟨_, -, _, -, _, -, _, -, _, -, _, -, _, -, _, -, rfl⟩ := h
  rcases List.mem_append.1 hs with hs | hs
  · rcases List.mem_append.1 hs with hs | hs
    · exact Parameter.slotAt_of_readAll at_ deep hp hs
    · obtain ⟨body, rest, rfl, he, rfl⟩ := Sites.mem_ofField.1 hs
      obtain ⟨value, hv, hb⟩ := Fields.readAt_optional at_ hb
      obtain ⟨inner, hf, hb⟩ := bind_eq_ok.1 hb
      split at hb
      · cases hb
      · simp only [bind_eq_ok, pure_eq_ok] at hb
        obtain ⟨_, hc, _, -, _, -, rfl⟩ := hb
        have at' := Fields.standAt_of_ofJson hv hf
        simpa using MediaType.slotAt distinct at' (by simp) hc he
  · exact Response.slotAt_of_table distinct at_ hr hs

/-- The positions of a path stand below it. -/
lemma PathItem.slotAt {item : PathItem} (deep : 1 ≤ path.length)
    (h : ReadAt tree (PathItem.read id) path item) (hs : (steps, slot) ∈ item.sites) :
    SlotAt id tree (path ++ steps) slot := by
  obtain ⟨value, hv, h⟩ := h
  obtain ⟨fields, hf, h⟩ := bind_eq_ok.1 h
  have at_ := Fields.standAt_of_ofJson hv hf
  split at h
  · cases h
  · obtain ⟨operations, ho, h⟩ := bind_eq_ok.1 h
    simp only [bind_eq_ok, pure_eq_ok] at h
    obtain ⟨_, -, _, -, _, -, parameters, hp, rfl⟩ := h
    rcases List.mem_append.1 hs with hs | hs
    · exact Parameter.slotAt_of_readAll at_ deep hp hs
    · obtain ⟨entry, hm, hs⟩ := List.mem_flatMap.1 hs
      obtain ⟨rest, he, rfl⟩ := Sites.mem_under.1 hs
      have hr := PathItem.readAt_of_readOperations at_ ho hm
      simpa using Operation.slotAt distinct (by simp) hr he

/-- The slot of a component schema stands at its key below the components. -/
lemma Components.slotAt_of_mem {components : Components} {name : String}
    (h : ReadAt tree (Components.read id) ["components"] components)
    (hs : (name, slot) ∈ components.schemas) :
    SlotAt id tree ["components", "schemas", name] slot := by
  obtain ⟨value, hv, h⟩ := h
  obtain ⟨fields, hf, h⟩ := bind_eq_ok.1 h
  obtain ⟨schemas, hc, h⟩ := bind_eq_ok.1 h
  simp only [bind_eq_ok, pure_eq_ok] at h
  obtain ⟨_, -, _, -, _, -, rfl⟩ := h
  have at_ := Fields.standAt_of_ofJson hv hf
  exact ⟨Nat.le_refl 3, Fields.readAt_table at_ distinct hc hs⟩

/-- The positions of some components stand below them. -/
lemma Components.slotAt {components : Components}
    (h : ReadAt tree (Components.read id) ["components"] components)
    (hs : (steps, slot) ∈ components.sites) : SlotAt id tree ("components" :: steps) slot := by
  have read := h
  obtain ⟨value, hv, h⟩ := h
  obtain ⟨fields, hf, h⟩ := bind_eq_ok.1 h
  have at_ := Fields.standAt_of_ofJson hv hf
  simp only [bind_eq_ok, pure_eq_ok] at h
  obtain ⟨schemas, -, parameters, hp, responses, hr, _, -, rfl⟩ := h
  rcases List.mem_append.1 hs with hs | hs
  · rcases List.mem_append.1 hs with hs | hs
    · obtain ⟨name, own, rest, hm, he, rfl⟩ := Sites.mem_ofEntries.1 hs
      obtain ⟨rfl, rfl⟩ := Sites.mem_here.1 he
      exact Components.slotAt_of_mem distinct read hm
    · obtain ⟨name, parameter, rest, hm, he, rfl⟩ := Sites.mem_ofEntries.1 hs
      have hr := Fields.readAt_table at_ distinct hp hm
      simpa using Parameter.slotAt (by simp) hr he
  · simpa using Response.slotAt_of_table distinct at_ hr hs

end Outer

namespace Document

variable {id : DocumentId} {tree : Json} {document : Document} {slot : SchemaSlot}

/-- A document that is read has its paths and components from where they stand in the tree. -/
lemma read_eq_ok (h : read id tree = .ok document) :
    document.id = id ∧ ∃ fields : Fields, fields.StandAt tree [] ∧
      readPaths id fields = .ok document.paths ∧
      (document.components = .empty ∨
        ReadAt tree (Components.read id) ["components"] document.components) := by
  obtain ⟨fields, hf, h⟩ := bind_eq_ok.1 h
  have at_ : fields.StandAt tree [] := Fields.standAt_of_ofJson rfl hf
  obtain ⟨openapi, -, h⟩ := bind_eq_ok.1 h
  cases supported : isSupported openapi with
  | false =>
    rw [supported] at h
    cases h
  | true =>
    rw [supported] at h
    simp only [Bool.not_true, Bool.false_eq_true, if_false] at h
    split at h
    case h_2 => cases h
    obtain ⟨info, -, h⟩ := bind_eq_ok.1 h
    simp only [bind_eq_ok, pure_eq_ok] at h
    obtain ⟨paths, hp, components?, hc, _, -, _, -, _, -, _, -, rfl⟩ := h
    refine ⟨rfl, fields, at_, hp, ?_⟩
    cases components? with
    | none => exact .inl rfl
    | some components => exact .inr (Fields.readAt_optional at_ hc)

variable (h : read id tree = .ok document) (distinct : tree.keysDistinct = true)
include h distinct

/-- The schemas of the components have distinct names. -/
lemma nodup_keys_of_read : document.components.schemas.keys.Nodup := by
  obtain ⟨-, -, -, -, empty | hc⟩ := read_eq_ok h
  · rw [empty]
    exact List.nodup_nil
  · obtain ⟨value, hv, hc⟩ := hc
    obtain ⟨fields, hf, hc⟩ := bind_eq_ok.1 hc
    obtain ⟨schemas, hs, hc⟩ := bind_eq_ok.1 hc
    simp only [bind_eq_ok, pure_eq_ok] at hc
    obtain ⟨_, -, _, -, _, -, hc⟩ := hc
    rw [← hc]
    exact Fields.nodup_keys_table (Fields.standAt_of_ofJson hv hf) distinct hs

/-- What the components hold under a name stands at that name. -/
lemma slotAt_of_schema? {name : String} (hs : document.schema? name = some slot) :
    SlotAt id tree ["components", "schemas", name] slot := by
  obtain ⟨-, -, -, -, empty | hc⟩ := read_eq_ok h
  · rw [schema?, empty] at hs
    cases hs
  · exact Components.slotAt_of_mem distinct hc (Entries.mem_of_get? hs)

/-- The paths stand at their keys. -/
lemma readAt_of_paths {key : String} {item : PathItem} (hm : (key, item) ∈ document.paths) :
    ReadAt tree (PathItem.read id) ["paths", key] item := by
  obtain ⟨-, fields, at_, hp, -⟩ := read_eq_ok h
  obtain ⟨entries?, he, hp⟩ := bind_eq_ok.1 hp
  cases entries? with
  | none =>
    rw [← pure_eq_ok.1 hp] at hm
    cases hm
  | some entries =>
    have kept : ∀ entry ∈ entries.filter fun entry => !Fields.isExtension entry.1,
        entry ∈ entries := fun entry hm => (List.mem_filter.1 hm).1
    exact Fields.readAt_eachEntry at_ distinct (Fields.object?_eq_some he) kept hp hm

/-- The outer positions of a document stand at their paths. -/
lemma slotAt_of_outer {path : List String} (hs : (path, slot) ∈ document.outerSites) :
    SlotAt id tree path slot := by
  obtain ⟨-, -, -, -, hc⟩ := read_eq_ok h
  rcases List.mem_append.1 hs with hs | hs
  · obtain ⟨steps, inner, rfl⟩ := Sites.mem_under.1 hs
    cases hc with
    | inl empty =>
      rw [empty] at inner
      cases inner
    | inr hc => exact Components.slotAt distinct hc inner
  · obtain ⟨key, item, steps, hm, inner, rfl⟩ := Sites.mem_ofEntries.1 hs
    exact PathItem.slotAt distinct (by simp) (readAt_of_paths h distinct hm) inner

/-- The names of the components are held at their paths. -/
lemma schema?_of_outer {name : String}
    (hs : (["components", "schemas", name], slot) ∈ document.outerSites) :
    document.schema? name = some slot := by
  rcases List.mem_append.1 hs with hs | hs
  · obtain ⟨steps, hs, e⟩ := Sites.mem_under.1 hs
    obtain rfl : ["schemas", name] = steps := (List.cons.inj e).2
    rcases List.mem_append.1 hs with hs | hs
    · rcases List.mem_append.1 hs with hs | hs
      · obtain ⟨key, own, rest, hm, he, e⟩ := Sites.mem_ofEntries.1 hs
        obtain ⟨rfl, rfl⟩ := Sites.mem_here.1 he
        cases e
        exact Entries.get?_of_mem (nodup_keys_of_read h distinct) hm
      · obtain ⟨_, _, _, -, -, e⟩ := Sites.mem_ofEntries.1 hs
        simp at e
    · obtain ⟨_, _, _, -, -, e⟩ := Sites.mem_ofEntries.1 hs
      simp at e
  · obtain ⟨_, _, _, -, -, e⟩ := Sites.mem_ofEntries.1 hs
    simp at e

/-- The positions of a document stand at their paths. -/
lemma HoldsAt.slotAt {path : List String} (hs : document.HoldsAt path slot) :
    SlotAt id tree path slot := by
  induction hs with
  | outer hs => exact slotAt_of_outer h distinct hs
  | inside _ hs ih => exact ih.inside distinct hs

/-- The positions with a name are the schemas of the components. -/
lemma HoldsAt.schema? {path : List String} {name : String} (hs : document.HoldsAt path slot)
    (hn : nameAt path = some name) : document.schema? name = some slot := by
  cases hs with
  | outer hs =>
    unfold nameAt at hn
    split at hn
    · cases hn
      exact schema?_of_outer h distinct hs
    · cases hn
  | inside holds inner =>
    rw [nameAt_append (holds.slotAt h distinct).deep (SchemaKind.ne_nil_of_mem_sites inner)] at hn
    cases hn

/-- Every position of a document stands at a path of its tree, and those with a name are the schemas
of the components. -/
lemma Contains.at_path (hs : document.Contains slot) :
    ∃ path, SlotAt id tree path slot ∧
      ∀ name, nameAt path = some name → document.schema? name = some slot := by
  obtain ⟨path, holds⟩ := contains_iff_holdsAt.1 hs
  exact ⟨path, holds.slotAt h distinct, fun _ hn => holds.schema? h distinct hn⟩

/-- A document that is read from a tree without repeated keys is coherent. -/
theorem coherent_of_read : document.Coherent where
  eq_of_place := by
    intro schema other hs ho e
    -- Both stand at paths, which are the same if their pointers are, and one value is read from there.
    obtain ⟨path, at_, -⟩ := hs.at_path h distinct
    obtain ⟨path', at', -⟩ := ho.at_path h distinct
    rw [at_.place, at'.place, Place.mk.injEq] at e
    obtain rfl := Pointer.ofSteps_injective e.2
    exact Slot.owned.inj (at_.unique at')
  name?_eq_some_iff := by
    intro schema name hs
    constructor
    · intro hn
      obtain ⟨path, at_, named⟩ := hs.at_path h distinct
      exact named name (at_.name? ▸ hn)
    · intro hn
      exact (slotAt_of_schema? h distinct hn).name?
  nameless := by
    intro schema inner hs hi
    obtain ⟨path, at_, -⟩ := hs.at_path h distinct
    rw [Schema.slots, ← SchemaKind.slots_sites, Sites.mem_slots] at hi
    obtain ⟨steps, hi⟩ := hi
    rw [(at_.inside distinct hi).name?, nameAt_append at_.deep (SchemaKind.ne_nil_of_mem_sites hi)]
  distinct := nodup_keys_of_read h distinct

end Document

end OpenApiManifest
