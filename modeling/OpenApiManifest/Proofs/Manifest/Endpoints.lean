import OpenApiManifest.Proofs.Manifest.Grouping
import OpenApiManifest.Proofs.Manifest.Tally
import OpenApiManifest.Proofs.Reading.Positions

/-!
# The endpoints of a description

A description declares an endpoint for each method of each of its paths (`Json.endpoints`).  The operations
of a manifest are those of these endpoints, each of them once, and they are grouped by the tags that the
description gives them (`Generator.version_endpoints`).
-/

namespace OpenApiManifest

/-- Where an operation is declared: its path and its method. -/
abbrev Endpoint := String × Method

/-- The endpoint of an operation of a document. -/
def OperationEntry.endpoint (entry : OperationEntry) : Endpoint :=
  (entry.path, entry.method)

/-- The endpoint of an operation of a manifest. -/
def MethodEntry.endpoint (operation : MethodEntry) : Endpoint :=
  (operation.path, operation.method)

namespace Json

/-- The methods that a path has operations for, in the order in which methods are listed. -/
def methods (item : Json) : List Method :=
  Method.all.filter fun method => (item.follow? [method.key]).isSome

/-- The entries of the paths of a description. -/
def pathEntries (tree : Json) : List (String × Json) :=
  match tree.follow? ["paths"] with
  | some (.obj entries) => entries
  | _ => []

/-- The paths of a description with what stands under them; keys of extensions are no paths. -/
def paths (tree : Json) : List (String × Json) :=
  tree.pathEntries.filter fun entry => !Fields.isExtension entry.1

/-- The endpoints of a description: its paths in their order, and the methods of each. -/
def endpoints (tree : Json) : List Endpoint :=
  tree.paths.flatMap fun entry => entry.2.methods.map fun method => (entry.1, method)

/-- The first tag of the operation at an endpoint of a description. -/
def firstTag? (tree : Json) (endpoint : Endpoint) : Option String :=
  match tree.follow? ["paths", endpoint.1, endpoint.2.key, "tags"] with
  | some (.arr (.str tag :: _)) => some tag
  | _ => none

variable {tree : Json}

/-- A path has the methods that stand under their keys. -/
lemma mem_methods {item : Json} {method : Method} :
    method ∈ item.methods ↔ ∃ operation, item.follow? [method.key] = some operation := by
  have all : method ∈ Method.all := by cases method <;> decide
  rw [methods, List.mem_filter, Option.isSome_iff_exists, and_iff_right all]

/-- A path has each of its methods once. -/
lemma nodup_methods (item : Json) : item.methods.Nodup :=
  List.Nodup.filter _ (by decide)

end Json

/-- The operations that are read for a path have the methods of the path. -/
lemma PathItem.methods_of_readOperations {id : DocumentId} {fields : Fields} {methods : List Method}
    {operations : List (Method × Operation)}
    (h : PathItem.readOperations id fields methods = .ok operations) :
    operations.map Prod.fst = methods.filter fun method => (fields.get? method.key).isSome := by
  induction methods generalizing operations with
  | nil =>
    cases h
    rfl
  | cons method rest ih =>
    unfold readOperations at h
    split at h
    case h_1 absent =>
      rw [ih h, List.filter_cons_of_neg (by simp [absent])]
    case h_2 value held =>
      obtain ⟨operation, -, h⟩ := bind_eq_ok.1 h
      obtain ⟨others, ho, h⟩ := bind_eq_ok.1 h
      obtain rfl := pure_eq_ok.1 h
      rw [List.map_cons, ih ho, List.filter_cons_of_pos (by simp [held])]

/-- The operations of a path have its methods, and are read from what stands under them. -/
lemma PathItem.exists_of_read {id : DocumentId} {value : Json} {pointer : String} {item : PathItem}
    (h : PathItem.read id value pointer = .ok item) :
    ∃ fields : Fields, Fields.ofJson value pointer = .ok fields ∧
      PathItem.readOperations id fields Method.all = .ok item.operations := by
  obtain ⟨fields, hf, h⟩ := bind_eq_ok.1 h
  split at h
  case isTrue => cases h
  case isFalse =>
    obtain ⟨operations, ho, h⟩ := bind_eq_ok.1 h
    simp only [bind_eq_ok, pure_eq_ok] at h
    obtain ⟨_, -, _, -, _, -, _, -, rfl⟩ := h
    exact ⟨fields, hf, ho⟩

/-- A path that is read has operations for the methods that stand there. -/
lemma PathItem.methods_of_read {id : DocumentId} {value : Json} {pointer : String} {item : PathItem}
    (h : PathItem.read id value pointer = .ok item) : item.operations.map Prod.fst = value.methods := by
  obtain ⟨fields, hf, ho⟩ := exists_of_read h
  obtain ⟨rfl, -⟩ := Fields.ofJson_eq_ok hf
  rw [methods_of_readOperations ho, Json.methods]
  refine List.filter_congr fun method _ => ?_
  simp [Json.follow?, Fields.get?]

/-- The first of some texts that are read is the first one of the array. -/
lemma Fields.head?_strings {fields : Fields} {key : String} {texts : List String}
    (h : fields.strings key = .ok texts) :
    texts.head? = match fields.get? key with
      | some (.arr (.str text :: _)) => some text
      | _ => none := by
  obtain ⟨values?, hv, h⟩ := bind_eq_ok.1 h
  cases values? with
  | none =>
    obtain rfl := pure_eq_ok.1 h
    rcases array?_eq_none hv with absent | null
    · rw [absent]
      rfl
    · rw [null]
      rfl
  | some values =>
    rw [array?_eq_some hv]
    cases values with
    | nil =>
      cases h
      rfl
    | cons first rest =>
      obtain ⟨text, ht, h⟩ := bind_eq_ok.1 h
      obtain ⟨others, -, h⟩ := bind_eq_ok.1 h
      obtain rfl := pure_eq_ok.1 h
      cases first with
      | str own =>
        cases ht
        rfl
      | _ => cases ht

/-- An operation that is read has the first tag that stands under its tags. -/
lemma Operation.head?_tags_of_read {id : DocumentId} {value : Json} {pointer : String}
    {operation : Operation} (h : Operation.read id value pointer = .ok operation) :
    operation.tags.head? = match value.follow? ["tags"] with
      | some (.arr (.str tag :: _)) => some tag
      | _ => none := by
  obtain ⟨fields, hf, h⟩ := bind_eq_ok.1 h
  obtain ⟨parameters, -, h⟩ := bind_eq_ok.1 h
  obtain ⟨body?, -, h⟩ := bind_eq_ok.1 h
  obtain ⟨responses, -, h⟩ := bind_eq_ok.1 h
  simp only [bind_eq_ok, pure_eq_ok] at h
  obtain ⟨tags, ht, _, -, _, -, _, -, _, -, _, -, _, -, _, -, rfl⟩ := h
  have held : value.follow? ["tags"] = fields.get? "tags" := by
    simp [(Fields.ofJson_eq_ok hf).1, Json.follow?, Fields.get?]
  rw [held]
  exact Fields.head?_strings ht

namespace Document

variable {id : DocumentId} {tree : Json} {document : Document}

/-- The paths of a document are read one after the other from those of its description. -/
lemma exists_of_paths (read : Document.read id tree = .ok document) :
    ∃ pointer, Fields.eachEntry (fun _ => PathItem.read id) pointer tree.paths = .ok document.paths := by
  obtain ⟨-, fields, at_, hp, -⟩ := read_eq_ok read
  have held : tree.follow? ["paths"] = fields.get? "paths" := at_.follow_child "paths"
  obtain ⟨entries?, he, hp⟩ := bind_eq_ok.1 hp
  refine ⟨fields.childPointer "paths", ?_⟩
  cases entries? with
  | none =>
    have empty : tree.paths = [] := by
      rcases Fields.object?_eq_none he with absent | null
      · simp [Json.paths, Json.pathEntries, held, absent]
      · simp [Json.paths, Json.pathEntries, held, null]
    rw [empty, ← pure_eq_ok.1 hp]
    rfl
  | some entries =>
    rw [Json.paths, Json.pathEntries, held, Fields.object?_eq_some he]
    exact hp

/-- What stands below a path of a description that is read. -/
lemma follow?_path (read : Document.read id tree = .ok document) (path : String) (rest : List String) :
    tree.follow? ("paths" :: path :: rest) =
      (Entries.get? path tree.pathEntries).bind fun item => item.follow? rest := by
  obtain ⟨-, fields, at_, hp, -⟩ := read_eq_ok read
  obtain ⟨entries?, he, -⟩ := bind_eq_ok.1 hp
  have held : tree.follow? ["paths"] = fields.get? "paths" := at_.follow_child "paths"
  rw [Json.pathEntries, show "paths" :: path :: rest = ["paths"] ++ path :: rest from rfl,
    Json.follow?_append, held]
  cases entries? with
  | none =>
    rcases Fields.object?_eq_none he with absent | null
    · rw [absent]
      rfl
    · rw [null]
      rfl
  | some entries =>
    rw [Fields.object?_eq_some he, Option.bind_some, Json.follow?]

/-- The operations of a document have the endpoints of its description. -/
lemma endpoints_of_read (read : Document.read id tree = .ok document) :
    document.operations.map OperationEntry.endpoint = tree.endpoints := by
  obtain ⟨pointer, hp⟩ := exists_of_paths read
  have each : tree.paths.map (fun entry => entry.2.methods.map fun method => (entry.1, method)) =
      document.paths.map fun own => own.2.operations.map fun operation => (own.1, operation.1) := by
    refine map_eq_of_forall₂ _ _ ?_ (Fields.forall₂_of_eachEntry hp)
    rintro ⟨key, value⟩ ⟨_, item⟩ ⟨rfl, hr⟩
    rw [← PathItem.methods_of_read hr, List.map_map]
    rfl
  rw [Json.endpoints, List.flatMap_def, each, ← List.flatMap_def, Document.operations, List.map_flatMap]
  refine congrArg (document.paths.flatMap ·) (funext fun own => ?_)
  rw [List.map_map]
  rfl

variable (distinct : tree.keysDistinct = true)
include distinct

/-- A description without repeated keys has each path once. -/
lemma nodup_keys_paths : (Entries.keys tree.pathEntries).Nodup := by
  unfold Json.pathEntries
  split
  case h_1 entries held => exact (Json.keysDistinct_obj.1 (Json.keysDistinct_follow? distinct held)).1
  case h_2 => exact List.nodup_nil

/-- A description declares each endpoint once. -/
lemma nodup_endpoints : tree.endpoints.Nodup := by
  have keys : (Entries.keys tree.paths).Nodup :=
    (nodup_keys_paths distinct).sublist (List.filter_sublist.map Prod.fst)
  refine List.nodup_flatMap.2 ⟨fun entry _ => ?_, ?_⟩
  · exact (Json.nodup_methods entry.2).map fun method other e => (Prod.mk.inj e).2
  · refine (List.pairwise_map.1 keys).imp fun ne endpoint own other => ne ?_
    obtain ⟨_, -, rfl⟩ := List.mem_map.1 own
    obtain ⟨_, -, e⟩ := List.mem_map.1 other
    exact (Prod.mk.inj e).1.symm

/-- A description that is read has an endpoint for each method of each path that is no extension. -/
lemma mem_endpoints_iff (read : Document.read id tree = .ok document) {path : String} {method : Method} :
    (path, method) ∈ tree.endpoints ↔ ¬ ['x', '-'] <+: path.toList ∧
      ∃ operation, tree.follow? ["paths", path, method.key] = some operation := by
  have extension : (!Fields.isExtension path) = true ↔ ¬ ['x', '-'] <+: path.toList := by
    rw [Bool.not_eq_true', ← Bool.not_eq_true, Fields.isExtension, List.isPrefixOf_iff_prefix]
  have held : ∀ item, (path, item) ∈ tree.pathEntries ↔ Entries.get? path tree.pathEntries = some item :=
    fun item => ⟨Entries.get?_of_mem (nodup_keys_paths distinct), Entries.mem_of_get?⟩
  rw [follow?_path read, ← extension]
  constructor
  · intro h
    obtain ⟨⟨_, item⟩, hi, h⟩ := List.mem_flatMap.1 h
    obtain ⟨_, hm, e⟩ := List.mem_map.1 h
    cases e
    obtain ⟨mem, proper⟩ := List.mem_filter.1 hi
    obtain ⟨operation, ho⟩ := Json.mem_methods.1 hm
    exact ⟨proper, operation, Option.bind_eq_some_iff.2 ⟨item, (held item).1 mem, ho⟩⟩
  · rintro ⟨proper, operation, h⟩
    obtain ⟨item, hi, ho⟩ := Option.bind_eq_some_iff.1 h
    exact List.mem_flatMap.2 ⟨(path, item), List.mem_filter.2 ⟨(held item).2 hi, proper⟩,
      List.mem_map.2 ⟨method, Json.mem_methods.2 ⟨operation, ho⟩, rfl⟩⟩

/-- The operations of a document are grouped by the first tags that its description gives them. -/
lemma group_of_read (read : Document.read id tree = .ok document) {entry : OperationEntry}
    (he : entry ∈ document.operations) : entry.group = tree.firstTag? entry.endpoint := by
  obtain ⟨⟨path, item⟩, hi, he⟩ := List.mem_flatMap.1 he
  obtain ⟨⟨method, operation⟩, ho, rfl⟩ := List.mem_map.1 he
  obtain ⟨value, hv, hr⟩ := readAt_of_paths read distinct hi
  obtain ⟨fields, hf, hr⟩ := PathItem.exists_of_read hr
  obtain ⟨own, hw, hr⟩ := PathItem.readAt_of_readOperations (Fields.standAt_of_ofJson hv hf) hr ho
  have tags : tree.follow? ["paths", path, method.key, "tags"] = own.follow? ["tags"] := by
    rw [show ["paths", path, method.key, "tags"] = ["paths", path, method.key] ++ ["tags"] from rfl,
      Json.follow?_append]
    exact congrArg (·.bind fun middle => middle.follow? ["tags"]) hw
  rw [Json.firstTag?, OperationEntry.endpoint, tags]
  exact Operation.head?_tags_of_read hr

end Document

/-- A described operation has the endpoint of its declaration. -/
lemma Builder.endpoint_of_operation [Spelling] {builder : Builder} {entry : OperationEntry}
    {described : MethodEntry × List Warning} (h : (builder.operation entry).result = .ok described) :
    described.1.endpoint = entry.endpoint :=
  Prod.ext (describes_of_operation h).endpoint.1 (describes_of_operation h).endpoint.2

/-- The groups of a manifest are the endpoints of its description by first tag. -/
lemma Generator.groups_of_version [Spelling] {generator : Generator} {name : String} {tree : Json}
    (distinct : tree.keysDistinct = true) {manifest : VersionManifest} {statistics : Statistics}
    (h : generator.version name tree = .ok (manifest, statistics)) :
    manifest.apis.map (fun api => (api.tag, api.operations.map MethodEntry.endpoint)) =
      (tree.endpoints.map tree.firstTag?).eraseDups.map fun tag =>
        (tag, tree.endpoints.filter fun endpoint => decide (tree.firstTag? endpoint = tag)) := by
  obtain ⟨document, read, -, built⟩ := version_eq_ok_iff.1 h
  obtain ⟨_, _, ha, -⟩ := Builder.build_eq_ok_iff.1 built
  obtain ⟨groups, each, listed, -⟩ := Builder.exists_groups_of_apis ha
  -- The builder keeps the groups of the document, and the document has the endpoints of its description.
  have described : document.operationGroups.map (fun group =>
      (group.1, group.2.map OperationEntry.endpoint)) =
        groups.map fun own => (own.1.tag, own.1.operations.map MethodEntry.endpoint) := by
    refine map_eq_of_forall₂ _ _ (fun group own describes => ?_) each
    have endpoints : group.2.map OperationEntry.endpoint =
        own.2.map fun described => described.1.endpoint :=
      map_eq_of_forall₂ _ _ (fun _ _ made => (Builder.endpoint_of_operation made).symm) describes.each
    rw [describes.tag, describes.operations, List.map_map, endpoints]
    rfl
  have tags : document.operations.map OperationEntry.group = tree.endpoints.map tree.firstTag? := by
    rw [← Document.endpoints_of_read read, List.map_map]
    exact List.map_congr_left fun entry he => Document.group_of_read distinct read he
  have members : ∀ tag, (document.operations.filter fun entry => decide (entry.group = tag)).map
      OperationEntry.endpoint =
        tree.endpoints.filter fun endpoint => decide (tree.firstTag? endpoint = tag) := by
    intro tag
    rw [← Document.endpoints_of_read read, List.filter_map]
    exact congrArg _ (List.filter_congr fun entry he => by
      rw [Document.group_of_read distinct read he]
      rfl)
  calc manifest.apis.map (fun api => (api.tag, api.operations.map MethodEntry.endpoint))
      = document.operationGroups.map fun group => (group.1, group.2.map OperationEntry.endpoint) := by
        rw [listed, List.map_map, described]
        rfl
    _ = (document.operations.map OperationEntry.group).eraseDups.map fun tag => (tag,
          (document.operations.filter fun entry => decide (entry.group = tag)).map
            OperationEntry.endpoint) := by
        rw [Document.operationGroups_eq, Document.grouped, List.map_map]
        rfl
    _ = (tree.endpoints.map tree.firstTag?).eraseDups.map fun tag =>
          (tag, tree.endpoints.filter fun endpoint => decide (tree.firstTag? endpoint = tag)) := by
        rw [tags]
        exact List.map_congr_left fun tag _ => by rw [members]

/-- The operations of a manifest are those of the endpoints of its description: one for each method of each
path that is no extension.  Each is in the group of its first tag.  Groups stand in the order in which the
description comes to them, and so do the operations of each. -/
theorem Generator.version_endpoints [Spelling] {generator : Generator} {name : String} {tree : Json}
    (distinct : tree.keysDistinct = true) {manifest : VersionManifest} {statistics : Statistics}
    (h : generator.version name tree = .ok (manifest, statistics)) :
    (∀ path method, (path, method) ∈ tree.endpoints ↔ ¬ ['x', '-'] <+: path.toList ∧
      ∃ operation, tree.follow? ["paths", path, method.key] = some operation) ∧
    tree.endpoints.Nodup ∧
    ((manifest.apis.flatMap ApiEntry.operations).map MethodEntry.endpoint).Perm tree.endpoints ∧
    (manifest.apis.map ApiEntry.tag).Nodup ∧
    manifest.apis.map ApiEntry.tag = (tree.endpoints.map tree.firstTag?).eraseDups ∧
    ∀ api ∈ manifest.apis, api.operations.map MethodEntry.endpoint =
      tree.endpoints.filter fun endpoint => decide (tree.firstTag? endpoint = api.tag) := by
  obtain ⟨document, read, -⟩ := version_eq_ok_iff.1 h
  have groups := groups_of_version distinct h
  have tags : manifest.apis.map ApiEntry.tag = (tree.endpoints.map tree.firstTag?).eraseDups := by
    have firsts := congrArg (List.map Prod.fst) groups
    rw [List.map_map, List.map_map] at firsts
    exact firsts.trans (List.map_id _)
  refine ⟨fun path method => Document.mem_endpoints_iff distinct read,
    Document.nodup_endpoints distinct, ?_, tags ▸ nodup_eraseDups _, tags, fun api ha => ?_⟩
  · have listed := congrArg (List.flatMap Prod.snd) groups
    rw [List.flatMap_map, List.flatMap_map] at listed
    rw [List.map_flatMap, listed]
    exact flatMap_filter_perm _ (nodup_eraseDups _) fun endpoint he =>
      List.mem_eraseDups.2 (List.mem_map_of_mem he)
  · have mem := groups ▸ List.mem_map_of_mem ha
    obtain ⟨tag, -, e⟩ := List.mem_map.1 mem
    obtain ⟨rfl, members⟩ := Prod.mk.inj e
    exact members.symm

attribute [local instance] Spelling.german

/-- A description of books and loans.  One key is that of an extension, and two operations have no tags. -/
def libraryTree : Json :=
  let operation (tags : List String) : Json :=
    .obj [("tags", .arr (tags.map .str)), ("responses", .obj [])]
  .obj [
    ("openapi", .str "3.0.0"),
    ("info", .obj [("title", .str "Library"), ("version", .str "1")]),
    ("paths", .obj [
      ("/books", .obj [("post", operation ["books"]), ("get", operation ["books", "lists"])]),
      ("x-drafts", .obj [("get", operation ["books"])]),
      ("/status", .obj [("summary", .str "Whether it is open."), ("head", .obj [])]),
      ("/loans", .obj [("get", operation ["loans", "lists"])]),
      ("/books/1", .obj [("delete", operation []), ("get", operation ["books"])])])]

/-- Operations on books are listed together, from two paths, and what stands under the key of the extension is
not among them. -/
theorem Generator.version_endpoints_library :
    libraryTree.keysDistinct = true ∧ ∃ manifest statistics,
      Generator.version ⟨.standard, false⟩ "1" libraryTree = .ok (manifest, statistics) ∧
      manifest.apis.map ApiEntry.tag = [some "books", none, some "loans"] ∧
      ((manifest.apis.flatMap ApiEntry.operations).map MethodEntry.endpoint).Perm
        [("/books", .get), ("/books", .post), ("/status", .head), ("/loans", .get), ("/books/1", .get),
          ("/books/1", .delete)] ∧
      ∀ api ∈ manifest.apis, api.tag = some "books" → api.operations.map MethodEntry.endpoint =
        [("/books", .get), ("/books", .post), ("/books/1", .get)] := by
  have distinct : libraryTree.keysDistinct = true := by decide +kernel
  have run : (Generator.version ⟨.standard, false⟩ "1" libraryTree).toOption.isSome = true := by
    decide +kernel
  have endpoints : libraryTree.endpoints = [("/books", .get), ("/books", .post), ("/status", .head),
      ("/loans", .get), ("/books/1", .get), ("/books/1", .delete)] := by decide +kernel
  have firsts : libraryTree.endpoints.map libraryTree.firstTag? =
      [some "books", some "books", none, some "loans", some "books", none] := by decide +kernel
  have books : (libraryTree.endpoints.filter fun endpoint =>
      decide (libraryTree.firstTag? endpoint = some "books")) =
        [("/books", .get), ("/books", .post), ("/books/1", .get)] := by decide +kernel
  obtain ⟨⟨manifest, statistics⟩, found⟩ := Option.isSome_iff_exists.1 run
  have h := toOption_eq_some.1 found
  obtain ⟨-, -, listed, -, tags, members⟩ := version_endpoints distinct h
  refine ⟨distinct, manifest, statistics, h, ?_, endpoints ▸ listed, fun api ha own => ?_⟩
  · rw [tags, firsts]
    decide
  · rw [members api ha, own, books]

end OpenApiManifest
