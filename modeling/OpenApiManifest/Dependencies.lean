import OpenApiManifest.Document.Basic

/-!
# Dependencies among components

Which component schemas each component schema refers to, read off the references without following
them, and the groups of schemas that reach one another.
-/

namespace OpenApiManifest

namespace Schema

mutual
/-- The names that a schema refers to, in the order in which they stand in it, with repetitions. -/
def references : Schema → List String
  | ⟨_, .primitive _ _⟩ => []
  | ⟨_, .array items _ _⟩ => slotReferences items
  | ⟨_, .object properties _ additional⟩ =>
    propertiesReferences properties ++ additionalReferences additional
  | ⟨_, .enum _⟩ => []
  | ⟨_, .oneOf members⟩ => membersReferences members
  | ⟨_, .allOf members⟩ => membersReferences members
  | ⟨_, .anyOf members⟩ => membersReferences members

def slotReferences : Slot Schema → List String
  | .owned schema => references schema
  | .ref reference => [reference.name]

def membersReferences : List (Slot Schema) → List String
  | [] => []
  | slot :: rest => slotReferences slot ++ membersReferences rest

def propertiesReferences : List (String × Slot Schema) → List String
  | [] => []
  | (_, slot) :: rest => slotReferences slot ++ propertiesReferences rest

/-- The names that the schema of additional properties refers to. -/
def additionalReferences : AdditionalProperties (Slot Schema) → List String
  | .absent => []
  | .allowed _ => []
  | .schema slot => slotReferences slot
end

end Schema

/-- For each name the distinct names that it depends on. -/
structure Dependencies where
  entries : Entries (List String)

namespace Dependencies

/-- The dependencies among the component schemas of a document. -/
def ofDocument (document : Document) : Dependencies :=
  ⟨document.components.schemas.map fun (name, slot) =>
    (name, OrderedSet.ofList (Schema.slotReferences slot))⟩

/-- What a name depends on, if it is that of a component schema. -/
def of? (dependencies : Dependencies) (name : String) : Option (List String) :=
  Entries.get? name dependencies.entries

def of (dependencies : Dependencies) (name : String) : List String :=
  (dependencies.of? name).getD []

def edges (dependencies : Dependencies) : Nat :=
  dependencies.entries.values.foldl (fun count names => count + names.length) 0

/-- The names that are reached from pending ones, after those reached before. -/
def explore (dependencies : Dependencies) : Nat → List String → List String → List String
  | 0, _, reached => reached
  | _ + 1, [], reached => reached
  | steps + 1, name :: pending, reached =>
    -- A name is expanded once, so each dependency is pending at most once.
    if name ∈ reached then explore dependencies steps pending reached
    else explore dependencies steps (dependencies.of name ++ pending) (reached ++ [name])

/-- The names that are reached from a name over one dependency or more. -/
def reachable (dependencies : Dependencies) (name : String) : List String :=
  let first := dependencies.of name
  explore dependencies (first.length + dependencies.edges) first []

/-- The names that a name reaches and that reach it; none if it does not reach itself. -/
def group (reached : Entries (List String)) (name : String) : List String :=
  let ofName := (Entries.get? name reached).getD []
  if name ∈ ofName then
    ofName.filter fun other => name ∈ (Entries.get? other reached).getD []
  else []

def sortNames (names : List String) : List String :=
  names.mergeSort fun a b => !decide (b < a)

/-- The groups of names that reach one another.  The names of a group are sorted, and so are the
groups: each is listed for the first of its names. -/
def cycles (dependencies : Dependencies) : List (List String) :=
  let names := Entries.keys dependencies.entries
  let reached := names.map fun name => (name, dependencies.reachable name)
  (sortNames names).filterMap fun name =>
    let members := sortNames (group reached name)
    if members.head? = some name then some members else none

end Dependencies

end OpenApiManifest
