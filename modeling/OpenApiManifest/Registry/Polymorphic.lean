import OpenApiManifest.Document.Resolve

/-!
# Members of the choices inside a model

The names of the models that the choices inside a model are made of: of the model itself, of its
properties, and of the items and values of those.
-/

namespace OpenApiManifest

/-- What a search for choices has come by: the names of the schemas that were entered, and the names
of members. -/
structure ChoiceSearch where
  entered : List String
  members : List String

namespace ChoiceSearch

/-- The name that a member of a choice contributes: its own if it is an object or listed, and that of
its items if it is another array. -/
def contribution (document : Document) (listModels : List String) (slot : SchemaSlot) :
    Run (Option String) := do
  let member ← slot.resolve document
  let isObject := decide ((member.type?.getD .object) = .object)
  let isListed := member.name?.any fun name => decide (name ∈ listModels)
  if isObject || isListed then return member.name?
  else
    match member.items? with
    | some items => return (← items.resolve document).name?
    | none => return none

/-- Adds what the members of a schema contribute, if it is a choice. -/
def addMembers (document : Document) (listModels : List String) (schema : Schema)
    (search : ChoiceSearch) : Run ChoiceSearch :=
  match schema.kind with
  | .oneOf members =>
    members.foldlM (fun search slot => do
      match ← contribution document listModels slot with
      | some name => return { search with members := OrderedSet.add name search.members }
      | none => return search) search
  | _ => return search

/-- Enters a schema, unless one of its name was entered before. -/
def enter (document : Document) (listModels : List String) :
    Nat → Schema → ChoiceSearch → Run ChoiceSearch
  | 0, _, _ => .outOfSteps
  | steps + 1, schema, search => do
    if schema.name?.any fun name => decide (name ∈ search.entered) then return search
    let search := { search with entered := search.entered ++ schema.name?.toList }
    let search ← addMembers document listModels schema search
    match schema.properties? with
    | none => return search
    | some properties =>
      properties.values.foldlM (fun search slot => do
        let property ← slot.resolve document
        let search ← enter document listModels steps property search
        -- Items and values are entered also where the property itself was entered before.
        let search ← match property.items? with
          | some items => do
            enter document listModels steps (← items.resolve document) search
          | none => pure search
        match property.additional? with
        | some value => do
          enter document listModels steps (← value.resolve document) search
        | none => return search) search

end ChoiceSearch

/-- The names of the members of the choices inside a model, other than the name of the model, in the
order in which they are first met. -/
def Schema.choiceMembers (document : Document) (listModels : List String) (schema : Schema)
    (name : String) : Run (List String) := do
  let search ← ChoiceSearch.enter document listModels (document.steps schema.size) schema ⟨[], []⟩
  return OrderedSet.erase name search.members

end OpenApiManifest
