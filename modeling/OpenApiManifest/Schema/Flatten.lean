import OpenApiManifest.Document.Resolve

/-!
# Flattening compositions

The property set that a composition of several members stands for.  Members are merged in the order
in which they are declared: a property that is declared again keeps its position and takes the later
schema, the required names add up, and the first word on additional properties counts.  A named
schema that is being expanded already is passed over, so the merge ends also on circles.
-/

namespace OpenApiManifest

/-- The merged properties of a composition. -/
structure Flattened where
  properties : Entries SchemaSlot
  required : List String
  additional : Option (AdditionalProperties SchemaSlot)
  /-- The named schema that declared a property last.  A property of a nameless member belongs to the
  nearest named schema around it. -/
  declaredIn : Entries String

namespace Flattened

def empty : Flattened := ⟨[], [], none, []⟩

def requires (flattened : Flattened) (property : String) : Bool :=
  property ∈ flattened.required

def declaring? (flattened : Flattened) (property : String) : Option String :=
  Entries.get? property flattened.declaredIn

/-- Adds a property that is declared on behalf of an owner. -/
def addProperty (owner : Option String) (flattened : Flattened) (property : String × SchemaSlot) :
    Flattened :=
  { flattened with
    properties := Entries.put property.1 property.2 flattened.properties
    declaredIn :=
      -- Without an owner an earlier declaration of the property is forgotten.
      match owner with
      | some name => Entries.put property.1 name flattened.declaredIn
      | none => Entries.erase property.1 flattened.declaredIn }

/-- Adds what an object declares on behalf of an owner. -/
def addObject (flattened : Flattened) (owner : Option String) (properties : Entries SchemaSlot)
    (required : List String) (additional : AdditionalProperties SchemaSlot) : Flattened :=
  let merged := properties.foldl (addProperty owner) flattened
  { merged with
    required := OrderedSet.addAll required merged.required
    additional :=
      match merged.additional, additional with
      | some first, _ => some first
      | none, .absent => none
      | none, other => some other }

/-- Merges a schema into what was merged before.  `expanding` holds the names of the schemas that are
being expanded. -/
def merge (document : Document) :
    Nat → List String → Option String → Schema → Flattened → Run Flattened
  | 0, _, _, _, _ => .outOfSteps
  | steps + 1, expanding, owner, schema, merged =>
    match schema.kind with
    | .allOf members =>
      members.foldlM (fun merged slot => do
        let member ← slot.resolve document
        match member.name? with
        | none => merge document steps expanding owner member merged
        | some name =>
          if name ∈ expanding then return merged
          else merge document steps (name :: expanding) (some name) member merged) merged
    | .object properties required additional =>
      return merged.addObject owner properties required additional
    | _ => return merged

end Flattened

/-- The merged properties of a schema: those of its members, and for an object its own. -/
def Schema.flatten (document : Document) (schema : Schema) : Run Flattened :=
  Flattened.merge document (document.steps schema.size) schema.name?.toList schema.name? schema .empty

end OpenApiManifest
