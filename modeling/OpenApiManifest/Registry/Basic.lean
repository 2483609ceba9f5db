import OpenApiManifest.Schema.Basic

/-!
# The registry of models

The schemas that need a type of their own, each under the name of its model, in the order in which
they were registered.  A name stands for one schema: registering the same schema again changes
nothing, and registering another one under a name that is taken is an error.
-/

namespace OpenApiManifest

/-- How a model got its name. -/
inductive Origin where
  /-- It is a schema of the components. -/
  | component
  /-- The name is built from the model around it and its position there. -/
  | synthetic
  deriving DecidableEq, Repr

namespace Origin

def key : Origin → String
  | .component => "component"
  | .synthetic => "synthetic"

end Origin

/-- A schema that is registered. -/
structure Registered where
  schema : Schema
  origin : Origin

/-- The registered schemas under the names of their models. -/
structure Registry where
  models : Entries Registered

namespace Registry

def empty : Registry := ⟨[]⟩

def get? (registry : Registry) (name : String) : Option Registered :=
  Entries.get? name registry.models

def contains (registry : Registry) (name : String) : Bool :=
  Entries.has name registry.models

def names (registry : Registry) : List String :=
  registry.models.keys

def size (registry : Registry) : Nat :=
  registry.models.length

/-- Registers a schema under a name.  Says whether it is new there, and gives the registry after
it. -/
def register (registry : Registry) (name : String) (schema : Schema) (origin : Origin) :
    Except ModelError (Bool × Registry) :=
  match registry.get? name with
  | some known =>
    if known.schema.place = schema.place then .ok (false, registry)
    else .error (.ambiguous name known.schema.pointer schema.pointer)
  | none => .ok (true, ⟨registry.models ++ [(name, ⟨schema, origin⟩)]⟩)

end Registry

/-- Whether a schema with a name is emitted as a model: objects, enumerations, choices and
compositions are, arrays if they are listed, and others if they are declared objects. -/
def Schema.isEmitted (listModels : List String) (name : String) (schema : Schema) : Bool :=
  match schema.kind with
  | .object .. | .enum _ | .oneOf _ | .allOf _ => true
  | .array .. => name ∈ listModels
  | .anyOf _ | .primitive .. => schema.info.declaredType = some .object

def Registry.emitted (registry : Registry) (listModels : List String) : Registry :=
  ⟨registry.models.filter fun (name, model) => model.schema.isEmitted listModels name⟩

end OpenApiManifest
