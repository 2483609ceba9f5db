import OpenApiManifest.Document.Resolve
import OpenApiManifest.Naming
import OpenApiManifest.Registry.Basic

/-!
# Collecting models

A walk starts at a root and registers every schema on its way that needs a type of its own.  The
schemas of the components are registered under their names; nameless schemas that need a name take it
from the position at which they stand.  A schema is descended into only when it is registered for the
first time, which is also what ends walks in circles.
-/

namespace OpenApiManifest

/-- Which schemas a walk registers. -/
structure WalkOptions where
  /-- Whether to go on into the schemas that are registered on the way. -/
  recursive : Bool
  /-- Whether to register the root itself, if it has a name. -/
  includeRoot : Bool
  deriving DecidableEq, Repr

namespace WalkOptions

def everything : WalkOptions := ⟨true, true⟩

end WalkOptions

/-- The outcome of a part of a walk.  What was registered before an error stays registered. -/
structure Visit (α : Type) where
  registry : Registry
  found : List Found
  result : Except Halt α

/-- A part of a walk, which goes on with the registry that was filled before it. -/
def Walk (α : Type) := Registry → Visit α

namespace Walk

variable {α β : Type}

/-- Goes on with the result of a part of a walk. -/
def andThen (walk : Walk α) (next : α → Walk β) : Walk β := fun registry =>
  let visit := walk registry
  match visit.result with
  | .ok value =>
    let rest := next value visit.registry
    ⟨rest.registry, visit.found ++ rest.found, rest.result⟩
  | .error halt => ⟨visit.registry, visit.found, .error halt⟩

instance : Monad Walk where
  pure value := fun registry => ⟨registry, [], .ok value⟩
  bind := andThen

def follow (run : Run α) : Walk α := fun registry =>
  ⟨registry, run.found, run.result⟩

def fail (cause : ModelError) : Walk α :=
  follow (.fail cause)

/-- Registers a schema, and says whether it is new. -/
def register (name : String) (schema : Schema) (origin : Origin) : Walk Bool := fun registry =>
  match registry.register name schema origin with
  | .ok (new, after) => ⟨after, [], .ok new⟩
  | .error cause => ⟨registry, [], .error (.error cause)⟩

/-- A walk that only gives a value leaves the registry as it is. -/
@[simp] theorem pure_apply (value : α) (registry : Registry) :
    (pure value : Walk α) registry = ⟨registry, [], .ok value⟩ := rfl

/-- Following references leaves the registry as it is. -/
@[simp] theorem follow_apply (run : Run α) (registry : Registry) :
    follow run registry = ⟨registry, run.found, run.result⟩ := rfl

/-- A walk in two parts that succeeds has a first part that succeeds, and ends where the second part
ends that starts from there. -/
theorem exists_of_bind_ok {walk : Walk α} {next : α → Walk β} {registry : Registry} {value : β}
    (h : ((walk >>= next) registry).result = .ok value) :
    ∃ middle, (walk registry).result = .ok middle ∧
      (next middle (walk registry).registry).result = .ok value ∧
      ((walk >>= next) registry).registry = (next middle (walk registry).registry).registry := by
  change (andThen walk next registry).result = _ at h
  change ∃ middle, _ ∧ _ ∧ (andThen walk next registry).registry = _
  unfold andThen at h ⊢
  cases hw : (walk registry).result with
  | error halt => simp [hw] at h
  | ok middle => exact ⟨middle, rfl, by simpa [hw] using h, by simp [hw]⟩

end Walk

section Visits

variable [Spelling] (document : Document) (options : WalkOptions)

mutual
/-- Visits a position.  `candidate` is the name for the schema there, should it be nameless and need
one; `owner` is the model that the position belongs to. -/
def visitChild : Nat → SchemaSlot → Option String → Option String → Walk Unit
  | 0, _, _, _ => .follow .outOfSteps
  | steps + 1, slot, candidate, owner => do
    let schema ← Walk.follow (slot.resolve document)
    match schema.name? with
    | some name =>
      if (← Walk.register name schema .component) && options.recursive then
        descend steps schema (some name)
    | none => visitNameless steps schema candidate owner

def visitNameless : Nat → Schema → Option String → Option String → Walk Unit
  | 0, _, _, _ => .follow .outOfSteps
  | steps + 1, schema, candidate, owner =>
    match schema.kind with
    | .allOf [member] => visitChild steps member candidate owner
    | .primitive .. => return
    | .array items _ _ => visitChild steps items candidate owner
    | .enum _ =>
      match candidate, owner with
      | some name, _ => do
        let _ ← Walk.register name schema .synthetic
      | none, some owner => .fail (.malformed schema.pointer (.namelessEnum owner))
      | none, none => return
    | _ =>
      if schema.wantsName then
        match candidate with
        | some name => do
          if (← Walk.register name schema .synthetic) && options.recursive then
            descend steps schema (some name)
        | none => if options.recursive then descend steps schema none else return
      else if options.recursive then descend steps schema candidate
      else return

/-- Visits what stands inside a schema.  `context` is the name from which nameless schemas inside it
take theirs. -/
def descend : Nat → Schema → Option String → Walk Unit
  | 0, _, _ => .follow .outOfSteps
  | steps + 1, schema, context =>
    match schema.kind with
    | .object properties _ additional => do
      properties.forM fun (property, slot) =>
        visitChild steps slot (context.map (Naming.syntheticName · property)) context
      match additional.slot? with
      | some slot => visitChild steps slot none context
      | none => return
    | .array items _ _ => visitChild steps items (context.map Naming.itemName) context
    | .allOf members => members.forM fun slot => visitMember steps slot context
    | .oneOf members | .anyOf members => members.forM fun slot => visitMember steps slot none
    | .enum _ | .primitive .. => return

/-- Visits a member of a choice or composition, which never takes a name from its position.  The
properties of a nameless member belong to `context`. -/
def visitMember : Nat → SchemaSlot → Option String → Walk Unit
  | 0, _, _ => .follow .outOfSteps
  | steps + 1, slot, context => do
    let schema ← Walk.follow (slot.resolve document)
    match schema.name? with
    | some name =>
      if (← Walk.register name schema .component) && options.recursive then
        descend steps schema (some name)
    | none =>
      if options.recursive then
        match schema.kind with
        | .object .. | .oneOf _ | .allOf _ | .anyOf _ => descend steps schema context
        | .array items _ _ => visitChild steps items none none
        | .enum _ | .primitive .. => return
end

/-- Walks from a schema.  A root with a name is registered if the options say so, and descended into
unless it was registered before. -/
def walkSchema (schema : Schema) : Walk Unit := do
  let steps := document.steps schema.size
  match schema.name? with
  | none => visitNameless document options steps schema none none
  | some name =>
    if options.includeRoot then
      if ← Walk.register name schema .component then
        descend document options steps schema (some name)
    -- A root that is left out here is registered after all if the walk leads back to it.
    else descend document options steps schema (some name)

def walkSlot (slot : SchemaSlot) : Walk Unit := do
  walkSchema document options (← Walk.follow (slot.resolve document))

def walkParameter (parameter : Parameter) : Walk Unit :=
  match parameter.schema with
  | some slot => walkSlot document options slot
  | none => return

def walkParameters (slots : List (Slot Parameter)) : Walk Unit :=
  slots.forM fun slot => do
    walkParameter document options (← Walk.follow (slot.resolve document))

def walkContent (content : Entries MediaType) : Walk Unit :=
  (MediaType.schemas content).forM (walkSlot document options)

/-- Walks from the parameters, the body and the responses of an operation. -/
def walkOperation (operation : Operation) : Walk Unit := do
  walkParameters document options operation.parameters
  match operation.requestBody with
  | some body => walkContent document options body.content
  | none => pure ()
  operation.responses.values.forM fun slot => do
    let response ← Walk.follow (slot.resolve document)
    walkContent document options response.content

/-- Walks from the parameters and the operations of a path. -/
def walkPathItem (item : PathItem) : Walk Unit := do
  walkParameters document options item.parameters
  item.operations.forM fun (_, operation) => walkOperation document options operation

end Visits

/-- What a walk can start from. -/
inductive WalkRoot where
  | slot (slot : SchemaSlot)
  | schema (schema : Schema)
  | parameter (parameter : Parameter)
  | operation (operation : Operation)
  | pathItem (item : PathItem)
  /-- All schemas of the components of the document. -/
  | components
  /-- All paths of the document. -/
  | paths

/-- Registers the schemas that are reached from a root. -/
def WalkRoot.walk [Spelling] (document : Document) (options : WalkOptions) : WalkRoot → Walk Unit
  | .slot s => walkSlot document options s
  | .schema s => walkSchema document options s
  | .parameter p => walkParameter document options p
  | .operation o => walkOperation document options o
  | .pathItem p => walkPathItem document options p
  | .components => document.components.schemas.values.forM (walkSlot document options)
  | .paths => document.paths.values.forM (walkPathItem document options)

end OpenApiManifest
