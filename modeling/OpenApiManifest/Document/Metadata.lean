import OpenApiManifest.Reference

/-!
# Metadata of a document

What a document says about itself and its surroundings: its title and version, its servers, its tags,
pointers to further documentation, and the security that it asks for.
-/

namespace OpenApiManifest

/-- Whom to ask about a document. -/
structure Contact where
  name : Option String
  url : Option String
  email : Option String
  deriving DecidableEq, Repr

namespace Contact

def read (value : Json) (pointer : String) : Except ModelError Contact := do
  let fields ← Fields.ofJson value pointer
  return {
    name := ← fields.string? "name"
    url := ← fields.string? "url"
    email := ← fields.string? "email" }

end Contact

/-- Title, version and contact of a document. -/
structure Info where
  title : String
  version : String
  description : Option String
  contact : Option Contact
  deriving DecidableEq, Repr

namespace Info

/-- Reads the title, version and contact of a document. -/
def read (value : Json) (pointer : String) : Except ModelError Info := do
  let fields ← Fields.ofJson value pointer
  let contact ← fields.optional "contact" Contact.read
  return {
    title := ← fields.string "title"
    version := ← fields.string "version"
    description := ← fields.string? "description"
    contact }

end Info

/-- A variable of the address of a server. -/
structure ServerVariable where
  default : String
  values : List String
  description : Option String
  deriving DecidableEq, Repr

namespace ServerVariable

def read (value : Json) (pointer : String) : Except ModelError ServerVariable := do
  let fields ← Fields.ofJson value pointer
  return {
    default := ← fields.string "default"
    values := ← fields.strings "enum"
    description := ← fields.string? "description" }

end ServerVariable

/-- A server that answers the operations of a document. -/
structure Server where
  url : String
  description : Option String
  placeholders : Entries ServerVariable
  deriving DecidableEq, Repr

namespace Server

def read (value : Json) (pointer : String) : Except ModelError Server := do
  let fields ← Fields.ofJson value pointer
  let placeholders ← fields.table "variables" fun _ => ServerVariable.read
  return {
    url := ← fields.string "url"
    description := ← fields.string? "description"
    placeholders }

def readAll (fields : Fields) : Except ModelError (List Server) :=
  fields.items "servers" read

end Server

/-- Security schemes that are needed together, each with the scopes that it needs. -/
abbrev SecurityRequirement := Entries (List String)

namespace SecurityRequirement

def readScopes (fields : Fields) : List (String × Json) →
    Except ModelError SecurityRequirement
  | [] => .ok []
  | (scheme, _) :: rest => do
    let scopes ← fields.strings scheme
    let others ← readScopes fields rest
    return (scheme, scopes) :: others

def read (value : Json) (pointer : String) : Except ModelError SecurityRequirement := do
  let fields ← Fields.ofJson value pointer
  readScopes fields fields.entries

/-- Reads the requirements of an object, which differ from no requirements when they are absent. -/
def readAll (fields : Fields) : Except ModelError (Option (List SecurityRequirement)) := do
  match ← fields.array? "security" with
  | none => return none
  | some values => return some (← Fields.eachItem read (fields.childPointer "security") 0 values)

end SecurityRequirement

/-- Where further documentation is found. -/
structure ExternalDocs where
  url : String
  description : Option String
  deriving DecidableEq, Repr

namespace ExternalDocs

def read (value : Json) (pointer : String) : Except ModelError ExternalDocs := do
  let fields ← Fields.ofJson value pointer
  return {
    url := ← fields.string "url"
    description := ← fields.string? "description" }

/-- Reads the pointer to further documentation of an object. -/
def readField (fields : Fields) : Except ModelError (Option ExternalDocs) :=
  fields.optional "externalDocs" read

end ExternalDocs

/-- A tag that groups operations. -/
structure Tag where
  name : String
  description : Option String
  externalDocs : Option ExternalDocs
  deriving DecidableEq, Repr

namespace Tag

def read (value : Json) (pointer : String) : Except ModelError Tag := do
  let fields ← Fields.ofJson value pointer
  return {
    name := ← fields.string "name"
    description := ← fields.string? "description"
    externalDocs := ← ExternalDocs.readField fields }

end Tag

end OpenApiManifest
