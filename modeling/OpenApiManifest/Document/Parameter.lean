import OpenApiManifest.Schema.Reader

/-!
# Parameters

A parameter of an operation: where it travels, how its value is laid out, and what its value is.
-/

namespace OpenApiManifest

/-- Where a parameter travels.  Bodies and forms occur only for parameters that are made from the
body of a request, unless a document declares them. -/
inductive ParameterLocation where
  | query | header | path | cookie | body | form
  deriving DecidableEq, Repr

/-- How the value of a parameter is laid out; any text may stand for a style. -/
inductive ParameterStyle where
  | matrix | label | form | simple | spaceDelimited | pipeDelimited | deepObject
  | other (text : String)
  deriving DecidableEq, Repr

namespace ParameterStyle

def key : ParameterStyle → String
  | .matrix => "matrix"
  | .label => "label"
  | .form => "form"
  | .simple => "simple"
  | .spaceDelimited => "spaceDelimited"
  | .pipeDelimited => "pipeDelimited"
  | .deepObject => "deepObject"
  | .other text => text

def named : List ParameterStyle :=
  [.matrix, .label, .form, .simple, .spaceDelimited, .pipeDelimited, .deepObject]

/-- The style that is written in some way. -/
def ofKey (text : String) : ParameterStyle :=
  match named.find? fun style => decide (style.key = text) with
  | some style => style
  | none => .other text

def isNamed (style : ParameterStyle) : Bool :=
  style ∈ named

end ParameterStyle

namespace ParameterLocation

def key : ParameterLocation → String
  | .query => "query"
  | .header => "header"
  | .path => "path"
  | .cookie => "cookie"
  | .body => "body"
  | .form => "form"

/-- The location that is written in some way. -/
def ofKey? (key : String) : Option ParameterLocation :=
  [query, header, path, cookie, body, form].find? fun l => decide (l.key = key)

/-- The style of a parameter that declares none. -/
def defaultStyle : ParameterLocation → ParameterStyle
  | .query | .cookie | .body | .form => .form
  | .path | .header => .simple

end ParameterLocation

/-- How an array travels: as one value with commas, or as a value for each item. -/
inductive CollectionFormat where
  | csv | multi
  deriving DecidableEq, Repr

namespace CollectionFormat

def key : CollectionFormat → String
  | .csv => "csv"
  | .multi => "multi"

/-- The format of an array at a location.  A style that is not given is that of the location, and
without a word on it exactly the form style explodes; commas are used by the form style that does
not. -/
def ofStyle (location : ParameterLocation) (style : Option ParameterStyle) (explode : Option Bool) :
    CollectionFormat :=
  let style := style.getD location.defaultStyle
  let explode := explode.getD (style = .form)
  if style = .form ∧ explode = false then .csv else .multi

end CollectionFormat

/-- A parameter of an operation. -/
structure Parameter where
  name : String
  location : ParameterLocation
  description : Option String
  required : Bool
  deprecated : Bool
  schema : Option SchemaSlot
  style : Option ParameterStyle
  explode : Option Bool
  sample : Option Json
  extensions : Entries Json

namespace Parameter

/-- Reads a parameter from the fields of its object. -/
def readFields (document : DocumentId) (fields : Fields) : Except ModelError Parameter := do
  let written ← fields.string "in"
  let location ← match ParameterLocation.ofKey? written with
    | some location => .ok location
    | none => .error (.malformed (fields.childPointer "in") (.unknownLocation written))
  let schema ← fields.optional "schema" (Schema.read document none)
  return {
    name := ← fields.string "name"
    location
    description := ← fields.string? "description"
    required := ← fields.flag "required"
    deprecated := ← fields.flag "deprecated"
    schema
    style := (← fields.string? "style").map ParameterStyle.ofKey
    explode := ← fields.bool? "explode"
    sample := fields.get? "example"
    extensions := fields.extensions }

/-- Reads a parameter or a reference to one. -/
def read (document : DocumentId) (value : Json) (pointer : String) :
    Except ModelError (Slot Parameter) :=
  Slot.read document value pointer (readFields document)

def readAll (document : DocumentId) (fields : Fields) :
    Except ModelError (List (Slot Parameter)) :=
  fields.items "parameters" (read document)

end Parameter

end OpenApiManifest
