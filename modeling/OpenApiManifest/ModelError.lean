import OpenApiManifest.Json.Basic

/-!
# Errors of a model

What can go wrong while a document is turned into a model and while the model is walked.  The causes
are told apart by their constructors; their wording stands in one place each.
-/

namespace OpenApiManifest

/-- The sections of the components of a document that references can point into. -/
inductive ComponentSection where
  | schemas | parameters | responses | securitySchemes
  deriving DecidableEq, Repr

namespace ComponentSection

def key : ComponentSection → String
  | .schemas => "schemas"
  | .parameters => "parameters"
  | .responses => "responses"
  | .securitySchemes => "securitySchemes"

/-- How an entry of a section is called in a message. -/
def label : ComponentSection → String
  | .schemas => "schema"
  | .parameters => "parameter"
  | .responses => "response"
  | .securitySchemes => "security scheme"

def ofKey? (key : String) : Option ComponentSection :=
  [schemas, parameters, responses, securitySchemes].find? fun s => decide (s.key = key)

/-- A key names a section exactly when it is that section's key. -/
theorem ofKey?_eq_some_iff {key : String} {s : ComponentSection} :
    ofKey? key = some s ↔ s.key = key := by
  constructor
  · intro h
    have := List.find?_some h
    simpa using this
  · rintro rfl
    cases s <;> decide

end ComponentSection

/-- What a position of a document may hold. -/
inductive Shape where
  | object | string | boolean | number | nonNegativeInteger | array
  | stringOrArray | typeName | booleanOrSchema
  deriving DecidableEq, Repr

namespace Shape

/-- How a shape is called in a message. -/
def describe : Shape → String
  | .object => "an object"
  | .string => "a string"
  | .boolean => "a boolean"
  | .number => "a number"
  | .nonNegativeInteger => "a non-negative integer"
  | .array => "an array"
  | .stringOrArray => "a string or an array"
  | .typeName => "a type name"
  | .booleanOrSchema => "a boolean or a schema"

end Shape

/-- Why a document cannot be turned into a model. -/
inductive Malformation where
  | unexpected (expected : Shape) (found : JsonKind)
  | missingField (key : String)
  | unsupportedVersion (version : String)
  | referenceWithoutSection (reference : String)
  | referenceWithEmptySegment (reference : String)
  | unknownType (name : String)
  | severalTypes
  | membersNotArray (key : String)
  | enumNotArray
  | enumMember (found : JsonKind)
  | arrayWithoutItems
  | unknownLocation (location : String)
  | pathItemReference
  | requestBodyReference
  | namelessEnum (owner : String)
  deriving DecidableEq, Repr

namespace Malformation

def message : Malformation → String
  | .unexpected expected found =>
    "expected " ++ expected.describe ++ ", found " ++ found.describe
  | .missingField key => "missing required field '" ++ key ++ "'"
  | .unsupportedVersion version =>
    "unsupported OpenAPI version '" ++ version ++ "', expected 3.x"
  | .referenceWithoutSection reference =>
    "'$ref' value '" ++ reference ++ "' does not name a component section"
  | .referenceWithEmptySegment reference =>
    "'$ref' value '" ++ reference ++ "' has an empty segment"
  | .unknownType name => "unknown schema type '" ++ name ++ "'"
  | .severalTypes => "multiple non-null types in one schema are not supported"
  | .membersNotArray key => "'" ++ key ++ "' must be an array of schemas"
  | .enumNotArray => "'enum' must be an array"
  | .enumMember found => "enum members must be strings or numbers, found " ++ found.describe
  | .arrayWithoutItems => "array schema without 'items'"
  | .unknownLocation location => "unknown parameter location '" ++ location ++ "'"
  | .pathItemReference => "path item references are not supported"
  | .requestBodyReference =>
    "request bodies cannot be references; only schemas, parameters, responses and security schemes are"
  | .namelessEnum owner =>
    "anonymous enum inside '" ++ owner ++ "' has no position to take a model name from"

end Malformation

/-- How many references in a row are followed before a chain is given up. -/
def maxAliasHops : Nat := 32

/-- Why a reference leads nowhere. -/
inductive Dangling where
  | wrongSection (found expected : ComponentSection)
  | unknownSection (name : String)
  | noEntry (within : ComponentSection) (name : String)
  | endlessChain
  /-- No entry stands where an earlier look-up found one. -/
  | vanished
  deriving DecidableEq, Repr

namespace Dangling

def message : Dangling → String
  | .wrongSection found expected =>
    "section '" ++ found.key ++ "' cannot be used where a " ++ expected.label ++ " is expected"
  | .unknownSection name => "unknown component section '" ++ name ++ "'"
  | .noEntry within name =>
    "no " ++ within.label ++ " named '" ++ name ++ "' in components." ++ within.key
  | .endlessChain => "alias chain exceeds " ++ Nat.repr maxAliasHops ++ " hops"
  | .vanished => "memoized target vanished"

end Dangling

/-- An error that ends the work on a document. -/
inductive ModelError where
  /-- The document does not have the shape that a model needs, at the given pointer. -/
  | malformed (pointer : String) (cause : Malformation)
  /-- A reference, given by its text, names nothing that exists. -/
  | unresolved (reference : String) (cause : Dangling)
  /-- Two schemas, given by their pointers, claim one model name. -/
  | ambiguous (name first second : String)
  /-- A reference, given by its text, was looked up in a document that it was not read from. -/
  | foreign (reference : String)
  deriving DecidableEq, Repr

namespace ModelError

def message : ModelError → String
  | .malformed pointer cause => "malformed document at '" ++ pointer ++ "': " ++ cause.message
  | .unresolved reference cause =>
    "unresolved reference '" ++ reference ++ "': " ++ cause.message
  | .ambiguous name first second =>
    "ambiguous model name '" ++ name ++ "': " ++ first ++ " collides with " ++ second
  | .foreign reference => "reference '" ++ reference ++ "' does not belong to this document"

/-- The pointer that an error is attached to, when it has one. -/
def pointer? : ModelError → Option String
  | .malformed pointer _ => some pointer
  | _ => none

end ModelError

end OpenApiManifest
