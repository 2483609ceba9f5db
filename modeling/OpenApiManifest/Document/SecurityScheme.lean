import OpenApiManifest.Reference

/-!
# Security schemes

A way to prove who is calling.  The flows of a scheme are kept as they are.
-/

namespace OpenApiManifest

/-- A security scheme. -/
structure SecurityScheme where
  type : String
  description : Option String
  name : Option String
  location : Option String
  scheme : Option String
  bearerFormat : Option String
  flows : Option Json
  openIdConnectUrl : Option String

namespace SecurityScheme

/-- Reads a scheme from the fields of its object. -/
def readFields (fields : Fields) : Except ModelError SecurityScheme := do
  return {
    type := ← fields.string "type"
    description := ← fields.string? "description"
    name := ← fields.string? "name"
    location := ← fields.string? "in"
    scheme := ← fields.string? "scheme"
    bearerFormat := ← fields.string? "bearerFormat"
    flows := fields.get? "flows"
    openIdConnectUrl := ← fields.string? "openIdConnectUrl" }

/-- Reads a scheme or a reference to one. -/
def read (document : DocumentId) (value : Json) (pointer : String) :
    Except ModelError (Slot SecurityScheme) :=
  Slot.read document value pointer readFields

end SecurityScheme

end OpenApiManifest
