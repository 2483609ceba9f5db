import OpenApiManifest.Document.Printer
import OpenApiManifest.Manifest.Basic

/-!
# Writing the manifest

The manifest as a value of a document.  Fields that say nothing are left out.
-/

namespace OpenApiManifest

def TypeRef.toJson (type : TypeRef) : Json :=
  .str type.write

/-- A list that is there only if it is not empty. -/
def Json.listField (key : String) (items : List Json) : List (String × Json) :=
  if items.isEmpty then [] else [(key, .arr items)]

/-- A table that is there only if it is not empty. -/
def Json.tableField (key : String) (fields : List (String × Json)) : List (String × Json) :=
  if fields.isEmpty then [] else [(key, .obj fields)]

def ParameterEntry.toJson (p : ParameterEntry) : Json :=
  .obj ([("name", .str p.name), ("attribute", .str p.attributeName),
      ("location", .str p.location.key), ("required", .bool p.required), ("type", p.type.toJson)]
    ++ Json.field? "collection_format" (fun f => .str f.key) p.collectionFormat
    ++ Json.field? "description" .str p.description
    ++ Json.field? "default" id p.default)

def MethodEntry.toJson (m : MethodEntry) : Json :=
  .obj ([("operation_id", .str m.operationId), ("method_name", .str m.methodName),
      ("method", .str m.method.name), ("path", .str m.path)]
    ++ Json.field? "summary" .str m.summary
    ++ Json.field? "description" .str m.description
    ++ [("deprecated", .bool m.deprecated),
      ("parameters", .arr (m.parameters.map ParameterEntry.toJson)),
      ("accept", Json.ofTexts m.accept),
      ("return_type", (m.returnType.map TypeRef.toJson).getD .null)])

def ApiEntry.toJson (a : ApiEntry) : Json :=
  .obj (("tag", Json.ofText? a.tag)
    :: (Json.field? "description" .str a.description
      ++ [("module", .str a.moduleName), ("class_name", .str a.className),
        ("operations", .arr (a.operations.map MethodEntry.toJson))]))

def PropertyEntry.toJson (p : PropertyEntry) : Json :=
  .obj ([("attribute", .str p.attributeName), ("type", p.type.toJson), ("required", .bool p.required)]
    ++ Json.field? "description" .str p.description
    ++ Json.field? "default" id p.default)

def ModelEntry.toJson (m : ModelEntry) : Json :=
  .obj ([("kind", .str m.kind.key), ("module", .str m.moduleName), ("origin", .str m.origin.key),
      ("type", m.type.toJson)]
    ++ Json.field? "description" .str m.description
    ++ Json.tableField "properties" (m.properties.map fun (name, p) => (name, p.toJson))
    ++ Json.field? "additional_properties" TypeRef.toJson m.additionalProperties
    ++ Json.listField "enum" (m.enumValues.map EnumValue.toJson)
    ++ Json.listField "one_of" (m.oneOf.map TypeRef.toJson)
    ++ Json.tableField "union_parameters"
      (m.unionParameters.map fun (name, type) => (name, type.toJson))
    ++ [("references", Json.ofTexts m.references)]
    ++ Json.listField "polymorphic_members" (m.choiceMembers.map .str)
    ++ Json.field? "default" id m.default)

def VersionManifest.toJson (v : VersionManifest) : Json :=
  .obj (("info", v.info.toJson)
    :: (Json.listField "servers" (v.servers.map Server.toJson)
      ++ [("apis", .arr (v.apis.map ApiEntry.toJson)),
        ("models", .obj (v.models.map fun (name, m) => (name, m.toJson)))]
      ++ Json.listField "cycles" (v.cycles.map Json.ofTexts)))

def Manifest.toJson (manifest : Manifest) : Json :=
  .obj [("versions", .obj (manifest.versions.map fun (name, v) => (name, v.toJson)))]

end OpenApiManifest
