import OpenApiManifest.Document.Basic
import OpenApiManifest.Schema.Printer

/-!
# Writing metadata

The metadata and the security schemes of a document as values of a document.
-/

namespace OpenApiManifest

def Contact.toJson (contact : Contact) : Json :=
  .obj (Json.field? "name" .str contact.name
    ++ Json.field? "url" .str contact.url
    ++ Json.field? "email" .str contact.email)

def Info.toJson (info : Info) : Json :=
  .obj (("title", .str info.title) :: ("version", .str info.version)
    :: (Json.field? "description" .str info.description
      ++ Json.field? "contact" Contact.toJson info.contact))

def ServerVariable.toJson (v : ServerVariable) : Json :=
  .obj (("default", .str v.default)
    :: ((if v.values.isEmpty then [] else [("enum", Json.ofTexts v.values)])
      ++ Json.field? "description" .str v.description))

def Server.toJson (server : Server) : Json :=
  .obj (("url", .str server.url)
    :: (Json.field? "description" .str server.description
      ++ (if server.placeholders.isEmpty then []
        else [("variables", .obj (server.placeholders.map fun (name, v) => (name, v.toJson)))])))

/-- A pointer to further documentation as a value. -/
def ExternalDocs.toJson (docs : ExternalDocs) : Json :=
  .obj (("url", .str docs.url) :: Json.field? "description" .str docs.description)

def Tag.toJson (tag : Tag) : Json :=
  .obj (("name", .str tag.name)
    :: (Json.field? "description" .str tag.description
      ++ Json.field? "externalDocs" ExternalDocs.toJson tag.externalDocs))

def SecurityScheme.toJson (scheme : SecurityScheme) : Json :=
  .obj (("type", .str scheme.type)
    :: (Json.field? "description" .str scheme.description
      ++ Json.field? "name" .str scheme.name
      ++ Json.field? "in" .str scheme.location
      ++ Json.field? "scheme" .str scheme.scheme
      ++ Json.field? "bearerFormat" .str scheme.bearerFormat
      ++ Json.field? "flows" id scheme.flows
      ++ Json.field? "openIdConnectUrl" .str scheme.openIdConnectUrl))

end OpenApiManifest
