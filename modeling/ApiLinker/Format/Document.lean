import ApiLinker.Document
import ApiLinker.Format.Edge

/-!
The format of documents.

`Document.parse` reads one from a text into a graph and `Document.write` turns it into JSON again.
-/

namespace ApiLinker

namespace Format

def info : Record Graph Info where
  name := "Info"
  blank := {}
  fields := [
    .required "title" .string (·.title) fun value record => { record with title := value },
    .required "version" .string (·.version) fun value record => { record with version := value },
    .optional "description" .string (·.description)
      fun value record => { record with description := value }]

def server : Record Graph Server where
  name := "Server"
  blank := {}
  fields := [
    .required "url" .string (·.url) fun value record => { record with url := value },
    .optional "description" .string (·.description)
      fun value record => { record with description := value }]

section

variable (edges : EdgeFormat)

def components : Record Graph Components where
  name := "Components"
  blank := {}
  fields := [
    .table "schemas" schema (·.schemas) fun value record => { record with schemas := value },
    .table "responses" (edges.edge .responses) (·.responses)
      fun value record => { record with responses := value },
    .table "parameters" (edges.edge .parameters) (·.parameters)
      fun value record => { record with parameters := value },
    .table "examples" (edges.edge .examples) (·.examples)
      fun value record => { record with examples := value },
    .table "requestBodies" (edges.edge .requestBodies) (·.requestBodies)
      fun value record => { record with requestBodies := value },
    .table "headers" (edges.edge .headers) (·.headers)
      fun value record => { record with headers := value },
    .table "securitySchemes" (edges.edge .securitySchemes) (·.securitySchemes)
      fun value record => { record with securitySchemes := value },
    .table "links" (edges.edge .links) (·.links)
      fun value record => { record with links := value },
    .table "callbacks" (edges.edge .callbacks) (·.callbacks)
      fun value record => { record with callbacks := value },
    .table "pathItems" (edges.edge .pathItems) (·.pathItems)
      fun value record => { record with pathItems := value }]

def document : Record Graph Document where
  name := "Document"
  blank := {}
  fields := [
    .required "openapi" .string (·.openapi) fun value record => { record with openapi := value },
    .required "info" info.codec (·.info) fun value record => { record with info := value },
    .list "servers" server.codec (·.servers) fun value record => { record with servers := value },
    .table "paths" (edges.edge .pathItems) (·.paths)
      fun value record => { record with paths := value },
    .table "webhooks" (edges.edge .pathItems) (·.webhooks)
      fun value record => { record with webhooks := value },
    .optional "components" (components edges).codec (·.components)
      fun value record => { record with components := value },
    .list "security" (securityRequirement edges) (·.security)
      fun value record => { record with security := value },
    .list "tags" (edges.edge .tags) (·.tags) fun value record => { record with tags := value },
    .optional "externalDocs" externalDocs.codec (·.externalDocs)
      fun value record => { record with externalDocs := value }]

def parse (codec : Codec Graph α) (text : String) (graph : Graph) : Except Json.Fault (α × Graph) :=
  (Json.Text.ofChars text.toList).decode fun node => codec.read node graph

end

end Format

namespace Document

/-- Reads a document from a text.  `location` is where the text comes from. -/
def parse (text : String) (location : Option String) (graph : Graph) :
    Except Json.Fault (Document × Graph) := do
  let (document, graph) ← Format.parse (Format.document .reading).codec text graph
  return ({ document with location }, graph)

def write (graph : Graph) (document : Document) : Except WriteFault Json :=
  (Format.document (.writing graph)).codec.write document

end Document

end ApiLinker
