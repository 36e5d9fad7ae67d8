import ApiLinker.Graph

/-!
Documents: the root of an API description.
-/

namespace ApiLinker

structure Info where
  title : String := ""
  version : String := ""
  description : Option String := none

structure Server where
  url : String := ""
  description : Option String := none

structure Components where
  schemas : Table Schema := []
  responses : Table Edge := []
  parameters : Table Edge := []
  examples : Table Edge := []
  requestBodies : Table Edge := []
  headers : Table Edge := []
  securitySchemes : Table Edge := []
  links : Table Edge := []
  callbacks : Table Edge := []
  pathItems : Table Edge := []

structure Document where
  openapi : String := ""
  info : Info := {}
  servers : List Server := []
  paths : Table Edge := []
  webhooks : Table Edge := []
  components : Option Components := none
  security : List SecurityRequirement := []
  tags : List Edge := []
  externalDocs : Option ExternalDocs := none
  /-- Where the document comes from, if from anywhere. -/
  location : Option String := none

namespace Document

/-- The version of the description format that new documents follow. -/
def currentOpenapi : String := "3.1.0"

def empty (title version : String) : Document :=
  { openapi := currentOpenapi, info := { title, version } }

/-- The named objects of a document, none if it has no place for them. -/
def namedObjects (document : Document) : Components :=
  document.components.getD {}

def changeComponents (document : Document) (change : Components → Components) : Document :=
  { document with components := some (change document.namedObjects) }

end Document

end ApiLinker
