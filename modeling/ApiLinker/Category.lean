/-!
The categories under which an API description files its named objects.
-/

namespace ApiLinker

inductive Category where
  | tags
  | parameters
  | requestBodies
  | responses
  | examples
  | headers
  | links
  | callbacks
  | pathItems
  | securitySchemes
  | schemas
deriving DecidableEq, Repr

namespace Category

def all : List Category :=
  [.tags, .parameters, .requestBodies, .responses, .examples, .headers, .links, .callbacks,
    .pathItems, .securitySchemes, .schemas]

/-- The member of `components` that holds the objects of a category. -/
def key : Category → String
  | .tags => "tags"
  | .parameters => "parameters"
  | .requestBodies => "requestBodies"
  | .responses => "responses"
  | .examples => "examples"
  | .headers => "headers"
  | .links => "links"
  | .callbacks => "callbacks"
  | .pathItems => "pathItems"
  | .securitySchemes => "securitySchemes"
  | .schemas => "schemas"

def ofKey? (name : String) : Option Category :=
  all.find? fun category => category.key == name

theorem ofKey?_key (category : Category) : ofKey? category.key = some category := by
  cases category <;> decide

theorem key_of_ofKey? {name : String} {category : Category}
    (known : ofKey? name = some category) : category.key = name := by
  simpa using List.find?_some known

end Category

end ApiLinker
