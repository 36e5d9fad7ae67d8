import ApiLinker.Failure
import ApiLinker.Format.Document

/-!
Loading documents: from a text at hand or from a file.
-/

namespace ApiLinker.Document

/-- What stands for the path of a text that comes from no file. -/
def inlinePath : String := "<inline>"

def ofText (text : String) (location : Option String) (graph : Graph) :
    Except Failure (Document × Graph) :=
  (parse text location graph).mapError (.parse (location.getD inlinePath))

/-- Reads the document in a file, which becomes its location. -/
def load {m : Type → Type} [Monad m] [FileSystem m] (path : String) (graph : Graph) :
    ExceptT Failure m (Document × Graph) := do
  let text ← FileSystem.attempt (.file path) (FileSystem.readText path)
  ExceptT.mk (pure (ofText text (some path) graph))

end ApiLinker.Document
