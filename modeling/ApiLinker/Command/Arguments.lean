/-!
Commands and how they are given by arguments.

Options are written as words with two dashes or as letters after one dash, where letters may share
a dash.  No option may be given twice.  After `--` all arguments are operands, whatever they look
like.
-/

namespace ApiLinker

inductive Command where
  /-- Save the default settings for a project. -/
  | init (project : Option String)
  /-- Link the document in a file and report what could not be linked. -/
  | resolve (file : String) (project : Option String) (strict json : Bool)
deriving DecidableEq, Repr

inductive Switch where
  | strict
  | json
  | project (directory : String)
deriving DecidableEq, Repr

namespace Switch

def letter : Switch → Char
  | .strict => 's'
  | .json => 'j'
  | .project _ => 'p'

def project? : Switch → Option String
  | .project directory => some directory
  | .strict | .json => none

end Switch

inductive Argument where
  | operand (text : String)
  | switches (given : List Switch)
  /-- Switches, and the option for a project whose directory is the next argument. -/
  | projectNext (given : List Switch)
  | unknown
deriving DecidableEq, Repr

namespace Argument

def addSwitch (switch : Switch) : Argument → Argument
  | .switches given => .switches (switch :: given)
  | .projectNext given => .projectNext (switch :: given)
  | other => other

/-- The letters after a dash.  What follows the letter of a project is its directory, and an equals
sign may stand between them. -/
def ofLetters : List Char → Argument
  | [] => .switches []
  | 's' :: rest => addSwitch .strict (ofLetters rest)
  | 'j' :: rest => addSwitch .json (ofLetters rest)
  | ['p'] => .projectNext []
  | 'p' :: '=' :: directory => .switches [.project (String.ofList directory)]
  | 'p' :: directory => .switches [.project (String.ofList directory)]
  | _ => .unknown

def ofWord (word : List Char) : Argument :=
  match String.ofList (word.takeWhile (· ≠ '=')), word.dropWhile (· ≠ '=') with
  | "strict", [] => .switches [.strict]
  | "json", [] => .switches [.json]
  | "project", [] => .projectNext []
  | "project", _ :: directory => .switches [.project (String.ofList directory)]
  | _, _ => .unknown

def ofText (text : String) : Argument :=
  match text.toList with
  | '-' :: '-' :: word => ofWord word
  | ['-'] => .operand text
  | '-' :: letters => ofLetters letters
  | _ => .operand text

/-- The switches and the operands in some arguments, if all of them mean something. -/
def sortAll : List String → Option (List Switch × List String)
  | [] => some ([], [])
  | argument :: rest =>
      if argument = "--" then some ([], rest)
      else match ofText argument, rest with
        | .operand text, rest => do
            let (known, operands) ← sortAll rest
            return (known, text :: operands)
        | .switches given, rest => do
            let (known, operands) ← sortAll rest
            return (given ++ known, operands)
        | .projectNext given, value :: rest =>
            match ofText value with
            | .operand directory => do
                let (known, operands) ← sortAll rest
                return (given ++ .project directory :: known, operands)
            | _ => none
        | .projectNext _, [] | .unknown, _ => none

end Argument

namespace Command

def ofArguments : List String → Option Command
  | "init" :: rest =>
      match Argument.sortAll rest with
      | some ([], []) => some (.init none)
      | some ([], [project]) => some (.init (some project))
      | _ => none
  | "resolve" :: rest => do
      let (known, operands) ← Argument.sortAll rest
      guard (known.map Switch.letter).Nodup
      match operands with
      | [file] =>
          guard (file ≠ "")
          return .resolve file (known.findSome? Switch.project?) (known.contains .strict)
            (known.contains .json)
      | _ => none
  | _ => none

end Command

end ApiLinker
