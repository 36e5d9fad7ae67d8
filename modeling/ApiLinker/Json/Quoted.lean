import ApiLinker.Json.Fault

/-!
String literals: their pieces, and the text they stand for.

An escape `\uXXXX` gives a 16-bit unit.  Units from the surrogate range stand for a character only
in pairs; a literal with an unpaired one has no text, though it can still be passed over.
-/

namespace ApiLinker.Json

inductive Piece where
  | char (c : Char)
  | unit (code : Nat)
deriving DecidableEq, Repr

/-- How a literal ends: with its closing quote, or with what makes it none. -/
inductive QuotedEnding where
  | closed
  | endOfText
  | controlCharacter
  | invalidEscape
  | invalidUnit
deriving DecidableEq, Repr

def QuotedEnding.fault? : QuotedEnding → Option Fault
  | .closed => none
  | .endOfText => some .endInString
  | .controlCharacter => some .controlCharacter
  | .invalidEscape | .invalidUnit => some .invalidEscape

structure Quoted where
  pieces : List Piece
  ending : QuotedEnding
deriving DecidableEq, Repr

namespace Quoted

def isLeadingSurrogate (code : Nat) : Bool :=
  0xD800 ≤ code && code ≤ 0xDBFF

def isTrailingSurrogate (code : Nat) : Bool :=
  0xDC00 ≤ code && code ≤ 0xDFFF

def pairedCode (leading trailing : Nat) : Nat :=
  0x10000 + (leading - 0xD800) * 0x400 + (trailing - 0xDC00)

/-- What is wrong where a leading surrogate has no unit after it. -/
def unpairedFault : List Piece → QuotedEnding → Fault
  | [], .endOfText => .endInString
  | [], .invalidUnit => .invalidEscape
  | _, _ => .unpairedSurrogate

def chars (ending : QuotedEnding) : List Piece → Except Fault (List Char)
  | [] =>
      match ending.fault? with
      | none => .ok []
      | some fault => .error fault
  | .char c :: rest => (c :: ·) <$> chars ending rest
  | .unit leading :: .unit trailing :: rest =>
      if isTrailingSurrogate leading then .error .loneSurrogate
      else if isLeadingSurrogate leading then
        if isTrailingSurrogate trailing then
          (Char.ofNat (pairedCode leading trailing) :: ·) <$> chars ending rest
        else .error .loneSurrogate
      else (Char.ofNat leading :: ·) <$> chars ending (.unit trailing :: rest)
  | .unit code :: rest =>
      if isTrailingSurrogate code then .error .loneSurrogate
      else if isLeadingSurrogate code then .error (unpairedFault rest ending)
      else (Char.ofNat code :: ·) <$> chars ending rest

def text (quoted : Quoted) : Except Fault String :=
  String.ofList <$> chars quoted.ending quoted.pieces

/-- Passes over a literal whose text is not wanted. -/
def skip (quoted : Quoted) : Except Fault Unit :=
  match quoted.ending.fault? with
  | none => .ok ()
  | some fault => .error fault

end Quoted

end ApiLinker.Json
