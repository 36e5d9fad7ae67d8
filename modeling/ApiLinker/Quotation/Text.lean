import ApiLinker.Quotation.Ranges

/-!
Quotations: a string between quotes, for use inside a message.

Backslash, quote and the common control characters get a backslash; any other character that would
not be seen on its own is named by its code point.
-/

namespace ApiLinker.Quotation

def isHidden (c : Char) : Bool :=
  if c.toNat < 0x80 then c.toNat < 0x20 || c.toNat == 0x7f
  else hiddenRanges.any fun (first, last) => first ≤ c.toNat && c.toNat ≤ last

def named (c : Char) : List Char :=
  ['\\', 'u', '{'] ++ Nat.toDigits 16 c.toNat ++ ['}']

def charText (c : Char) : List Char :=
  if c = '"' then ['\\', '"']
  else if c = '\\' then ['\\', '\\']
  else if c = '\n' then ['\\', 'n']
  else if c = '\r' then ['\\', 'r']
  else if c = '\t' then ['\\', 't']
  else if c = '\x00' then ['\\', '0']
  else if isHidden c then named c
  else [c]

def text (content : String) : String :=
  String.ofList ('"' :: content.toList.flatMap charText ++ ['"'])

end ApiLinker.Quotation
