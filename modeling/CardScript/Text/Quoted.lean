import CardScript.Text.PrintData

/-!
# Quoted text

A text between double quotes in which every character can be seen: quotes, backslashes and a few
controls have short escapes, and whatever has no visible form of its own is written by its code
point in hexadecimal.
-/

namespace CardScript.Text

def isVisible (c : Char) : Bool :=
  if c.toNat < 0x7f then 0x20 ≤ c.toNat
  else !inInversionList unprintableChanges c && !inInversionList graphemeExtendChanges c

def quoteChar (c : Char) : List Char :=
  if c == '\x00' then ['\\', '0']
  else if c == '\t' then ['\\', 't']
  else if c == '\r' then ['\\', 'r']
  else if c == '\n' then ['\\', 'n']
  else if c == '"' then ['\\', '"']
  else if c == '\\' then ['\\', '\\']
  else if isVisible c then [c]
  else ['\\', 'u', '\x7b'] ++ Nat.toDigits 16 c.toNat ++ ['\x7d']

def quoted (s : String) : String :=
  String.ofList ('"' :: s.toList.flatMap quoteChar ++ ['"'])

end CardScript.Text
