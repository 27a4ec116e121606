import Scriptor.Number.Layout
import Scriptor.Typed.Basic

namespace Scriptor.Script

def hexPair (n : Nat) : List Char :=
  [Nat.digitChar (n / 16), Nat.digitChar (n % 16)]

def quotedChar (c : Char) : List Char :=
  if c = '"' then ['\\', '"']
  else if c = '\\' then ['\\', '\\']
  else if c = '\n' then ['\\', 'n']
  else if c = '\t' then ['\\', 't']
  else if c = '\r' then ['\\', 'r']
  else if c.toNat < 0x20 || c.toNat = 0x7f then '\\' :: 'x' :: hexPair c.toNat
  else if c.toNat = 0x2028 then ['\\', 'u', '2', '0', '2', '8']
  else if c.toNat = 0x2029 then ['\\', 'u', '2', '0', '2', '9']
  else [c]

/-- A string between double quotes; control characters and line separators are escaped. -/
def quote (text : String) : String :=
  String.ofList ('"' :: text.toList.flatMap quotedChar ++ ['"'])

/-- Numbers in a script have no exponent. -/
def floatLayout : Number.Layout := ⟨"Infinity", "", fun _ => true⟩

def literal : Typed.Literal → String
  | .int n => toString n
  | .float x => floatLayout.text x
  | .string s => quote s
  | .bool b => toString b

end Scriptor.Script
