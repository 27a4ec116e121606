import Scriptor.Number.Layout
import Scriptor.Text.Shown

namespace Scriptor

inductive Listing where
  /-- A text without parts. -/
  | atom (text : String)
  | record (name : String) (fields : List (String × Listing))
  /-- A name, maybe empty, with items in parentheses. -/
  | tuple (name : String) (items : List Listing)
  | list (items : List Listing)

namespace Listing

def margin (depth : Nat) : String :=
  String.ofList (List.replicate (4 * depth) ' ')

mutual

/-- The text of a listing whose first line stands at the given depth. -/
def textAt (depth : Nat) : Listing → String
  | .atom text => text
  | .record name fields =>
    name ++ " \x7b\n" ++ fieldsAt (depth + 1) fields ++ margin depth ++ "\x7d"
  | .tuple name items => name ++ "(\n" ++ itemsAt (depth + 1) items ++ margin depth ++ ")"
  | .list [] => "[]"
  | .list items => "[\n" ++ itemsAt (depth + 1) items ++ margin depth ++ "]"

def fieldsAt (depth : Nat) : List (String × Listing) → String
  | [] => ""
  | (name, value) :: fields =>
    margin depth ++ name ++ ": " ++ textAt depth value ++ ",\n" ++ fieldsAt depth fields

def itemsAt (depth : Nat) : List Listing → String
  | [] => ""
  | item :: items => margin depth ++ textAt depth item ++ ",\n" ++ itemsAt depth items

end

def text (l : Listing) : String := l.textAt 0

def ofString (s : String) : Listing := .atom (Text.shown s)

def ofBool (b : Bool) : Listing := .atom (toString b)

def ofInt (n : Int) : Listing := .atom (toString n)

/-- Numbers in a listing have a fraction or an exponent. -/
def floatLayout : Number.Layout := ⟨"inf", ".0", fun point => -3 ≤ point && point ≤ 16⟩

def ofFloat (x : Float) : Listing := .atom (floatLayout.text x)

def ofOption : Option Listing → Listing
  | some l => .tuple "Some" [l]
  | none => .atom "None"

end Listing
end Scriptor
