import Scriptor.Error
import Scriptor.Token.Pattern

namespace Scriptor

/-- The number of bytes of a text in UTF-8. -/
def byteCount (cs : List Char) : Nat :=
  cs.foldr (fun c n => c.utf8Size + n) 0

/-- What is left after `n` bytes. A character that lies in them only in part goes with them. -/
def dropBytes : Nat → List Char → List Char
  | 0, cs => cs
  | _ + 1, [] => []
  | n + 1, c :: cs => dropBytes (n + 1 - c.utf8Size) cs

structure Cursor where
  rest : List Char
  position : Position
  /-- Whether a line break has been passed since the last token. -/
  newline : Bool

namespace Cursor

def start (source file : String) : Cursor :=
  ⟨source.toList, .start file, false⟩

/-- Moves past as many bytes as `text` has; its characters decide the new position. -/
def advance (c : Cursor) (text : List Char) : Cursor where
  rest := dropBytes (byteCount text) c.rest
  position := c.position.after text
  newline := c.newline || text.contains '\n'

def token (c : Cursor) (kind : Kind) (value : String) (text : List Char) : Token where
  kind := kind
  value := value
  span := ⟨c.position, (c.advance text).position⟩
  newlineBefore := (c.advance text).newline

def pass (c : Cursor) (text : List Char) : Cursor :=
  { c.advance text with newline := false }

theorem dropBytes_length_lt {n : Nat} {cs : List Char} (hn : n ≠ 0) (hc : cs ≠ []) :
    (dropBytes n cs).length < cs.length := by
  have hle (n : Nat) (cs : List Char) : (dropBytes n cs).length ≤ cs.length := by
    induction cs generalizing n with
    | nil => cases n <;> simp [dropBytes]
    | cons c cs ih =>
      cases n with
      | zero => simp [dropBytes]
      | succ n => simpa [dropBytes] using Nat.le_succ_of_le (ih _)
  cases n with
  | zero => exact absurd rfl hn
  | succ n =>
    cases cs with
    | nil => exact absurd rfl hc
    | cons c cs => simpa [dropBytes] using Nat.lt_succ_of_le (hle _ _)

theorem byteCount_ne_zero {cs : List Char} (h : cs ≠ []) : byteCount cs ≠ 0 := by
  cases cs with
  | nil => exact absurd rfl h
  | cons c cs =>
    have := Char.utf8Size_pos c
    simp only [byteCount, List.foldr_cons]
    omega

theorem advance_length_lt {c : Cursor} {p : Pattern} {s : Pattern.Split}
    (h : Pattern.first? c.rest = some (p, s)) (hc : c.rest ≠ []) :
    (c.advance (p.consumed s.1)).rest.length < c.rest.length :=
  dropBytes_length_lt (byteCount_ne_zero (Pattern.consumed_ne_nil h)) hc

/-- The tokens from the cursor on; the last one is the end of the text. -/
def tokens (c : Cursor) : Except Error (List Token) :=
  match hc : c.rest with
  | [] => .ok [c.token .eof "EOF" []]
  | char :: _ =>
    match h : Pattern.first? c.rest with
    | none => .error ⟨.unrecognisedToken (String.singleton char), c.position⟩
    | some (p, lexeme, _) =>
      have := advance_length_lt h (by simp [hc])
      match p.token? lexeme with
      | none => (c.advance (p.consumed lexeme)).tokens
      | some (kind, value) =>
        (c.pass (p.consumed lexeme)).tokens.map (c.token kind value (p.consumed lexeme) :: ·)
termination_by c.rest.length
decreasing_by all_goals simpa [pass, hc] using this

end Cursor

def tokenize (source file : String) : Except Error (List Token) :=
  (Cursor.start source file).tokens

end Scriptor
