import Scriptor.Proofs.Form.Atoms
import Scriptor.Proofs.Reading.Roundtrip
import Scriptor.Proofs.Reading.Statements
import Scriptor.Proofs.Unquoting

namespace Scriptor

namespace Pattern

theorem first?_word {text rest : List Char} (h : word.split? text = some (text, []))
    (hrest : Script.Form.EndsWord rest) : first? (text ++ rest) = some (.word, text, rest) := by
  rw [first?, all, List.findSome?_cons, Script.Form.word_append h hrest, Option.map_some]

end Pattern

namespace Cursor

variable {text text' rest : List Char} {start : Position} {w w' : List Token}

/-- Whether the text has the tokens `w` where `rest` follows, from its first character to its last
one. -/
structure Spells (text rest : List Char) (start : Position) (w : List Token) : Prop where
  lexes : ∀ ts, Lexes rest (start.after text) false ts →
    Lexes (text ++ rest) start false (w ++ ts)
  first : w.head?.map (fun t => t.span.start) = some start
  last : w.getLast?.map (fun t => t.span.stop) = some (start.after text)

namespace Spells

theorem single {p : Pattern} {kind : Kind} {value : String}
    (h : Pattern.first? (text ++ rest) = some (p, text, rest))
    (ht : p.token? text = some (kind, value)) (hline : text.contains '\n' = false) :
    Spells text rest start [⟨kind, value, ⟨start, start.after text⟩, false⟩] where
  lexes ts hts := by
    have htake : Lexes (text ++ rest) start false _ := .take h ht hts
    rwa [hline] at htake
  first := rfl
  last := rfl

theorem append (h : Spells text (text' ++ rest) start w)
    (h' : Spells text' rest (start.after text) w') :
    Spells (text ++ text') rest start (w ++ w') where
  lexes ts hts := by
    rw [Position.after_append] at hts
    rw [List.append_assoc, List.append_assoc]
    exact h.lexes _ (h'.lexes ts hts)
  first := by
    obtain ⟨t, ht, hstart⟩ := Option.map_eq_some_iff.1 h.first
    rw [List.head?_append, ht, Option.some_or, Option.map_some, hstart]
  last := by
    obtain ⟨t, ht, hstop⟩ := Option.map_eq_some_iff.1 h'.last
    rw [List.getLast?_append, ht, Option.some_or, Option.map_some, hstop, Position.after_append]

end Spells
end Cursor

/-- Whether a text that starts with the spelling of the mark starts with the mark. -/
structure Kind.IsCut (k : Kind) : Prop where
  first?_eq : ∀ rest, Pattern.first? (k.spelling.toList ++ rest) =
    some (.symbol k k.spelling k.spelling, k.spelling.toList, rest)
  line : k.spelling.toList.contains '\n' = false

theorem Kind.IsCut.spells {k : Kind} (h : k.IsCut) (rest : List Char) (start : Position) :
    ∃ t : Token, t.bare = .mark k false ∧ Cursor.Spells k.spelling.toList rest start [t] :=
  ⟨_, rfl, .single (h.first?_eq rest) rfl h.line⟩

namespace Ty

open Cursor

variable {ty : Ty}

def Spelled (ty : Ty) : Prop :=
  ∀ rest start, Script.Form.EndsWord rest →
    ∃ w, w.map Token.bare = ty.render ∧ Spells ty.text.toList rest start w

theorem spelled_name (hword : Pattern.word.split? ty.text.toList = some (ty.text.toList, []))
    (hline : ty.text.toList.contains '\n' = false) (hkind : Kind.ofWord ty.text = .identifier)
    (hrender : ty.render = [.written .identifier ty.text false]) : ty.Spelled := by
  intro rest start hrest
  have htoken : Pattern.word.token? ty.text.toList = some (.identifier, ty.text) := by
    rw [Pattern.token?, String.ofList_toList, hkind]
  rw [hrender]
  exact ⟨[_], rfl, .single (Pattern.first?_word hword hrest) htoken hline⟩

/-- The closing mark ends the word in front of it, and is cut off before anything behind it is
looked at. -/
theorem spelled_enclosed {base : Ty} {l r : Kind} {c : Char} {cs : List Char}
    (hl : l.IsCut) (hr : r.IsCut)
    (hspelling : r.spelling.toList = c :: cs) (hc : Pattern.isWordPart c = false)
    (hbase : base.Spelled) (htext : ty.text = l.spelling ++ base.text ++ r.spelling)
    (hrender : ty.render = .mark l false :: (base.render ++ [.mark r false])) : ty.Spelled := by
  intro rest start _
  have hends : Script.Form.EndsWord (r.spelling.toList ++ rest) := by
    rw [hspelling]
    rintro d ⟨⟩
    exact hc
  obtain ⟨w, hw, hinside⟩ := hbase _ (start.after l.spelling.toList) hends
  obtain ⟨t, ht, hopening⟩ := hl.spells (base.text.toList ++ (r.spelling.toList ++ rest)) start
  obtain ⟨u, hu, hclosing⟩ :=
    hr.spells rest (start.after (l.spelling.toList ++ base.text.toList))
  refine ⟨[t] ++ w ++ [u], ?_, ?_⟩
  · rw [hrender, List.map_append, List.map_append, hw, List.map_singleton,
      List.map_singleton, ht, hu]
    rfl
  · rw [htext, String.toList_append, String.toList_append]
    exact (hopening.append hinside).append hclosing

theorem spelled_of_isPlain : (ty : Ty) → ty.IsPlain → ty.Spelled
  | .array base, h =>
    spelled_enclosed (l := .openBracket) (r := .closeBracket) ⟨fun _ => rfl, rfl⟩
      ⟨fun _ => rfl, rfl⟩ rfl rfl (spelled_of_isPlain base h) rfl rfl
  | .dict base, h =>
    spelled_enclosed (l := .openDict) (r := .closeDict) ⟨fun _ => rfl, rfl⟩
      ⟨fun _ => rfl, rfl⟩ rfl rfl (spelled_of_isPlain base h) rfl rfl
  | .function _ _, h => h.elim
  | .int, _ | .float, _ | .string, _ | .bool, _ | .void, _ | .any, _ => spelled_name rfl rfl rfl rfl

/-- Types are taken back from their texts: the text of a type without arrows is an ascription of the
type, which reaches from the start of the text to its end. -/
theorem reads_text (h : ty.IsPlain) (file : String) :
    ∃ ts s', tokenize ty.text file = .ok ts ∧
      Reader.Reads (Reader.ascription .full) (.ofTokens ts file)
        ⟨ty, .start file, .behind file ty.text.toList⟩ s' ∧
      s'.tokens = [.eof (.behind file ty.text.toList) false] := by
  have hends : Script.Form.EndsWord [] := by
    intro c hc
    cases hc
  obtain ⟨w, hw, hspells⟩ := spelled_of_isPlain ty h [] (.start file) hends
  have hlexes := hspells.lexes _ .nil
  rw [List.append_nil, Position.start_after] at hlexes
  have hts : tokenize ty.text file = .ok _ := tokens_of_lexes hlexes
  have htokens := Stream.tokens_ofTokens_of_eof (tokenize_ends hts) file
  obtain ⟨a, s', hread, hs', ha⟩ :=
    Reader.accepts_ascription (a := ⟨ty, .nowhere⟩) h w _ hw rfl _ [] htokens
  obtain ⟨w', hpassed, hstands⟩ :=
    Reader.stands_ascription (Stream.ofTokens_ends _ _).behind a s' hread
  have hwhole : w' = w := by
    have happend := hpassed.tokens_eq
    rw [htokens, hs'] at happend
    exact (List.append_inj_left' happend rfl).symm
  rw [List.nil_append, hwhole] at hstands
  cases hstands with
  | mk _ hfirst hlast =>
    have hstart := hspells.first
    rw [hfirst, Option.map_some, Option.some.injEq] at hstart
    have hstop := hspells.last
    rw [hlast, Option.map_some, Option.some.injEq, Position.start_after] at hstop
    rw [hstart, hstop] at hread
    cases ha
    exact ⟨_, s', hts, hread, hs'⟩

/-- Two dictionaries one in the other open and close with runs of four. -/
theorem reads_text_dicts :
    (Ty.array (.dict (.dict .int))).IsPlain ∧
      (Ty.array (.dict (.dict .int))).text = "[<<<<int>>>>]" ∧
      ∃ ts s', tokenize "[<<<<int>>>>]" "a" = .ok ts ∧
        Reader.Reads (Reader.ascription .full) (.ofTokens ts "a")
          ⟨.array (.dict (.dict .int)), ⟨1, 1, "a"⟩, ⟨1, 14, "a"⟩⟩ s' ∧
        s'.tokens = [.eof ⟨1, 14, "a"⟩ false] :=
  ⟨trivial, rfl, @reads_text (.array (.dict (.dict .int))) trivial "a"⟩

end Ty
end Scriptor
