import Scriptor.Proofs.Reading.Coverage
import Scriptor.Proofs.Reading.Statements

namespace Scriptor

namespace Expr

mutual

@[simp] def extents : Expr → List Extent
  | .number _ span | .string _ span | .boolean _ span | .symbol _ span => [⟨span, []⟩]
  | .binary left _ right span =>
    ⟨span, [left.span, right.span]⟩ :: (left.extents ++ right.extents)
  | .unary _ operand span => ⟨span, [operand.span]⟩ :: operand.extents
  | .conditional test consequent alternate span =>
    ⟨span, [test.span, consequent.span, alternate.span]⟩ ::
      (test.extents ++ consequent.extents ++ alternate.extents)
  | .call callee args span =>
    ⟨span, callee.span :: args.map Expr.span⟩ :: (callee.extents ++ extentsAll args)
  | .subscript indexed index span =>
    ⟨span, [indexed.span, index.span]⟩ :: (indexed.extents ++ index.extents)
  | .member object _ propertySpan span =>
    ⟨span, [object.span, propertySpan]⟩ :: (object.extents ++ [⟨propertySpan, []⟩])
  | .array elements span => ⟨span, elements.map Expr.span⟩ :: extentsAll elements
  | .dict entries span =>
    ⟨span, entries.flatMap fun p => [p.1.span, p.2.span]⟩ :: extentsEntries entries

@[simp] def extentsAll : List Expr → List Extent
  | [] => []
  | e :: es => e.extents ++ extentsAll es

@[simp] def extentsEntries : List (Expr × Expr) → List Extent
  | [] => []
  | (key, value) :: ps => key.extents ++ value.extents ++ extentsEntries ps

end

theorem extentsAll_eq_flatMap (es : List Expr) : extentsAll es = es.flatMap extents := by
  induction es with
  | nil => rfl
  | cons e es ih => rw [extentsAll, ih, List.flatMap_cons]

theorem extentsEntries_eq_flatMap (ps : List (Expr × Expr)) :
    extentsEntries ps = ps.flatMap fun p => p.1.extents ++ p.2.extents := by
  induction ps with
  | nil => rfl
  | cons p ps ih => rw [extentsEntries, ih, List.flatMap_cons]

abbrev MadeOf (w : List Token) (e : Expr) : Prop := Made w [e.span] e.extents

end Expr

def Ascription.spans (a : Option Ascription) : List Span := a.toList.map Ascription.span

def Ascription.extents (a : Option Ascription) : List Extent :=
  a.toList.map fun a => ⟨a.span, []⟩

def Parameter.extents (p : Parameter) : List Extent :=
  ⟨p.span, Ascription.spans p.ascription⟩ :: Ascription.extents p.ascription

def Assignment.extents (a : Assignment) : List Extent :=
  ⟨a.span, [a.target.span, a.value.span]⟩ :: (a.target.extents ++ a.value.extents)

namespace Stmt

def span : Stmt → Span
  | .assignment a => a.span
  | .function _ _ _ _ _ _ span | .rangeFor _ _ _ _ span | .collectionFor _ _ _ _ span
  | .ret _ span | .brk span
  | .call _ _ span => span

mutual

@[simp] def extents : Stmt → List Extent
  | .assignment a => a.extents
  | .function _ parameters result body _ endSpan span =>
    ⟨span, parameters.map Parameter.span ++ Ascription.spans result ++
      body.map Stmt.span ++ [endSpan]⟩ ::
      (parameters.flatMap Parameter.extents ++ Ascription.extents result ++ extentsAll body ++
        [⟨endSpan, []⟩])
  | .rangeFor init update body test span =>
    ⟨span, [init.span] ++ [update.span] ++ body.map Stmt.span ++ [test.span]⟩ ::
      (init.extents ++ update.extents ++ extentsAll body ++ test.extents)
  | .collectionFor _ nameSpan collection body span =>
    ⟨span, [nameSpan] ++ [collection.span] ++ body.map Stmt.span⟩ ::
      ([⟨nameSpan, []⟩] ++ collection.extents ++ extentsAll body)
  | .ret none span | .brk span => [⟨span, []⟩]
  | .ret (some value) span => ⟨span, [value.span]⟩ :: value.extents
  | .call callee args span =>
    ⟨span, callee.span :: args.map Expr.span⟩ :: (callee.extents ++ Expr.extentsAll args)

@[simp] def extentsAll : List Stmt → List Extent
  | [] => []
  | s :: ss => s.extents ++ extentsAll ss

end

abbrev MadeOf (w : List Token) (s : Stmt) : Prop := Made w [s.span] s.extents

end Stmt

def Program.extents (p : Program) : List Extent := Stmt.extentsAll p.statements

section Parts

variable {w ws : List Token}

theorem Separated.made_expressions {ps : List Phrase} (h : Separated (ps.map Phrase.tokens) ws)
    (hws : Token.Ordered ws)
    (hps : ∀ p ∈ ps, Token.Ordered p.tokens → p.value.MadeOf p.tokens) :
    Made ws ((ps.map Phrase.value).map Expr.span) (Expr.extentsAll (ps.map Phrase.value)) := by
  rw [Expr.extentsAll_eq_flatMap]
  exact h.made_map hws hps

theorem Separated.made_entries {ps : List EntryPhrase}
    (h : Separated (ps.map EntryPhrase.tokens) ws) (hws : Token.Ordered ws)
    (hkey : ∀ p ∈ ps, Token.Ordered p.key.tokens → p.key.value.MadeOf p.key.tokens)
    (hvalue : ∀ p ∈ ps, Token.Ordered p.value.tokens → p.value.value.MadeOf p.value.tokens) :
    Made ws ((ps.map fun p => (p.key.value, p.value.value)).flatMap fun p => [p.1.span, p.2.span])
      (Expr.extentsEntries (ps.map fun p => (p.key.value, p.value.value))) := by
  rw [Expr.extentsEntries_eq_flatMap, List.flatMap_map, List.flatMap_map]
  apply h.made hws
  intro p hp hw
  exact (hkey p hp hw.left).append (hvalue p hp hw.right.tail).ahead

/-- The span of an expression reaches from its first mark to its last one, and so do the spans of
its parts. -/
theorem DerivesAt.made {q : Power} {e : Expr} (h : DerivesAt Eq q w e) (hw : Token.Ordered w) :
    e.MadeOf w := by
  induction h with
  | number _ hspan | string _ hspan | boolean _ hspan | symbol _ hspan =>
    subst hspan
    exact .single hw
  | group _ _ _ ih => exact (ih hw.tail.left).behind.ahead
  | array _ _ hsep _ hspan ih =>
    subst hspan
    have hclosed := (hsep.made_expressions hw.tail.left ih).concat hw.tail
    exact (hclosed.cons hw).node hw rfl (List.getLast?_concat (l := _ :: _) ..)
      ((List.sublist_append_left _ _).cons _)
  | dict _ _ _ _ hsep _ hspan ihk ihv =>
    subst hspan
    have hclosed := (hsep.made_entries hw.tail.left ihk ihv).concat hw.tail
    exact (hclosed.cons hw).node hw rfl (List.getLast?_concat (l := _ :: _) ..)
      ((List.sublist_append_left _ _).cons _)
  | call _ _ _ _ hsep _ hspan ih ihs =>
    subst hspan
    have hclosed := (hsep.made_expressions hw.right.tail.left ihs).concat hw.right.tail
    exact ((ih hw.left).append hclosed.ahead).node hw rfl (List.getLast?_concat (l := _ :: _) ..)
      ((List.sublist_append_left _ _).cons_cons _)
  | subscript _ _ _ _ _ hspan ih ih' =>
    subst hspan
    have hclosed := (ih' hw.right.tail.left).concat hw.right.tail
    exact ((ih hw.left).append hclosed.ahead).node hw rfl rfl
      ((List.sublist_append_left _ _).cons_cons _)
  | member _ _ _ _ hname hspan ih =>
    subst hname hspan
    exact ((ih hw.left).append (Made.single hw.right.tail).ahead).node hw rfl rfl
      (List.Sublist.refl _)
  | unary _ _ hspan ih =>
    subst hspan
    exact ((ih hw.tail).cons hw).node hw rfl rfl (List.sublist_cons_self _ _)
  | binary _ _ _ _ hspan ih ih' =>
    subst hspan
    exact ((ih hw.left).append (ih' hw.right.tail).ahead).node hw rfl rfl (List.Sublist.refl _)
  | conditional _ _ _ _ _ _ hspan ih ih₁ ih₂ =>
    subst hspan
    have halternate := ih₂ hw.right.tail.right.tail
    have hconsequent := ih₁ hw.right.tail.left
    rw [Expr.MadeOf, Expr.extents, List.append_assoc]
    exact ((ih hw.left).append (hconsequent.append halternate.ahead).ahead).node hw rfl rfl
      (List.Sublist.refl _)
  | tighten _ ih => exact ih hw

theorem Ascription.Stands.made {a : Ascription} (h : a.Stands w) (hw : Token.Ordered w) :
    Made w [a.span] [⟨a.span, []⟩] := by
  cases h with
  | mk _ hfirst hlast => exact .leaf hw hfirst hlast

theorem Ascription.StandsAfter.made {mark : Kind} {a : Option Ascription} (h : StandsAfter mark w a)
    (hw : Token.Ordered w) : Made w (spans a) (extents a) := by
  cases h with
  | nil => exact .none
  | cons _ ha => exact (ha.made hw.tail).ahead

/-- An ascription ends with the last token, whatever stands in front of it. -/
theorem Ascription.Stands.stop_eq {a : Ascription} {last : Token} (h : a.Stands w)
    (front : List Token)
    (hlast : (front ++ w).getLast? = some last) : last.span.stop = a.span.stop := by
  cases h with
  | mk _ _ hlast' =>
    rw [List.getLast?_append, hlast'] at hlast
    cases hlast
    rfl

/-- A parameter ends with its ascription, or with its name if there is none. -/
theorem Parameter.Stands.made {p : Parameter} (h : p.Stands w) (hw : Token.Ordered w) :
    Made w [p.span] p.extents := by
  cases h with
  | @mk name last w a _ ha hlast =>
    have hparts := (ha.made hw.tail).cons hw
    cases ha with
    | nil =>
      cases hlast
      exact hparts.node hw rfl rfl (List.sublist_cons_self _ _)
    | @cons mark w a _ ha =>
      rw [ha.stop_eq [name, mark] hlast]
      exact hparts.node hw rfl rfl (List.sublist_cons_self _ _)

theorem Assignment.Stands.made {a : Assignment} (h : a.Stands w) (hw : Token.Ordered w) :
    Made w [a.span] a.extents := by
  cases h with
  | mk htarget _ hvalue =>
    exact ((DerivesAt.made htarget hw.left.left).behind.append
      (DerivesAt.made hvalue hw.right)).node hw rfl rfl (List.Sublist.refl _)

theorem Stmt.made_body {body : List (List Token × Stmt)}
    (hw : Token.Ordered (body.flatMap Prod.fst))
    (h : ∀ c ∈ body, Token.Ordered c.1 → c.2.MadeOf c.1) :
    Made (body.flatMap Prod.fst) ((body.map Prod.snd).map Stmt.span)
      (extentsAll (body.map Prod.snd)) := by
  induction body with
  | nil => exact .none
  | cons c body ih =>
    obtain ⟨hc, hbody⟩ := List.forall_mem_cons.1 h
    rw [List.flatMap_cons] at hw ⊢
    exact (hc hw.left).append (ih hw.right hbody)

theorem Stmt.Stands.made {s : Stmt} (h : s.Stands w) (hw : Token.Ordered w) : s.MadeOf w := by
  induction h with
  | assignment ha => exact ha.made hw
  | function _ _ _ hparams hsep _ hresult _ _ _ ih =>
    have hopening := Made.tokens hw.left.left.left.left
    have hparams := hsep.made_map hw.left.left.left.right.left fun p hp => (hparams p hp).made
    have hresult := hresult.made hw.left.left.right
    have hbody := made_body hw.left.right.left ih
    exact ((((hopening.append hparams.behind).append hresult).append hbody.behind).append
      (.single hw.right)).node hw
      rfl (List.getLast?_concat ..) (List.sublist_append_right [_, _, _] _)
  | rangeFor _ _ hinit _ hupdate _ _ _ htest ih =>
    have hopening := Made.tokens hw.left.left.left.left.left.left
    have hinit := hinit.made hw.left.left.left.left.left.right
    have hupdate := hupdate.made hw.left.left.left.right
    have hbody := made_body hw.left.right.left ih
    have htest := DerivesAt.made htest hw.right
    exact ((((hopening.append hinit).behind.append hupdate).behind.append hbody.behind).append
      htest).node hw rfl (List.getLast?_concat ..) (List.sublist_append_right [_, _] _)
  | collectionFor _ _ _ hcollection _ _ _ ih =>
    have hopening := (Made.single hw.left.left.left.tail.head).behind.cons hw.left.left.left
    have hcollection := DerivesAt.made hcollection hw.left.left.right
    have hbody := made_body hw.left.right.left ih
    exact (((hopening.append hcollection).append hbody.behind).concat hw).node hw rfl
      (List.getLast?_concat ..)
      ((List.sublist_append_left _ _).trans (List.sublist_append_right [_] _))
  | ret => exact .single hw
  | returns _ hvalue =>
    exact ((Made.tokens hw.left).append (DerivesAt.made hvalue hw.right)).node hw rfl rfl
      (List.sublist_cons_self _ _)
  | brk => exact .single hw
  | call he => exact DerivesAt.made he hw

end Parts

/-- Spans nest: every node of a program starts and ends with a token, its parts lie within it, and
neither they nor the statements of the program overlap. -/
theorem parse_nested {source file : String} {ts : List Token} {p : Program}
    (hts : tokenize source file = .ok ts) (h : parse ts file = .ok p) :
    (∀ n ∈ p.extents, n.Sound ts) ∧
      (p.statements.map Stmt.span).Pairwise fun a b => a.stop ≤ b.start := by
  have hordered := tokenize_ordered hts
  obtain ⟨body, s', hstatements, hbody, hpassed, -⟩ := Reader.stands_of_parse h
  have htokens := hpassed.tokens_eq
  rw [Stream.tokens_ofTokens_of_eof (tokenize_ends hts)] at htokens
  rw [htokens] at hordered ⊢
  have hmade := Stmt.made_body hordered.left fun c hc => (hbody c hc).made
  rw [Program.extents, hstatements]
  exact ⟨Made.mono hmade.sound (List.subset_append_left _ _), hmade.along.apart hordered.left⟩

/-- The parentheses around the product do not belong to it, but those of a call do. -/
theorem parse_nested_grouped :
    ∃ ts p, tokenize "x = (a * 2)[f()]" "" = .ok ts ∧ parse ts "" = .ok p ∧
      p.extents.map Extent.span = [⟨⟨1, 1, ""⟩, ⟨1, 17, ""⟩⟩,
        ⟨⟨1, 1, ""⟩, ⟨1, 2, ""⟩⟩, ⟨⟨1, 6, ""⟩, ⟨1, 17, ""⟩⟩,
        ⟨⟨1, 6, ""⟩, ⟨1, 11, ""⟩⟩, ⟨⟨1, 6, ""⟩, ⟨1, 7, ""⟩⟩,
        ⟨⟨1, 10, ""⟩, ⟨1, 11, ""⟩⟩, ⟨⟨1, 13, ""⟩, ⟨1, 16, ""⟩⟩,
        ⟨⟨1, 13, ""⟩, ⟨1, 14, ""⟩⟩] ∧
      (∀ n ∈ p.extents, n.Sound ts) ∧
      (p.statements.map Stmt.span).Pairwise fun a b => a.stop ≤ b.start := by
  have hts : tokenize "x = (a * 2)[f()]" "" = .ok
      [⟨.identifier, "x", ⟨⟨1, 1, ""⟩, ⟨1, 2, ""⟩⟩, false⟩,
       ⟨.assignment, "=", ⟨⟨1, 3, ""⟩, ⟨1, 4, ""⟩⟩, false⟩,
       ⟨.openParen, "(", ⟨⟨1, 5, ""⟩, ⟨1, 6, ""⟩⟩, false⟩,
       ⟨.identifier, "a", ⟨⟨1, 6, ""⟩, ⟨1, 7, ""⟩⟩, false⟩,
       ⟨.star, "*", ⟨⟨1, 8, ""⟩, ⟨1, 9, ""⟩⟩, false⟩,
       ⟨.number, "2", ⟨⟨1, 10, ""⟩, ⟨1, 11, ""⟩⟩, false⟩,
       ⟨.closeParen, ")", ⟨⟨1, 11, ""⟩, ⟨1, 12, ""⟩⟩, false⟩,
       ⟨.openBracket, "[", ⟨⟨1, 12, ""⟩, ⟨1, 13, ""⟩⟩, false⟩,
       ⟨.identifier, "f", ⟨⟨1, 13, ""⟩, ⟨1, 14, ""⟩⟩, false⟩,
       ⟨.openParen, "(", ⟨⟨1, 14, ""⟩, ⟨1, 15, ""⟩⟩, false⟩,
       ⟨.closeParen, ")", ⟨⟨1, 15, ""⟩, ⟨1, 16, ""⟩⟩, false⟩,
       ⟨.closeBracket, "]", ⟨⟨1, 16, ""⟩, ⟨1, 17, ""⟩⟩, false⟩,
       .eof ⟨1, 17, ""⟩ false] := by decide +kernel
  exact ⟨_, _, hts, rfl, rfl, parse_nested hts rfl⟩

end Scriptor
