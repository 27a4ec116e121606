import Scriptor.Proofs.Reading.Lockstep
import Scriptor.Proofs.Reading.Statements
import Scriptor.Proofs.Tiling

namespace Scriptor

/-- A name, as tokens spell it. -/
def IsWord (cs : List Char) : Prop :=
  ∃ c rest, cs = c :: rest ∧ Pattern.isWordStart c = true ∧
    ∀ d ∈ rest, Pattern.isWordPart d = true

theorem Pattern.split?_isWord {cs : List Char} {s : Split} (h : Pattern.word.split? cs = some s) :
    IsWord s.1 := by
  cases cs with
  | nil => cases h
  | cons c cs =>
    obtain ⟨hc, h⟩ := Option.ite_none_right_eq_some.1 h
    cases h
    refine ⟨c, (run isWordPart cs).1, rfl, hc, ?_⟩
    intro d hd
    exact List.mem_takeWhile_imp hd

structure Token.Spelled (t : Token) : Prop where
  numeral : t.kind = .number → Numeral t.value.toList
  word : t.kind = .identifier → IsWord t.value.toList

inductive Expr.Spelled : Expr → Prop where
  | number {text : String} {span : Span} : Numeral text.toList → Spelled (.number text span)
  | string {value : String} {span : Span} : Spelled (.string value span)
  | boolean {value : Bool} {span : Span} : Spelled (.boolean value span)
  | symbol {name : String} {span : Span} : IsWord name.toList → Spelled (.symbol name span)
  | binary {left right : Expr} {op : BinaryOp} {span : Span} : Spelled left → Spelled right →
      Spelled (.binary left op right span)
  | unary {op : UnaryOp} {operand : Expr} {span : Span} :
      Spelled operand → Spelled (.unary op operand span)
  | conditional {test consequent alternate : Expr} {span : Span} :
      Spelled test → Spelled consequent →
      Spelled alternate → Spelled (.conditional test consequent alternate span)
  | call {callee : Expr} {args : List Expr} {span : Span} :
      Spelled callee → (∀ e ∈ args, Spelled e) → Spelled (.call callee args span)
  | subscript {indexed index : Expr} {span : Span} : Spelled indexed → Spelled index →
      Spelled (.subscript indexed index span)
  | member {object : Expr} {property : String} {propertySpan span : Span} :
      Spelled object → IsWord property.toList →
      Spelled (.member object property propertySpan span)
  | array {elements : List Expr} {span : Span} :
      (∀ e ∈ elements, Spelled e) → Spelled (.array elements span)
  | dict {entries : List (Expr × Expr)} {span : Span} :
      (∀ p ∈ entries, Spelled p.1) → (∀ p ∈ entries, Spelled p.2) →
      Spelled (.dict entries span)

structure Assignment.Spelled (a : Assignment) : Prop where
  target : a.target.Spelled
  value : a.value.Spelled

def Parameter.Spelled (p : Parameter) : Prop := IsWord p.name.toList

inductive Stmt.Spelled : Stmt → Prop where
  | assignment {a : Assignment} : a.Spelled → Spelled (.assignment a)
  | function {name endName : String} {params : List Parameter} {result : Option Ascription}
      {body : List Stmt} {endSpan span : Span} :
      IsWord name.toList → (∀ p ∈ params, p.Spelled) → (∀ s ∈ body, Spelled s) →
      IsWord endName.toList → Spelled (.function name params result body endName endSpan span)
  | rangeFor {init update : Assignment} {body : List Stmt} {test : Expr} {span : Span} :
      init.Spelled →
      update.Spelled → (∀ s ∈ body, Spelled s) → test.Spelled →
      Spelled (.rangeFor init update body test span)
  | collectionFor {name : String} {nameSpan span : Span} {collection : Expr} {body : List Stmt} :
      IsWord name.toList → collection.Spelled → (∀ s ∈ body, Spelled s) →
      Spelled (.collectionFor name nameSpan collection body span)
  | ret {value : Option Expr} {span : Span} :
      (∀ e ∈ value, e.Spelled) → Spelled (.ret value span)
  | brk {span : Span} : Spelled (.brk span)
  | call {callee : Expr} {args : List Expr} {span : Span} :
      callee.Spelled → (∀ e ∈ args, e.Spelled) → Spelled (.call callee args span)

def Program.Spelled (p : Program) : Prop := ∀ s ∈ p.statements, s.Spelled

/-- Whether a good value comes out, or an error that is allowed. -/
def Outcome {α : Type} (good : α → Prop) (allowed : Error → Prop) : Except Error α → Prop
  | .ok a => good a
  | .error e => allowed e

namespace Stream

theorem spelled_eof {t : Token} (h : t.kind = .eof) : t.Spelled := by
  constructor
  · intro hk
    cases h.symm.trans hk
  · intro hk
    cases h.symm.trans hk

theorem ofTokens_spelled {ts : List Token} (h : ∀ t ∈ ts, t.Spelled) (file : String) :
    ∀ t ∈ (ofTokens ts file).tokens, t.Spelled := by
  by_cases hlast : ts.getLast?.map Token.kind = some .eof
  · rwa [tokens_ofTokens_of_eof hlast]
  · obtain ⟨e, he, htokens⟩ := tokens_ofTokens_of_ne_eof hlast file
    rw [htokens]
    intro t ht
    rcases List.mem_append.1 ht with ht | ht
    · exact h t ht
    · rw [List.mem_singleton.1 ht]
      exact spelled_eof he

end Stream

section Spelled

variable {w : List Token}

theorem Separated.subset {ws : List (List Token)} {u : List Token} (h : Separated ws u) :
    ∀ w ∈ ws, w ⊆ u := by
  induction h with
  | nil => exact List.forall_mem_nil _
  | last w => exact List.forall_mem_singleton.2 fun _ => id
  | cons w _ _ ih =>
    refine List.forall_mem_cons.2 ⟨List.subset_append_left _ _, fun v hv => ?_⟩
    exact List.subset_append_of_subset_right _ (List.subset_cons_of_subset _ (ih v hv))

theorem Separated.spelled {γ : Type} {tokensOf : γ → List Token}
    {good : γ → Prop} {cs : List γ}
    (h : Separated (cs.map tokensOf) w) (hw : ∀ t ∈ w, t.Spelled)
    (hc : ∀ c ∈ cs, (∀ t ∈ tokensOf c, t.Spelled) → good c) : ∀ c ∈ cs, good c :=
  fun c hc' => hc c hc' fun t ht => hw t (h.subset _ (List.mem_map_of_mem hc') ht)

theorem DerivesAt.spelled {Placed : Span → Span → Prop} {q : Power} {e : Expr}
    (h : DerivesAt Placed q w e) (hw : ∀ t ∈ w, t.Spelled) : e.Spelled := by
  induction h with
  | number ht => exact .number ((hw _ List.mem_cons_self).numeral ht)
  | string => exact .string
  | boolean => exact .boolean
  | symbol ht => exact .symbol ((hw _ List.mem_cons_self).word ht)
  | group _ _ _ ih =>
    simp only [List.forall_mem_cons, List.forall_mem_append] at hw
    exact ih hw.2.1
  | array _ _ hsep _ _ ih =>
    simp only [List.forall_mem_cons, List.forall_mem_append] at hw
    exact .array (List.forall_mem_map.2 (hsep.spelled hw.2.1 ih))
  | @dict _ _ entries _ _ _ _ _ _ hsep _ _ ihk ihv =>
    simp only [List.forall_mem_cons, List.forall_mem_append] at hw
    have hentry : ∀ p ∈ entries, p.key.value.Spelled ∧ p.value.value.Spelled := by
      refine hsep.spelled hw.2.1 fun p hp hw => ?_
      rw [EntryPhrase.tokens, List.forall_mem_append, List.forall_mem_cons] at hw
      exact ⟨ihk p hp hw.1, ihv p hp hw.2.2⟩
    exact .dict (List.forall_mem_map.2 fun p hp => (hentry p hp).1)
      (List.forall_mem_map.2 fun p hp => (hentry p hp).2)
  | call _ _ _ _ hsep _ _ ih ihs =>
    simp only [List.forall_mem_cons, List.forall_mem_append] at hw
    exact .call (ih hw.1) (List.forall_mem_map.2 (hsep.spelled hw.2.2.1 ihs))
  | subscript _ _ _ _ _ _ ih ih' =>
    simp only [List.forall_mem_cons, List.forall_mem_append] at hw
    exact .subscript (ih hw.1) (ih' hw.2.2.1)
  | member _ _ _ hname _ _ ih =>
    simp only [List.forall_mem_cons, List.forall_mem_append] at hw
    exact .member (ih hw.1) (hw.2.2.1.word hname)
  | unary _ _ _ ih => exact .unary (ih (List.forall_mem_cons.1 hw).2)
  | binary _ _ _ _ _ ih ih' =>
    simp only [List.forall_mem_cons, List.forall_mem_append] at hw
    exact .binary (ih hw.1) (ih' hw.2.2)
  | conditional _ _ _ _ _ _ _ ih ih₁ ih₂ =>
    simp only [List.forall_mem_cons, List.forall_mem_append] at hw
    exact .conditional (ih hw.1) (ih₁ hw.2.2.1) (ih₂ hw.2.2.2.2)
  | tighten _ ih => exact ih hw

theorem Parameter.Stands.spelled {p : Parameter} (h : p.Stands w) (hw : ∀ t ∈ w, t.Spelled) :
    p.Spelled := by
  cases h with
  | mk hname => exact (hw _ List.mem_cons_self).word hname

theorem Assignment.Stands.spelled {a : Assignment} (h : a.Stands w) (hw : ∀ t ∈ w, t.Spelled) :
    a.Spelled := by
  cases h with
  | mk htarget _ hvalue =>
    simp only [List.forall_mem_append] at hw
    exact ⟨DerivesAt.spelled htarget hw.1.1, DerivesAt.spelled hvalue hw.2⟩

theorem Stmt.spelled_body {body : List (List Token × Stmt)}
    (hw : ∀ t ∈ body.flatMap Prod.fst, t.Spelled)
    (h : ∀ c ∈ body, (∀ t ∈ c.1, t.Spelled) → c.2.Spelled) :
    ∀ s ∈ body.map Prod.snd, s.Spelled := by
  refine List.forall_mem_map.2 fun c hc => h c hc fun t ht => hw t ?_
  exact List.mem_flatMap.2 ⟨c, hc, ht⟩

theorem Stmt.Stands.spelled {s : Stmt} (h : s.Stands w) (hw : ∀ t ∈ w, t.Spelled) :
    s.Spelled := by
  induction h with
  | assignment ha => exact .assignment (ha.spelled hw)
  | function _ hname _ hparams hsep _ _ _ _ hend ih =>
    simp only [List.forall_mem_cons, List.forall_mem_append] at hw
    have hparams := hsep.spelled hw.1.1.1.2.1 fun p hp => (hparams p hp).spelled
    exact .function (hw.1.1.1.1.2.1.word hname) (List.forall_mem_map.2 hparams)
      (spelled_body hw.1.2.1 ih) (hw.2.1.word hend)
  | rangeFor _ _ hinit _ hupdate _ _ _ htest ih =>
    simp only [List.forall_mem_cons, List.forall_mem_append] at hw
    exact .rangeFor (hinit.spelled hw.1.1.1.1.1.2) (hupdate.spelled hw.1.1.1.2)
      (spelled_body hw.1.2.1 ih) (DerivesAt.spelled htest hw.2)
  | collectionFor _ hname _ hcollection _ _ _ ih =>
    simp only [List.forall_mem_cons, List.forall_mem_append] at hw
    exact .collectionFor (hw.1.1.1.2.1.word hname) (DerivesAt.spelled hcollection hw.1.1.2)
      (spelled_body hw.1.2.1 ih)
  | ret => exact .ret fun _ h => nomatch h
  | returns _ hvalue =>
    simp only [List.forall_mem_append] at hw
    refine .ret ?_
    rintro e ⟨⟩
    exact DerivesAt.spelled hvalue hw.2
  | brk => exact .brk
  | call he =>
    cases DerivesAt.spelled he hw with
    | call hcallee hargs => exact .call hcallee hargs

end Spelled

/-- Only words are identifiers and only numerals are numbers. -/
theorem Token.StandsFor.spelled {t : Token} {lexeme rest : List Char}
    (h : t.StandsFor lexeme rest) : t.Spelled := by
  obtain ⟨p, hfirst, htoken⟩ := h.matched
  obtain ⟨hp, hsplit⟩ := Pattern.first?_generation hfirst
  cases p with
  | word =>
    obtain ⟨hkind, hvalue⟩ := Prod.mk.inj (Option.some.inj htoken)
    constructor
    · intro hk
      exact absurd (hkind.trans hk) (Pattern.ofWord_ne _).2.2
    · intro _
      rw [← hvalue, String.toList_ofList]
      exact Pattern.split?_isWord hsplit
  | number =>
    obtain ⟨hkind, hvalue⟩ := Prod.mk.inj (Option.some.inj htoken)
    constructor
    · intro _
      rw [← hvalue, String.toList_ofList]
      exact Pattern.split?_numeral hsplit
    · intro hk
      cases hkind.trans hk
  | string quote =>
    obtain ⟨hkind, -⟩ := Prod.mk.inj (Option.some.inj htoken)
    constructor
    · intro hk
      cases hkind.trans hk
    · intro hk
      cases hkind.trans hk
  | symbol kind spelling value =>
    obtain ⟨rfl, -⟩ := Prod.mk.inj (Option.some.inj htoken)
    have hplain := (Pattern.symbol_regular hp).1
    constructor
    · intro hk
      rw [hk] at hplain
      exact absurd hplain (by decide)
    · intro hk
      rw [hk] at hplain
      exact absurd hplain (by decide)
  | blank | comment => cases htoken

theorem Tiles.spelled {file : String} {tail before text : List Char} {ts : List Token}
    (h : Tiles file tail before text ts) : ∀ t ∈ ts, t.Spelled := by
  induction h with
  | nil => exact List.forall_mem_nil _
  | cons _ ht _ _ _ ih => exact List.forall_mem_cons.2 ⟨ht.spelled, ih⟩

/-- Tokens are well spelled, or the form of the text is at fault. -/
theorem tokenize_outcome (source file : String) :
    Outcome (fun tokens => ∀ t ∈ tokens, t.Spelled) Error.OfForm (tokenize source file) := by
  have h : Tokenized file [] source.toList (tokenize source file) :=
    Cursor.tokens_tokenized file [] source.toList
  generalize tokenize source file = r at h
  cases h with
  | ok _ htiles _ =>
    intro t ht
    rcases List.mem_append.1 ht with ht | ht
    · exact htiles.spelled t ht
    · rw [List.mem_singleton.1 ht]
      exact Stream.spelled_eof rfl
  | error => rfl

/-- Well spelled tokens make a well spelled program, or their form is at fault. -/
theorem parse_outcome {tokens : List Token} (h : ∀ t ∈ tokens, t.Spelled) (file : String) :
    Outcome Program.Spelled Error.OfForm (parse tokens file) := by
  have hs := Stream.ofTokens_ends tokens file
  cases hp : parse tokens file with
  | ok p =>
    obtain ⟨body, s', hstatements, hbody, hpassed, -⟩ := Reader.stands_of_parse hp
    have htokens := Stream.ofTokens_spelled h file
    rw [hpassed.tokens_eq, List.forall_mem_append] at htokens
    rw [Outcome, Program.Spelled, hstatements]
    exact Stmt.spelled_body htokens.1 fun c hc => (hbody c hc).spelled
  | error e =>
    exact (Tandem.matches_program trivial (Tandem.beside_self _)).ofForm hs (Nat.le_refl _) hp

end Scriptor
