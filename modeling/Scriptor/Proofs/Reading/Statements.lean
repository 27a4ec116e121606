import Scriptor.Proofs.Reading.Soundness
import Scriptor.Reader.Statement

namespace Scriptor

/-- Whether the tokens stand for the expression, and its spans are those of its marks. -/
abbrev Expr.Stands (w : List Token) (e : Expr) : Prop := DerivesAt Eq .conditional w e

inductive Ty.Stands : List Token → Ty → Prop where
  | name {t : Token} {ty : Ty} :
      t.kind = .identifier → Ty.ofName? t.value = some ty → Stands [t] ty
  | array {l r : Token} {w : List Token} {base : Ty} :
      l.kind = .openBracket → Stands w base → r.kind = .closeBracket →
      Stands (l :: (w ++ [r])) (.array base)
  | dict {l r : Token} {w : List Token} {base : Ty} :
      l.kind = .openDict → Stands w base → r.kind = .closeDict →
      Stands (l :: (w ++ [r])) (.dict base)

inductive Ascription.Stands : List Token → Ascription → Prop where
  | mk {w : List Token} {ty : Ty} {first last : Token} :
      ty.Stands w → w.head? = some first → w.getLast? = some last →
      Stands w ⟨ty, first.span.start, last.span.stop⟩

/-- Whether the tokens stand for an ascription behind the mark, or there are none. -/
inductive Ascription.StandsAfter (mark : Kind) : List Token → Option Ascription → Prop where
  | nil : StandsAfter mark [] none
  | cons {t : Token} {w : List Token} {a : Ascription} :
      t.kind = mark → a.Stands w → StandsAfter mark (t :: w) (some a)

inductive Parameter.Stands : List Token → Parameter → Prop where
  | mk {name last : Token} {w : List Token} {a : Option Ascription} :
      name.kind = .identifier → Ascription.StandsAfter .colon w a →
      (name :: w).getLast? = some last →
      Stands (name :: w) ⟨name.value, a, name.span.start, last.span.stop⟩

inductive Assignment.Stands : List Token → Assignment → Prop where
  | mk {t : Token} {w w' : List Token} {target value : Expr} :
      target.Stands w → Reader.isAssignment t.kind = true → value.Stands w' →
      Stands (w ++ [t] ++ w')
        ⟨target, t.kind.compound?.bind Kind.binaryOp?, value, target.start, value.span.stop⟩

inductive Stmt.Stands : List Token → Stmt → Prop where
  | assignment {w : List Token} {a : Assignment} : a.Stands w → Stands w (.assignment a)
  | function {keyword name opening closing endWord endName : Token} {ws w : List Token}
      {parameters : List (List Token × Parameter)} {result : Option Ascription}
      {body : List (List Token × Stmt)} :
      keyword.kind = .functionWord → name.kind = .identifier → opening.kind = .openParen →
      (∀ p ∈ parameters, p.2.Stands p.1) → Separated (parameters.map Prod.fst) ws →
      closing.kind = .closeParen → Ascription.StandsAfter .arrow w result →
      (∀ s ∈ body, Stands s.1 s.2) → endWord.kind = .endWord →
      endName.kind = .identifier →
      Stands ([keyword, name, opening] ++ (ws ++ [closing]) ++ w ++
          (body.flatMap Prod.fst ++ [endWord]) ++ [endName])
        (.function name.value (parameters.map Prod.snd) result (body.map Prod.snd) endName.value
          endName.span ⟨keyword.span.start, endName.span.stop⟩)
  | rangeFor {keyword opening comma closing endWord : Token} {w₁ w₂ w₃ : List Token}
      {init update : Assignment} {body : List (List Token × Stmt)} {test : Expr} :
      keyword.kind = .forWord → opening.kind = .openParen → init.Stands w₁ →
      comma.kind = .comma →
      update.Stands w₂ → closing.kind = .closeParen → (∀ s ∈ body, Stands s.1 s.2) →
      endWord.kind = .endWord → test.Stands w₃ →
      Stands ([keyword, opening] ++ w₁ ++ [comma] ++ w₂ ++ [closing] ++
          (body.flatMap Prod.fst ++ [endWord]) ++ w₃)
        (.rangeFor init update (body.map Prod.snd) test ⟨keyword.span.start, test.span.stop⟩)
  | collectionFor {keyword name inWord endWord last : Token} {w : List Token} {collection : Expr}
      {body : List (List Token × Stmt)} :
      keyword.kind = .forWord → name.kind = .identifier → inWord.kind = .inWord →
      collection.Stands w → (∀ s ∈ body, Stands s.1 s.2) → endWord.kind = .endWord →
      last.kind = .forWord →
      Stands ([keyword, name, inWord] ++ w ++ (body.flatMap Prod.fst ++ [endWord]) ++ [last])
        (.collectionFor name.value name.span collection (body.map Prod.snd)
          ⟨keyword.span.start, last.span.stop⟩)
  | ret {keyword : Token} : keyword.kind = .returnWord → Stands [keyword] (.ret none keyword.span)
  | returns {keyword : Token} {w : List Token} {value : Expr} :
      keyword.kind = .returnWord → value.Stands w →
      Stands ([keyword] ++ w) (.ret (some value) ⟨keyword.span.start, value.span.stop⟩)
  | brk {keyword : Token} : keyword.kind = .breakWord → Stands [keyword] (.brk keyword.span)
  | call {w : List Token} {callee : Expr} {arguments : List Expr} {span : Span} :
      Expr.Stands w (.call callee arguments span) → Stands w (.call callee arguments span)

theorem Ty.Stands.ne_nil {w : List Token} {ty : Ty} (h : ty.Stands w) : w ≠ [] := by
  cases h <;> exact List.cons_ne_nil _ _

theorem Stmt.Stands.ne_nil {w : List Token} {s : Stmt} (h : s.Stands w) : w ≠ [] := by
  cases h with
  | assignment ha =>
    cases ha with
    | mk htarget => simp
  | rangeFor | collectionFor | function | ret | returns | brk => simp
  | call he => exact DerivesAt.ne_nil he

def TypeForm.kind : TypeForm → Kind
  | .name => .identifier
  | .array => .openBracket
  | .dict => .openDict

def Opening.kind : Opening → Kind
  | .function => .functionWord
  | .loop => .forWord
  | .ret => .returnWord
  | .brk => .breakWord

namespace Grammar

variable {k : Kind}

theorem kind_of_typeForm {form : TypeForm} (h : full.typeForm k = some form) : k = form.kind := by
  cases k <;> cases h <;> rfl

theorem kind_of_opening {form : Opening} (h : full.opening k = some form) : k = form.kind := by
  cases k <;> cases h <;> rfl

end Grammar

namespace Reader

variable {s s' : Stream}

theorem stands_expression : Passes (expression .full .default) [] Expr.Stands s := by
  intro hs e s' he
  obtain ⟨w, hw, hd, -⟩ := sound_expressionWithin s.size .default s e s' (by decide) hs.ends he
  exact ⟨w, hw, hd⟩

theorem stands_typeWithin (depth : Nat) : Passes (typeWithin .full depth) [] Ty.Stands s := by
  induction depth generalizing s with
  | zero => exact .unexpectedBecause
  | succ depth ih =>
    rw [typeWithin, typeOver]
    apply Passes.kind
    cases hform : Grammar.full.typeForm s.kind with
    | none => exact .unexpectedBecause
    | some form =>
      have hkind := Grammar.kind_of_typeForm hform
      cases form with
      | name =>
        apply Passes.stream
        split
        next ty hname =>
          apply Passes.advance (hkind ▸ Kind.noConfusion)
          exact .pure (.name hkind hname)
        next => exact .unexpectedBecause
      | array =>
        apply Passes.advance (hkind ▸ Kind.noConfusion)
        apply Passes.bind ih
        intro w base s' hbase
        apply Passes.expect Kind.noConfusion
        intro hclose
        exact .pure (.array hkind hbase hclose)
      | dict =>
        apply Passes.advance (hkind ▸ Kind.noConfusion)
        apply Passes.bind ih
        intro w base s' hbase
        apply Passes.expect Kind.noConfusion
        intro hclose
        exact .pure (.dict hkind hbase hclose)

theorem stands_ascription : Passes (ascription .full) [] Ascription.Stands s := by
  have htype : Passes (bounded (typeWithin .full)) [] (fun w ty => w ≠ [] ∧ Ty.Stands w ty) s :=
    (Passes.bounded stands_typeWithin).behind fun w ty hty => ⟨hty.ne_nil, hty⟩
  apply Passes.stream
  apply Passes.bind htype.head?
  intro w ty s' hw
  obtain ⟨last, hlast⟩ :=
    Option.ne_none_iff_exists'.1 (List.getLast?_eq_none_iff.not.2 hw.2.ne_nil)
  exact .previousEnd hlast (.pure (.mk hw.2 hw.1 hlast))

theorem stands_ascriptionAfter {announcing : Kind} (hne : announcing ≠ .eof) :
    Passes (ascriptionAfter .full announcing) [] (Ascription.StandsAfter announcing) s := by
  apply Passes.kind
  split
  next hk =>
    apply Passes.advance (hk ▸ hne)
    apply Passes.bind stands_ascription
    intro w a s' ha
    exact .pure (.cons hk ha)
  next => exact .pure .nil

theorem stands_parameter : Passes (parameter .full) [] Parameter.Stands s := by
  apply Passes.expect Kind.noConfusion
  intro hname
  apply Passes.bind (stands_ascriptionAfter Kind.noConfusion)
  intro w a s' ha
  have hlast : (s.current :: w).getLast? = some ((s.current :: w).getLast (List.cons_ne_nil _ _)) :=
    List.getLast?_eq_some_getLast _
  exact .previousEnd hlast (.pure (.mk hname ha hlast))

theorem stands_assignmentTo {target : Expr} (hk : isAssignment s.kind = true) :
    Passes (assignmentTo .full target) []
      (fun w a => ∀ w₀, target.Stands w₀ → Assignment.Stands (w₀ ++ w) a) s := by
  have hne : s.kind ≠ .eof := by
    intro heof
    rw [heof] at hk
    cases hk
  unfold assignmentTo
  split
  case h_3 => exact .stream fun _ a s' h => nomatch h
  all_goals
    apply Passes.advance hne
    apply Passes.bind stands_expression
    intro w value s' hvalue
    refine .pure fun w₀ htarget => ?_
    rw [List.nil_append, ← List.append_assoc]
    exact .mk htarget hk hvalue

theorem stands_assignment : Passes (assignment .full) [] Assignment.Stands s := by
  apply Passes.bind stands_expression
  intro w target s' htarget
  apply Passes.kind
  split
  next hk => exact (stands_assignmentTo hk).behind fun w' a ha => ha w htarget
  next => exact .unexpectedBecause

section Statements

variable {inner : Reader Stmt} (hinner : ∀ s, Passes inner [] Stmt.Stands s)

include hinner

theorem stands_block :
    Passes (block inner) [] (fun w stmts => ∃ (body : List (List Token × Stmt))
    (t : Token), w = body.flatMap Prod.fst ++ [t] ∧ stmts = body.map Prod.snd ∧
      (∀ c ∈ body, c.2.Stands c.1) ∧ t.kind = .endWord) s := by
  apply Passes.bounded
  intro n
  induction n generalizing s with
  | zero => exact .unexpectedBecause
  | succ n ih =>
    rw [blockWithin, blockRound]
    apply Passes.kind
    split
    next hk =>
      apply Passes.advance (hk ▸ Kind.noConfusion)
      exact .pure ⟨[], s.current, rfl, rfl, List.forall_mem_nil _, hk⟩
    next =>
      apply Passes.kind
      split
      next => exact .unexpectedBecause
      next =>
        apply Passes.bind (hinner s)
        intro w stmt s' hstmt
        apply Passes.bind ih
        intro w' stmts s'' hstmts
        obtain ⟨body, t, rfl, rfl, hbody, ht⟩ := hstmts
        refine .pure
          ⟨(w, stmt) :: body, t, ?_, rfl, List.forall_mem_cons.2 ⟨hstmt, hbody⟩, ht⟩
        rw [List.nil_append, List.flatMap_cons, List.append_assoc]

theorem stands_functionDeclaration (hk : s.kind = .functionWord) :
    Passes (functionDeclaration .full inner) [] Stmt.Stands s := by
  apply Passes.advance (hk ▸ Kind.noConfusion)
  apply Passes.expect Kind.noConfusion
  intro hname
  apply Passes.expect Kind.noConfusion
  intro hopen
  apply Passes.bind (.items Kind.noConfusion fun s => stands_parameter)
  intro w₁ params s₁ hparams
  obtain ⟨cs, ws, t, rfl, rfl, hcs, hsep, ht⟩ := hparams
  apply Passes.bind (stands_ascriptionAfter Kind.noConfusion)
  intro w₂ result s₂ hresult
  apply Passes.bind (stands_block hinner)
  intro w₃ stmts s₃ hstmts
  obtain ⟨body, u, rfl, rfl, hbody, hu⟩ := hstmts
  apply Passes.stream
  apply Passes.expectOr Kind.noConfusion
  intro hend
  exact .pure (.function hk hname hopen hcs hsep ht hresult hbody hu hend)

theorem stands_loop (hk : s.kind = .forWord) : Passes (loop .full inner) [] Stmt.Stands s := by
  apply Passes.advance (hk ▸ Kind.noConfusion)
  apply Passes.kind
  split
  next hopen =>
    apply Passes.advance (hopen ▸ Kind.noConfusion)
    apply Passes.bind stands_assignment
    intro w₁ init s₁ hinit
    apply Passes.expect Kind.noConfusion
    intro hcomma
    apply Passes.bind stands_assignment
    intro w₂ update s₂ hupdate
    apply Passes.expect Kind.noConfusion
    intro hclose
    apply Passes.bind (stands_block hinner)
    intro w₃ stmts s₃ hstmts
    obtain ⟨body, t, rfl, rfl, hbody, ht⟩ := hstmts
    apply Passes.bind stands_expression
    intro w₄ test s₄ htest
    exact .pure (.rangeFor hk hopen hinit hcomma hupdate hclose hbody ht htest)
  next =>
    apply Passes.expect Kind.noConfusion
    intro hname
    apply Passes.expect Kind.noConfusion
    intro hin
    apply Passes.bind stands_expression
    intro w₁ collection s₁ hcollection
    apply Passes.bind (stands_block hinner)
    intro w₂ stmts s₂ hstmts
    obtain ⟨body, t, rfl, rfl, hbody, ht⟩ := hstmts
    apply Passes.expect Kind.noConfusion
    intro hclose
    exact .pure (.collectionFor hk hname hin hcollection hbody ht hclose)

end Statements

theorem stands_returnStatement (hk : s.kind = .returnWord) :
    Passes (returnStatement .full) [] Stmt.Stands s := by
  apply Passes.advance (hk ▸ Kind.noConfusion)
  apply Passes.stream
  dsimp only
  split
  next => exact .pure (.ret hk)
  next =>
    apply Passes.bind stands_expression
    intro w value s' hvalue
    exact .pure (.returns hk hvalue)

theorem stands_plainStatement : Passes (plainStatement .full) [] Stmt.Stands s := by
  apply Passes.bind stands_expression
  intro w e s' he
  apply Passes.kind
  split
  next hk =>
    apply Passes.bind (stands_assignmentTo hk)
    intro w' a s'' ha
    exact .pure (.assignment (ha w he))
  next =>
    split
    next => exact .pure (.call he)
    next => exact .unexpectedBecause

theorem stands_statement : Passes (statement .full) [] Stmt.Stands s := by
  apply Passes.bounded
  intro n
  induction n generalizing s with
  | zero => exact .unexpected
  | succ n ih =>
    rw [statementWithin, statementOver]
    apply Passes.kind
    cases hform : Grammar.full.opening s.kind with
    | none => exact stands_plainStatement
    | some form =>
      have hk := Grammar.kind_of_opening hform
      cases form with
      | function => exact stands_functionDeclaration (fun s' => ih) hk
      | loop => exact stands_loop (fun s' => ih) hk
      | ret => exact stands_returnStatement hk
      | brk =>
        apply Passes.advance (hk ▸ Kind.noConfusion)
        exact .pure (.brk hk)

theorem statementsWithin_generation {n : Nat} {stmts : List Stmt} :
    Reads (statementsWithin .full (n + 1)) s stmts s' ↔
      (s.kind = .eof ∧ stmts = [] ∧ s' = s) ∨
      (s.kind ≠ .eof ∧ ∃ stmt rest s₁, Reads (statement .full) s stmt s₁ ∧
        Reads (statementsWithin .full n) s₁ rest s' ∧ stmts = stmt :: rest) := by
  rw [statementsWithin, statementsRound, reads_kind_bind]
  by_cases hk : s.kind = .eof
  · simp [hk, reads_pure]
  · rw [if_neg hk]
    constructor
    · intro h
      obtain ⟨stmt, s₁, hstmt, h⟩ := reads_bind.1 h
      obtain ⟨rest, s₂, hrest, h⟩ := reads_bind.1 h
      obtain ⟨rfl, rfl⟩ := reads_pure.1 h
      exact .inr ⟨hk, stmt, rest, s₁, hstmt, hrest, rfl⟩
    · rintro (⟨heof, -⟩ | ⟨-, stmt, rest, s₁, hstmt, hrest, rfl⟩)
      · exact absurd heof hk
      · exact reads_bind.2
          ⟨stmt, s₁, hstmt, reads_bind.2 ⟨rest, s', hrest, reads_pure.2 ⟨rfl, rfl⟩⟩⟩

/-- Each statement passes a token, so that the bound is not reached before the end of the text. -/
theorem stands_statementsWithin {bound : Nat} {stmts : List Stmt} (hs : s.Ends)
    (hbound : s.size ≤ bound) (h : Reads (statementsWithin .full bound) s stmts s') :
    ∃ body : List (List Token × Stmt), stmts = body.map Prod.snd ∧
      (∀ c ∈ body, c.2.Stands c.1) ∧
      s.Passed (body.flatMap Prod.fst) s' ∧ s'.kind = .eof := by
  induction bound generalizing s stmts with
  | zero => exact absurd hbound (Nat.not_succ_le_zero _)
  | succ bound ih =>
    rcases statementsWithin_generation.1 h with ⟨heof, rfl, rfl⟩
      | ⟨-, stmt, rest, s₁, hstmt, hrest, rfl⟩
    · exact ⟨[], rfl, List.forall_mem_nil _, .refl _, heof⟩
    · obtain ⟨w, hw, hstands⟩ := stands_statement hs.behind stmt s₁ hstmt
      have hsize : s₁.size ≤ bound :=
        Nat.le_of_lt_succ (Nat.lt_of_lt_of_le (hw.size_lt hstands.ne_nil) hbound)
      obtain ⟨body, rfl, hbody, hw', heof⟩ := ih (hw.ends hs) hsize hrest
      exact ⟨(w, stmt) :: body, rfl, List.forall_mem_cons.2 ⟨hstands, hbody⟩,
        hw.trans hw', heof⟩

theorem parse_eq_ok_iff {ts : List Token} {file : String} {p : Program} :
    parse ts file = .ok p ↔
      ∃ s₁, Reads (bounded (statementsWithin .full)) (.ofTokens ts file) p.statements s₁ := by
  constructor
  · intro h
    have hprogram : Reads program (.ofTokens ts file) p _ := Prod.ext h rfl
    obtain ⟨stmts, s₁, hstmts, hpure⟩ := reads_bind.1 hprogram
    obtain ⟨rfl, -⟩ := reads_pure.1 hpure
    exact ⟨s₁, hstmts⟩
  · rintro ⟨s₁, h⟩
    have hprogram : Reads program (.ofTokens ts file) p s₁ :=
      reads_bind.2 ⟨_, s₁, h, reads_pure.2 ⟨rfl, rfl⟩⟩
    exact congrArg Prod.fst hprogram

/-- A program is derived from its tokens, up to the first end of the text. -/
theorem stands_of_parse {ts : List Token} {file : String} {p : Program}
    (h : parse ts file = .ok p) :
    ∃ (body : List (List Token × Stmt)) (s' : Stream), p.statements = body.map Prod.snd ∧
      (∀ c ∈ body, c.2.Stands c.1) ∧
      (Stream.ofTokens ts file).Passed (body.flatMap Prod.fst) s' ∧
      s'.kind = .eof := by
  obtain ⟨s', hread⟩ := parse_eq_ok_iff.1 h
  obtain ⟨body, hbody⟩ :=
    stands_statementsWithin (Stream.ofTokens_ends ts file) (Nat.le_refl _) hread
  exact ⟨body, s', hbody⟩

end Reader

end Scriptor
