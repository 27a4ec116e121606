import Scriptor.Proofs.Reading.Completeness
import Scriptor.Proofs.Reading.Rendering
import Scriptor.Reader.Statement

namespace Scriptor

namespace Reader

section Acceptance

variable {α β : Type} {r : Reader α} {f : α → Reader β} {a : α} {t next : Token} {k : Kind}
  {ts ts' : List Token} {good : α → Prop} {good' : β → Prop}

/-- Whether the reader passes tokens that are written as `ts` before one that is written as
`next`. -/
def Accepts (r : Reader α) (ts : List Token) (next : Token) (good : α → Prop) : Prop :=
  ∀ (w : List Token) (u : Token), w.map Token.bare = ts → u.bare = next.bare →
    Takes r w u good

theorem bare_lead {w : List Token} {u : Token} (hw : w.map Token.bare = ts)
    (hu : u.bare = next.bare) : (lead w u).bare = (lead ts next).bare := by
  cases ts with
  | nil =>
    obtain rfl := List.map_eq_nil_iff.1 hw
    exact hu
  | cons t ts =>
    obtain ⟨v, w, rfl, rfl, -⟩ := List.map_eq_cons_iff.1 hw
    rfl

theorem kind_lead {w : List Token} {u : Token} (hw : w.map Token.bare = ts)
    (hu : u.bare = next.bare) : (lead w u).kind = (lead ts next).kind := by
  change (lead w u).bare.kind = (lead ts next).bare.kind
  rw [bare_lead hw hu]

theorem Accepts.pure (h : good a) : Accepts (pure a) [] next good := by
  intro w u hw _
  obtain rfl := List.map_eq_nil_iff.1 hw
  exact .pure h

theorem Accepts.bind (h : Accepts r ts (lead ts' next) good)
    (hf : ∀ a, good a → Accepts (f a) ts' next good') :
    Accepts (r >>= f) (ts ++ ts') next good' := by
  intro w u hw hu
  obtain ⟨w₁, w₂, rfl, hw₁, hw₂⟩ := List.map_eq_append_iff.1 hw
  apply Takes.bind (h w₁ (lead w₂ u) hw₁ (bare_lead hw₂ hu))
  intro a ha
  exact hf a ha w₂ u hw₂ hu

theorem Accepts.last (h : Accepts r ts next good)
    (hf : ∀ a, good a → Accepts (f a) [] next good') : Accepts (r >>= f) ts next good' := by
  have hbind : Accepts (r >>= f) (ts ++ []) next good' := Accepts.bind h hf
  rwa [List.append_nil] at hbind

theorem Accepts.advance {f : Token → Reader α}
    (h : ∀ u : Token, u.bare = t → Accepts (f u) ts next good) :
    Accepts (Reader.advance >>= f) (t :: ts) next good := by
  intro w u hw hu
  obtain ⟨v, w, rfl, hv, hw⟩ := List.map_eq_cons_iff.1 hw
  exact .advance (h v hv w u hw hu)

theorem Accepts.expectOr {e : Error} {f : Token → Reader α} (hk : t.kind = k)
    (h : ∀ u : Token, u.bare = t → Accepts (f u) ts next good) :
    Accepts (Reader.expectOr k e >>= f) (t :: ts) next good := by
  intro w u hw hu
  obtain ⟨v, w, rfl, hv, hw⟩ := List.map_eq_cons_iff.1 hw
  have hkind : v.kind = k := by
    rw [← hk, ← hv]
    rfl
  exact .expectOr hkind (h v hv w u hw hu)

theorem Accepts.expect {f : Token → Reader α} (hk : t.kind = k)
    (h : ∀ u : Token, u.bare = t → Accepts (f u) ts next good) :
    Accepts (Reader.expect k >>= f) (t :: ts) next good := by
  intro w u hw hu s rest hs
  exact Accepts.expectOr (e := s.unexpected) hk h w u hw hu s rest hs

theorem Accepts.stream {f : Stream → Reader α}
    (h : ∀ s : Stream, s.current.bare = (lead ts next).bare → Accepts (f s) ts next good) :
    Accepts (Reader.stream >>= f) ts next good := by
  intro w u hw hu
  apply Takes.stream
  intro s hs
  exact h s (hs ▸ bare_lead hw hu) w u hw hu

theorem Accepts.kind {f : Kind → Reader α} (h : Accepts (f (lead ts next).kind) ts next good) :
    Accepts (Reader.kind >>= f) ts next good := by
  intro w u hw hu
  apply Takes.kind
  rw [kind_lead hw hu]
  exact h w u hw hu

theorem Accepts.previousEnd {f : Position → Reader α} (h : ∀ p, Accepts (f p) ts next good) :
    Accepts (Reader.previousEnd >>= f) ts next good := by
  intro w u hw hu
  exact .previousEnd fun p => h p w u hw hu

theorem Accepts.bounded {r : Nat → Reader α}
    (h : ∀ n, ts.length < n → Accepts (r n) ts next good) :
    Accepts (bounded r) ts next good := by
  intro w u hw hu
  have hlength : w.length = ts.length := by rw [← hw, List.length_map]
  apply Takes.bounded
  intro n hn
  exact h n (hlength ▸ hn) w u hw hu

end Acceptance

section Parts

variable {next : Token}

theorem accepts_expression (e : Expr) (line : Bool)
    (hstop : continuation? .full .default next = none) :
    Accepts (expression .full .default) (e.render line) next (·.bare = e.bare) := by
  intro w u hw hu
  have hd := (e.derives_render line w hw).loosen e.conditional_rank_le_layer
  have hstop' : continuation? .full .default u = none := by
    change continuation? .full .default u.bare = none
    rw [hu]
    exact hstop
  exact takes_expression hd hstop'

theorem accepts_typeName {ty : Ty} {depth : Nat} (hname : Ty.ofName? ty.text = some ty)
    (hdepth : 0 < depth) :
    Accepts (typeWithin .full depth) [.written .identifier ty.text false] next (· = ty) := by
  obtain ⟨depth, rfl⟩ := Nat.exists_eq_add_one_of_ne_zero (Nat.ne_of_gt hdepth)
  apply Accepts.kind
  apply Accepts.stream
  intro s hs
  have hvalue : s.current.value = ty.text := (Token.bare_eq_written hs).2.1
  rw [hvalue, hname]
  apply Accepts.advance
  intro u _
  exact .pure rfl

theorem accepts_enclosedType {inner : Reader Ty} {ts : List Token} {l r : Token}
    {wrap : Ty → Ty} {base : Ty} (h : Accepts inner ts r (· = base)) :
    Accepts (do
      let _ ← advance
      let base ← inner
      let _ ← expect r.kind
      return wrap base) (l :: (ts ++ [r])) next (· = wrap base) := by
  apply Accepts.advance
  intro _ _
  apply Accepts.bind h
  intro ty hty
  apply Accepts.expect rfl
  intro _ _
  exact .pure (congrArg wrap hty)

theorem accepts_type :
    (ty : Ty) → ty.IsPlain → (depth : Nat) → ty.render.length ≤ depth → (next : Token) →
    Accepts (typeWithin .full depth) ty.render next (· = ty)
  | .array base, hty, 0, hdepth, _ | .dict base, hty, 0, hdepth, _ => by cases hdepth
  | .array base, hty, depth + 1, hdepth, _ => by
    rw [Ty.render, List.length_cons, List.length_append] at hdepth
    apply Accepts.kind
    exact accepts_enclosedType (accepts_type base hty depth (by omega) (.mark .closeBracket false))
  | .dict base, hty, depth + 1, hdepth, _ => by
    rw [Ty.render, List.length_cons, List.length_append] at hdepth
    apply Accepts.kind
    exact accepts_enclosedType (accepts_type base hty depth (by omega) (.mark .closeDict false))
  | .function _ _, hty, _, _, _ => hty.elim
  | .int, _, _, hdepth, _ | .float, _, _, hdepth, _ | .string, _, _, hdepth, _
  | .bool, _, _, hdepth, _
  | .void, _, _, hdepth, _ | .any, _, _, hdepth, _ => accepts_typeName (by decide) hdepth

theorem accepts_ascription {a : Ascription} (ha : a.ty.IsPlain) :
    Accepts (ascription .full) a.ty.render next (·.bare = a.bare) := by
  have htype : Accepts (bounded (typeWithin .full)) a.ty.render next (· = a.ty) := by
    apply Accepts.bounded
    intro depth hdepth
    exact accepts_type a.ty ha depth (Nat.le_of_lt hdepth) next
  apply Accepts.stream
  intro s _
  apply Accepts.last htype
  intro ty hty
  apply Accepts.previousEnd
  intro stop
  apply Accepts.pure
  rw [hty]
  rfl

theorem accepts_ascriptionAfter {announcing : Kind} {a : Option Ascription}
    (ha : Ascription.IsPlain a) (hnext : next.kind ≠ announcing) :
    Accepts (ascriptionAfter .full announcing) (Ascription.render announcing a) next
      (·.map Ascription.bare = a.map Ascription.bare) := by
  apply Accepts.kind
  cases a with
  | none =>
    rw [Ascription.render, lead, if_neg hnext]
    exact .pure rfl
  | some a =>
    rw [Ascription.render, lead, Token.kind_mark, if_pos rfl]
    apply Accepts.advance
    intro _ _
    apply Accepts.last (accepts_ascription ha)
    intro a' ha'
    exact .pure (congrArg some ha')

theorem accepts_parameter {p : Parameter} (hp : Ascription.IsPlain p.ascription)
    (hnext : next.kind ≠ .colon) :
    Accepts (parameter .full) p.render next (·.bare = p.bare) := by
  apply Accepts.expect rfl
  intro t ht
  apply Accepts.last (accepts_ascriptionAfter hp hnext)
  intro a ha
  apply Accepts.previousEnd
  intro stop
  apply Accepts.pure
  have hname : t.value = p.name := (Token.bare_eq_written ht).2.1
  rw [hname]
  exact congrArg (Parameter.mk p.name · .nowhere) ha

theorem accepts_parameters {ps : List Parameter} {message : String}
    (hps : ∀ p ∈ ps, Ascription.IsPlain p.ascription) :
    Accepts (items (parameter .full) .closeParen message)
      (separate (ps.map Parameter.render) ++ [.mark .closeParen false]) next
      (·.map Parameter.bare = ps.map Parameter.bare) := by
  intro w u hw _
  obtain ⟨ws, rs, rfl, hws, hrs⟩ := List.map_eq_append_iff.1 hw
  obtain ⟨r, rfl, hr⟩ := List.map_eq_singleton_iff.1 hrs
  have hphrase : ∀ p ∈ ps, ∀ w : List Token, w.map Token.bare = p.render →
      ∃ c : List Token × Parameter, c.2 = p ∧ c.1 = w ∧ c.1.map Token.bare = c.2.render ∧
        Ascription.IsPlain c.2.ascription := by
    intro p hp w hw
    exact ⟨(w, p), rfl, rfl, hw, hps p hp⟩
  obtain ⟨cs, rfl, hsep, hcs⟩ := exists_separated hws hphrase
  have hitem : ∀ c ∈ cs, (∀ next : Token, (lead c.1 next).kind ≠ .closeParen) ∧
      ∀ next : Token, next.kind = .comma ∨ next.kind = .closeParen →
        Takes (parameter .full) c.1 next (·.bare = c.2.bare) := by
    intro c hc
    obtain ⟨hrender, hplain⟩ := hcs c hc
    constructor
    · intro next
      rw [kind_lead hrender rfl]
      exact Kind.noConfusion
    · intro next hnext
      have hcolon : next.kind ≠ .colon := by
        rcases hnext with h | h <;> rw [h] <;> decide
      exact accepts_parameter hplain hcolon c.1 next hrender rfl
  have htakes : Takes (items (parameter .full) .closeParen message) (ws ++ [r]) u
      (List.Forall₂ (fun c p => Parameter.bare p = c.2.bare) cs) := by
    apply Takes.bounded
    intro bound hbound
    rw [List.length_append] at hbound
    exact takes_itemsWithin (by decide) hsep (Token.bare_eq_written hr).1 hitem (by omega)
  apply htakes.imp
  intro ps' hps'
  rw [List.map_map]
  exact (map_eq_map_of_forall₂ hps').symm

theorem isTarget_eq_of_bare {e e' : Expr} (h : e.bare = e'.bare) : e.isTarget = e'.isTarget := by
  have hbare (e : Expr) : e.bare.isTarget = e.isTarget := by cases e <;> rfl
  rw [← hbare e, h, hbare]

theorem markOf_operator {op : Option BinaryOp}
    (h : op ∈ [none, some .add, some .subtract, some .multiply, some .divide, some .modulo]) :
    isAssignment (Assignment.markOf op) = true ∧
      (Assignment.markOf op).compound?.bind Kind.binaryOp? = op ∧
      Grammar.full.trailing (Assignment.markOf op) = none := by
  revert op
  decide

theorem accepts_assignmentTo {a : Assignment} {target : Expr} (ha : a.Writable)
    (htarget : target.bare = a.target.bare) (hstop : continuation? .full .default next = none) :
    Accepts (assignmentTo .full target) (.mark (Assignment.markOf a.operator) false ::
      a.value.render false) next (·.bare = a.bare) := by
  have hrest : Accepts (do
      let t ← advance
      let value ← expression .full .default
      return ⟨target, t.kind.compound?.bind Kind.binaryOp?, value, target.start,
        value.span.stop⟩)
      (.mark (Assignment.markOf a.operator) false :: a.value.render false)
        next (Assignment.bare · = a.bare) := by
    apply Accepts.advance
    intro t ht
    apply Accepts.last (accepts_expression a.value false hstop)
    intro value hvalue
    apply Accepts.pure
    have hk : t.kind = Assignment.markOf a.operator := (Token.bare_eq_written ht).1
    rw [hk, (markOf_operator ha.operator).2.1]
    exact congrArg₂ (Assignment.mk · a.operator · .nowhere) htarget hvalue
  have hform := ha.target
  rw [← isTarget_eq_of_bare htarget] at hform
  cases target with
  | symbol name span => exact hrest
  | subscript indexed index span => exact hrest
  | _ => cases hform

/-- A written assignment is known as one by the mark after its target. -/
theorem accepts_afterTarget {β : Type} {f other : Expr → Reader β} {good : β → Prop}
    {a : Assignment} (ha : a.Writable)
    (line : Bool) (hf : ∀ target : Expr, target.bare = a.target.bare →
      Accepts (f target) (.mark (Assignment.markOf a.operator) false ::
        a.value.render false) next good) :
    Accepts (do
      let target ← expression .full .default
      if isAssignment (← kind) then f target else other target) (a.render line) next good := by
  obtain ⟨hmark, -, htrailing⟩ := markOf_operator ha.operator
  have hstop : continuation? .full .default (.mark (Assignment.markOf a.operator) false) = none :=
    continuation?_eq_none_of_trailing htrailing
  have hread := accepts_expression a.target line hstop
  apply Accepts.bind hread
  intro target htarget
  apply Accepts.kind
  rw [lead, Token.kind_mark, if_pos hmark]
  exact hf target htarget

theorem accepts_assignment {a : Assignment} (ha : a.Writable) (line : Bool)
    (hstop : continuation? .full .default next = none) :
    Accepts (assignment .full) (a.render line) next (·.bare = a.bare) := by
  apply accepts_afterTarget ha line
  intro target htarget
  exact accepts_assignmentTo ha htarget hstop

end Parts

/-- Whether a statement ends before the token. -/
def Follows (t : Token) : Prop :=
  (t.newlineBefore = true ∨ t.kind = .endWord ∨ t.kind = .eof) ∧ isAssignment t.kind = false

section Statements

variable {closing : Bool} {next : Token}

theorem Follows.continuation? (h : Follows next) : continuation? .full .default next = none := by
  rw [continuation?_default_eq_none_iff]
  rcases h.1 with hline | hend | heof
  · exact .inl hline
  · rw [hend]
    exact .inr rfl
  · rw [heof]
    exact .inr rfl

theorem opens_ne {k : Kind}
    (h : Grammar.full.leading k ≠ none ∨ Grammar.full.opening k ≠ none) :
    k ≠ .endWord ∧ k ≠ .eof ∧ k ≠ .arrow ∧ isAssignment k = false := by
  revert h
  cases k <;> decide

theorem opening_eq_none_of_leading {k : Kind} (h : Grammar.full.leading k ≠ none) :
    Grammar.full.opening k = none := by
  revert h
  cases k <;> decide

theorem follows_lead (ss : List Stmt) (h : Follows next) :
    Follows (lead (Stmt.renderAll closing ss) next) := by
  cases ss with
  | nil => exact h
  | cons s ss =>
    have hlead := s.lead_render closing (lead (Stmt.renderAll closing ss) next)
    rw [← lead_append] at hlead
    exact ⟨.inl hlead.1, (opens_ne hlead.2).2.2.2⟩

/-- The first token of a block that is not empty starts a line. -/
theorem follows_block (ss : List Stmt) (next : Token) :
    Follows (lead (Stmt.renderAll closing ss ++ [.mark .endWord closing]) next) := by
  rw [lead_append]
  exact follows_lead ss ⟨.inr (.inl rfl), rfl⟩

theorem kind_block_ne_arrow (ss : List Stmt) (next : Token) :
    (lead (Stmt.renderAll closing ss ++ [.mark .endWord closing]) next).kind ≠ .arrow := by
  cases ss with
  | nil => exact Kind.noConfusion
  | cons s ss =>
    rw [Stmt.renderAll, List.append_assoc, lead_append]
    exact (opens_ne (s.lead_render closing _).2).2.2.1

theorem length_renderAll_lt {s : Stmt} {ss : List Stmt} {bound : Nat}
    (h : (Stmt.renderAll closing (s :: ss)).length < bound + 1) :
    (Stmt.renderAll closing ss).length < bound := by
  have hlength := List.length_pos_of_ne_nil (s.render_ne_nil closing)
  rw [Stmt.renderAll, List.length_append] at h
  omega

def AcceptsAll (closing : Bool) (inner : Reader Stmt) (ss : List Stmt) : Prop :=
  ∀ s ∈ ss, ∀ next : Token, Follows next →
    Accepts inner (s.render closing) next (·.bare = s.bare)

theorem accepts_blockWithin {inner : Reader Stmt} {ss : List Stmt} {bound : Nat}
    (hss : AcceptsAll closing inner ss) (hbound : (Stmt.renderAll closing ss).length < bound) :
    Accepts (blockWithin inner bound) (Stmt.renderAll closing ss ++ [.mark .endWord closing]) next
      (·.map Stmt.bare = ss.map Stmt.bare) := by
  induction ss generalizing bound with
  | nil =>
    obtain ⟨bound, rfl⟩ := Nat.exists_eq_add_one_of_ne_zero (Nat.ne_zero_of_lt hbound)
    apply Accepts.kind
    apply Accepts.advance
    intro _ _
    exact .pure rfl
  | cons s ss ih =>
    obtain ⟨bound, rfl⟩ := Nat.exists_eq_add_one_of_ne_zero (Nat.ne_zero_of_lt hbound)
    obtain ⟨hs, hss⟩ := List.forall_mem_cons.1 hss
    have hbound := length_renderAll_lt hbound
    rw [Stmt.renderAll, List.append_assoc, blockWithin, blockRound]
    obtain ⟨hend, heof, -⟩ := opens_ne
      (s.lead_render closing (lead (Stmt.renderAll closing ss ++ [.mark .endWord closing]) next)).2
    rw [← lead_append] at hend heof
    apply Accepts.kind
    rw [if_neg hend]
    apply Accepts.kind
    rw [if_neg heof]
    apply Accepts.bind (hs _ (follows_block ss next))
    intro s' hs'
    apply Accepts.last (ih hss hbound)
    intro ss' hss'
    apply Accepts.pure
    rw [List.map_cons, List.map_cons, hs', hss']

theorem accepts_block {inner : Reader Stmt} {ss : List Stmt} (hss : AcceptsAll closing inner ss) :
    Accepts (block inner) (Stmt.renderAll closing ss ++ [.mark .endWord closing]) next
      (·.map Stmt.bare = ss.map Stmt.bare) := by
  apply Accepts.bounded
  intro bound hbound
  rw [List.length_append] at hbound
  exact accepts_blockWithin hss (by omega)

theorem accepts_functionDeclaration {inner : Reader Stmt} {name : String}
    {parameters : List Parameter}
    {result : Option Ascription} {body : List Stmt} {endName : String} {endSpan span : Span}
    (hparameters : ∀ p ∈ parameters, Ascription.IsPlain p.ascription)
    (hresult : Ascription.IsPlain result) (hbody : AcceptsAll closing inner body) :
    Accepts (functionDeclaration .full inner)
      ((Stmt.function name parameters result body endName endSpan span).render closing) next
      (·.bare = (Stmt.function name parameters result body endName endSpan span).bare) := by
  apply Accepts.advance
  intro _ _
  apply Accepts.expect rfl
  intro nameToken hname
  apply Accepts.expect rfl
  intro _ _
  apply Accepts.bind (accepts_parameters hparameters)
  intro parameters' hparameters'
  have harrow :
      (lead (Stmt.renderAll closing body ++ [.mark .endWord closing] ++
        [.written .identifier endName false])
      next).kind ≠ .arrow := by
    rw [lead_append]
    exact kind_block_ne_arrow body _
  apply Accepts.bind (accepts_ascriptionAfter hresult harrow)
  intro result' hresult'
  apply Accepts.bind (accepts_block hbody)
  intro body' hbody'
  apply Accepts.stream
  intro s _
  apply Accepts.expectOr rfl
  intro endToken hend
  apply Accepts.pure
  have hnameValue : nameToken.value = name := (Token.bare_eq_written hname).2.1
  have hendValue : endToken.value = endName := (Token.bare_eq_written hend).2.1
  rw [Stmt.bare_function, Stmt.bare_function, hnameValue, hparameters', hresult', hbody', hendValue]

theorem accepts_rangeFor {inner : Reader Stmt} {init update : Assignment} {body : List Stmt}
    {test : Expr} {span : Span}
    (hinit : init.Writable) (hupdate : update.Writable) (hbody : AcceptsAll closing inner body)
    (hnext : Follows next) :
    Accepts (loop .full inner) ((Stmt.rangeFor init update body test span).render closing) next
      (·.bare = (Stmt.rangeFor init update body test span).bare) := by
  have hcomma : continuation? .full .default (.mark .comma false) = none := rfl
  have hclose : continuation? .full .default (.mark .closeParen false) = none := rfl
  apply Accepts.advance
  intro _ _
  apply Accepts.kind
  apply Accepts.advance
  intro _ _
  have hread := accepts_assignment hinit false hcomma
  apply Accepts.bind hread
  intro init' hinit'
  apply Accepts.expect rfl
  intro _ _
  have hread := accepts_assignment hupdate false hclose
  apply Accepts.bind hread
  intro update' hupdate'
  apply Accepts.expect rfl
  intro _ _
  apply Accepts.bind (accepts_block hbody)
  intro body' hbody'
  apply Accepts.last (accepts_expression test false hnext.continuation?)
  intro test' htest'
  apply Accepts.pure
  rw [Stmt.bare_rangeFor, Stmt.bare_rangeFor, hinit', hupdate', hbody', htest']

theorem accepts_collectionFor {inner : Reader Stmt} {name : String} {collection : Expr}
    {body : List Stmt} {nameSpan span : Span} (hbody : AcceptsAll closing inner body) :
    Accepts (loop .full inner)
      ((Stmt.collectionFor name nameSpan collection body span).render closing) next
      (·.bare = (Stmt.collectionFor name nameSpan collection body span).bare) := by
  apply Accepts.advance
  intro _ _
  apply Accepts.kind
  apply Accepts.expect rfl
  intro nameToken hname
  apply Accepts.expect rfl
  intro _ _
  have hstop : continuation? .full .default
      (lead (Stmt.renderAll closing body ++ [.mark .endWord closing] ++
      [.mark .forWord false]) next) = none := by
    rw [lead_append]
    exact (follows_block body _).continuation?
  have hread := accepts_expression collection false hstop
  apply Accepts.bind hread
  intro collection' hcollection'
  apply Accepts.bind (accepts_block hbody)
  intro body' hbody'
  apply Accepts.expect rfl
  intro _ _
  apply Accepts.pure
  have hvalue : nameToken.value = name := (Token.bare_eq_written hname).2.1
  rw [Stmt.bare_collectionFor, Stmt.bare_collectionFor, hvalue, hcollection', hbody']

/-- Whether a `return` before the token has no value. -/
def endsReturn (t : Token) : Bool :=
  t.newlineBefore || t.kind = .endWord || t.kind = .eof

theorem endsReturn_bare (t : Token) : endsReturn t.bare = endsReturn t := rfl

theorem accepts_return {value : Option Expr} {span : Span} (hnext : Follows next) :
    Accepts (returnStatement .full) ((Stmt.ret value span).render closing) next
      (·.bare = (Stmt.ret value span).bare) := by
  cases value with
  | none =>
    apply Accepts.advance
    intro _ _
    apply Accepts.stream
    intro s hs
    have hcurrent : s.current.bare = next.bare := hs
    have hends : endsReturn s.current = true := by
      rw [← endsReturn_bare, hcurrent, endsReturn_bare]
      simpa [endsReturn, or_assoc] using hnext.1
    simp only [endsReturn] at hends
    rw [if_pos hends]
    exact .pure rfl
  | some value =>
    apply Accepts.advance
    intro _ _
    apply Accepts.stream
    intro s hs
    have hends : endsReturn s.current = false := by
      rw [← endsReturn_bare, hs, endsReturn_bare]
      have hlead := value.lead_render false next
      have hgeneration := opens_ne (.inl hlead.2)
      simp [endsReturn, hlead.1, hgeneration.1, hgeneration.2.1]
    simp only [endsReturn] at hends
    rw [if_neg (ne_true_of_eq_false hends)]
    apply Accepts.last (accepts_expression value false hnext.continuation?)
    intro value' hvalue'
    exact .pure (congrArg (fun e => Stmt.ret (some e) .nowhere) hvalue')

theorem accepts_plainAssignment {a : Assignment} (ha : a.Writable) (hnext : Follows next) :
    Accepts (plainStatement .full) (a.render true) next (·.bare = (Stmt.assignment a).bare) := by
  apply accepts_afterTarget ha true
  intro target htarget
  apply Accepts.last (accepts_assignmentTo ha htarget hnext.continuation?)
  intro a' ha'
  exact .pure (congrArg Stmt.assignment ha')

theorem accepts_plainCall {callee : Expr} {arguments : List Expr} {span : Span}
    (hnext : Follows next) :
    Accepts (plainStatement .full) ((Expr.call callee arguments span).render true) next
      (·.bare = (Stmt.call callee arguments span).bare) := by
  apply Accepts.last (accepts_expression _ true hnext.continuation?)
  intro e he
  apply Accepts.kind
  rw [lead, hnext.2]
  rw [Expr.bare_call] at he
  cases e with
  | call callee' arguments' span' =>
    rw [Expr.bare_call] at he
    injection he with hcallee harguments
    apply Accepts.pure
    rw [Stmt.bare_call, Stmt.bare_call, hcallee, harguments]
  | _ => cases he

theorem accepts_statementOver {inner : Reader Stmt} (s : Stmt) (hs : s.Writable)
    (hnext : Follows next) (hinside : AcceptsAll closing inner s.inside) :
    Accepts (statementOver .full inner) (s.render closing) next (·.bare = s.bare) := by
  apply Accepts.kind
  cases s with
  | assignment a =>
    rw [Stmt.render, opening_eq_none_of_leading (a.lead_render true next).2]
    exact accepts_plainAssignment hs hnext
  | function name parameters result body endName endSpan span =>
    exact accepts_functionDeclaration hs.1 hs.2.1 hinside
  | rangeFor init update body test span => exact accepts_rangeFor hs.1 hs.2.1 hinside hnext
  | collectionFor name nameSpan collection body span => exact accepts_collectionFor hinside
  | ret value span =>
    have hopening : Grammar.full.opening (lead ((Stmt.ret value span).render closing) next).kind =
        some .ret := by
      cases value <;> rfl
    rw [hopening]
    exact accepts_return hnext
  | brk span =>
    apply Accepts.advance
    intro _ _
    exact .pure rfl
  | call callee args span =>
    rw [Stmt.render,
      opening_eq_none_of_leading ((Expr.call callee args span).lead_render true next).2]
    exact accepts_plainCall hnext

theorem accepts_statementWithin (depth : Nat) (s : Stmt) (hs : s.Writable) (next : Token)
    (hdepth : (s.render closing).length ≤ depth) (hnext : Follows next) :
    Accepts (statementWithin .full depth) (s.render closing) next (·.bare = s.bare) := by
  induction depth generalizing s next with
  | zero =>
    exact absurd (List.eq_nil_of_length_eq_zero (Nat.le_zero.1 hdepth)) (s.render_ne_nil closing)
  | succ depth ih =>
    apply accepts_statementOver s hs hnext
    intro s' hs' next hnext
    have hlength := Stmt.length_render_le closing hs'
    have hinside := s.length_renderAll_inside closing
    exact ih s' (hs.inside s' hs') next (by omega) hnext

theorem accepts_statementsWithin {ss : List Stmt} {bound : Nat} (hss : ∀ s ∈ ss, s.Writable)
    (hbound : (Stmt.renderAll closing ss).length < bound) (hnext : next.kind = .eof) :
    Accepts (statementsWithin .full bound) (Stmt.renderAll closing ss) next
      (·.map Stmt.bare = ss.map Stmt.bare) := by
  induction ss generalizing bound with
  | nil =>
    obtain ⟨bound, rfl⟩ := Nat.exists_eq_add_one_of_ne_zero (Nat.ne_zero_of_lt hbound)
    apply Accepts.kind
    rw [Stmt.renderAll, lead, if_pos hnext]
    exact .pure rfl
  | cons s ss ih =>
    obtain ⟨bound, rfl⟩ := Nat.exists_eq_add_one_of_ne_zero (Nat.ne_zero_of_lt hbound)
    obtain ⟨hs, hss⟩ := List.forall_mem_cons.1 hss
    have hbound := length_renderAll_lt hbound
    rw [Stmt.renderAll, statementsWithin, statementsRound]
    have heof := (opens_ne (s.lead_render closing (lead (Stmt.renderAll closing ss) next)).2).2.1
    rw [← lead_append] at heof
    have hfollows : Follows (lead (Stmt.renderAll closing ss) next) := by
      apply follows_lead
      rw [Follows, hnext]
      exact ⟨.inr (.inr rfl), rfl⟩
    have hread : Accepts (statement .full) (s.render closing)
        (lead (Stmt.renderAll closing ss) next) (·.bare = s.bare) := by
      apply Accepts.bounded
      intro depth hdepth
      exact accepts_statementWithin depth s hs _ (Nat.le_of_lt hdepth) hfollows
    apply Accepts.kind
    rw [if_neg heof]
    apply Accepts.bind hread
    intro s' hs'
    apply Accepts.last (ih hss hbound)
    intro ss' hss'
    apply Accepts.pure
    rw [List.map_cons, List.map_cons, hs', hss']

theorem accepts_program {p : Program} (hp : p.Writable) (hnext : next.kind = .eof) :
    Accepts program (p.render closing) next (·.bare = p.bare) := by
  have hstatements : Accepts (bounded (statementsWithin .full)) (p.render closing) next
      (·.map Stmt.bare = p.statements.map Stmt.bare) := by
    apply Accepts.bounded
    intro bound hbound
    exact accepts_statementsWithin (Stmt.writableAll_iff.1 hp) hbound hnext
  apply Accepts.last hstatements
  intro ss hss
  exact .pure (congrArg Program.mk hss)

end Statements

end Reader

theorem Program.getLast?_render {p : Program} {closing : Bool} {ts : List Token}
    (h : ts.map Token.bare = p.render closing) : ts.getLast?.map Token.kind ≠ some .eof := by
  intro hlast
  obtain ⟨t, ht, hkind⟩ := Option.map_eq_some_iff.1 hlast
  have hmem : t.bare ∈ p.render closing := h ▸ List.mem_map_of_mem (List.mem_of_getLast? ht)
  exact Stmt.unended_renderAll closing p.statements _ hmem hkind

/-- A program is read back from its tokens, up to spans, whether or not the end of the text is among
the tokens. -/
theorem parse_render (p : Program) (hp : p.Writable) (closing : Bool) (ts : List Token)
    (hts : ts.map Token.bare = p.render closing) (ending : Option Token)
    (hending : ∀ t ∈ ending, t.kind = .eof) (file : String) :
    ∃ p', parse (ts ++ ending.toList) file = .ok p' ∧ p'.bare = p.bare := by
  have htokens : ∃ e : Token, e.kind = .eof ∧
      (Stream.ofTokens (ts ++ ending.toList) file).tokens = ts ++ [e] := by
    cases ending with
    | none =>
      rw [Option.toList_none, List.append_nil]
      exact Stream.tokens_ofTokens_of_ne_eof (Program.getLast?_render hts) file
    | some t =>
      have ht := hending t rfl
      refine ⟨t, ht, Stream.tokens_ofTokens_of_eof ?_ file⟩
      rw [Option.toList_some, List.getLast?_concat, Option.map_some, ht]
  obtain ⟨e, he, htokens⟩ := htokens
  obtain ⟨p', s', hread, -, hbare⟩ := Reader.accepts_program hp he ts e hts rfl _ [] htokens
  refine ⟨p', ?_, hbare⟩
  rw [parse, hread]

def Program.calling : Program :=
  ⟨[.function "g" [⟨"a", some ⟨.array .int, .nowhere⟩, .nowhere⟩,
    ⟨"b", none, .nowhere⟩] none
    [.assignment ⟨.symbol "x" .nowhere, some .add, .symbol "a" .nowhere, .nowhere⟩,
      .call (.unary .negate (.symbol "f" .nowhere) .nowhere) [.number "1" .nowhere] .nowhere,
      .ret none .nowhere] "g" .nowhere .nowhere]⟩

theorem parse_render_calling :
    ∃ p', parse (Program.calling.render true) "" = .ok p' ∧ p'.bare = Program.calling := by
  have hx : (Assignment.mk (.symbol "x" .nowhere) (some .add) (.symbol "a" .nowhere)
      .nowhere).Writable :=
    ⟨rfl, by decide⟩
  have hwritable : Program.calling.Writable :=
    ⟨⟨List.forall_mem_cons.2 ⟨trivial, List.forall_mem_singleton.2 trivial⟩, trivial, hx,
      trivial, trivial, trivial⟩, trivial⟩
  exact parse_render Program.calling hwritable true (Program.calling.render true) rfl none nofun ""

end Scriptor
