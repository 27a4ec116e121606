import Scriptor.Proofs.Growth

namespace Scriptor

def Arena.Named (a : Arena) (id : EntityId) (name : String) : Prop :=
  ∃ e, a.get? id = some e ∧ e.name = name

mutual

/-- Whether the second tree is the first one with its names resolved. -/
def Expr.Resolves (a : Arena) : Expr → Typed.Expr → Prop
  | .number _ _, .literal _ => True
  | .string value _, .literal v => v = .string value
  | .boolean value _, .literal v => v = .bool value
  | .symbol name _, .var id _ => a.Named id name
  | .binary left op right _, .binary l op' r _ =>
    op' = op ∧ left.Resolves a l ∧ right.Resolves a r
  | .unary op operand _, .unary op' x _ => op' = op ∧ operand.Resolves a x
  | .conditional test consequent alternate _, .conditional x c d _ =>
    test.Resolves a x ∧ consequent.Resolves a c ∧ alternate.Resolves a d
  | .call callee args _, .call f as _ => callee.Resolves a f ∧ ResolvesAll a args as
  | .subscript indexed index _, .subscript x i _ => indexed.Resolves a x ∧ index.Resolves a i
  | .array elements _, .array es _ => ResolvesAll a elements es
  | .dict entries _, .dict ps _ => ResolvesEntries a entries ps
  | _, _ => False

def ResolvesAll (a : Arena) : List Expr → List Typed.Expr → Prop
  | [], [] => True
  | e :: es, t :: ts => e.Resolves a t ∧ ResolvesAll a es ts
  | _, _ => False

def ResolvesEntries (a : Arena) : List (Expr × Expr) → List (Typed.Expr × Typed.Expr) → Prop
  | [], [] => True
  | (key, value) :: ps, (k, v) :: qs =>
    key.Resolves a k ∧ value.Resolves a v ∧ ResolvesEntries a ps qs
  | _, _ => False

end

/-- A name that stood for nothing is declared, a target gets a new value, or computes with its old
one. -/
inductive Assignment.Resolves (a : Arena) (s : Assignment) : Typed.Stmt → Prop where
  | declares {name : String} {span : Span} {id : EntityId} {v : Typed.Expr} :
      s.operator = none → s.target = .symbol name span → a.Named id name →
      s.value.Resolves a v →
      Resolves a s (.declaration id v)
  | assigns {t v : Typed.Expr} :
      s.operator = none → s.target.Resolves a t → s.value.Resolves a v →
      Resolves a s (.assignment t v)
  | computes {op : BinaryOp} {t v : Typed.Expr} {ty : Ty} :
      s.operator = some op → s.target.Resolves a t → s.value.Resolves a v →
      Resolves a s (.assignment t (.binary t op v ty))

inductive Stmt.Resolves (a : Arena) : Stmt → Typed.Stmt → Prop where
  | assignment {s : Assignment} {t : Typed.Stmt} : s.Resolves a t → Resolves a (.assignment s) t
  | function {name : String} {params : List Parameter} {result : Option Ascription}
      {body : List Stmt}
      {endName : String} {endSpan span : Span} {id : EntityId} {ids : List EntityId}
      {b : List Typed.Stmt} :
      a.Named id name → List.Forall₂ (fun (p : Parameter) i => a.Named i p.name) params ids →
      List.Forall₂ (Resolves a) body b →
      Resolves a (.function name params result body endName endSpan span) (.function id ids b)
  | rangeFor {init update : Assignment} {body : List Stmt} {test : Expr} {span : Span}
      {i u : Typed.Stmt} {t : Typed.Expr} {b : List Typed.Stmt} :
      init.Resolves a i → update.Resolves a u → test.Resolves a t →
      List.Forall₂ (Resolves a) body b →
      Resolves a (.rangeFor init update body test span) (.rangeFor i u t b)
  | collectionFor {name : String} {nameSpan span : Span} {collection : Expr}
      {body : List Stmt} {id : EntityId} {c : Typed.Expr} {b : List Typed.Stmt} :
      a.Named id name → collection.Resolves a c → List.Forall₂ (Resolves a) body b →
      Resolves a (.collectionFor name nameSpan collection body span) (.collectionFor id c b)
  | ret {value : Option Expr} {span : Span} {v : Option Typed.Expr} :
      Option.Rel (Expr.Resolves a) value v → Resolves a (.ret value span) (.ret v)
  | brk {span : Span} : Resolves a (.brk span) .brk
  | call {callee : Expr} {args : List Expr} {span : Span} {f : Typed.Expr} {as : List Typed.Expr} :
      callee.Resolves a f → ResolvesAll a args as →
      Resolves a (.call callee args span) (.call f as)
  | print {callee : Expr} {args : List Expr} {span : Span} {id : EntityId} {x : Entity} {ty : Ty}
      {as : List Typed.Expr} :
      callee.Resolves a (.var id ty) → a.get? id = some x → x.builtin = some .print →
      ResolvesAll a args as →
      Resolves a (.call callee args span) (.print as)
  | method {object : Expr} {property : String} {propertySpan memberSpan span : Span}
      {args : List Expr} {o : Typed.Expr} {m : Typed.Method} {as : List Typed.Expr} :
      object.Resolves a o → ResolvesAll a args as →
      Resolves a (.call (.member object property propertySpan memberSpan) args span)
      (.method o m as)

variable {a : Arena}

theorem resolvesAll_of_forall₂ {es : List Expr} {ts : List Typed.Expr}
    (h : List.Forall₂ (Expr.Resolves a) es ts) : ResolvesAll a es ts := by
  induction h with
  | nil => exact trivial
  | cons h _ ih => exact ⟨h, ih⟩

theorem resolvesEntries_of_forall₂ {ps : List (Expr × Expr)}
    {qs : List (Typed.Expr × Typed.Expr)}
    (h : List.Forall₂ (fun p q => p.1.Resolves a q.1 ∧ p.2.Resolves a q.2) ps qs) :
    ResolvesEntries a ps qs := by
  induction h with
  | nil => exact trivial
  | cons h _ ih => exact ⟨h.1, h.2, ih⟩

theorem Arena.Named.grow {b : Arena} {id : EntityId} {name : String} (h : a.Named id name)
    (hab : a.Grows b) : b.Named id name := by
  obtain ⟨e, he, hn⟩ := h
  exact ⟨e, hab.get? he, hn⟩

theorem Arena.named_next (e : Entity) : (a.add e).Named a.next e.name :=
  ⟨e, Arena.get?_add_next a e, rfl⟩

section Checked

variable {env env' : Env}

theorem Expr.check_resolves {e : Expr} {t : Typed.Expr} (h : e.check env = .ok t) (hc : env.Closed)
    (ha : env.entities.Grows a) : e.Resolves a t := by
  induction e generalizing t with
  | number text span =>
    obtain ⟨value, rfl⟩ := (Expr.check_generation h).1
    exact trivial
  | string value span => cases h; exact rfl
  | boolean value span => cases h; exact rfl
  | symbol name span =>
    obtain ⟨id, x, hx, rfl⟩ := (Expr.check_generation h).1
    obtain ⟨hl, -⟩ := Env.resolve?_eq_some_iff.1 hx
    exact Arena.Named.grow (hc.bound name id hl) ha
  | binary left op right span ihl ihr =>
    obtain ⟨l, r, ty, hl, hr, rfl⟩ := (Expr.check_generation h).1
    exact ⟨rfl, ihl hl, ihr hr⟩
  | unary op operand span ih =>
    obtain ⟨x, ty, hx, rfl⟩ := (Expr.check_generation h).1
    exact ⟨rfl, ih hx⟩
  | conditional test consequent alternate span iht ihc iha =>
    obtain ⟨x, c, d, ty, hx, hc, hd, rfl⟩ := (Expr.check_generation h).1
    exact ⟨iht hx, ihc hc, iha hd⟩
  | call callee args span ihf ihs =>
    obtain ⟨f, as, ty, hf, has, rfl⟩ := (Expr.check_generation h).1
    exact ⟨ihf hf, resolvesAll_of_forall₂ (forall₂_imp_of_mem has fun e he _ => ihs e he)⟩
  | subscript indexed index span iha ihi =>
    obtain ⟨x, i, ty, hx, hi, rfl⟩ := (Expr.check_generation h).1
    exact ⟨iha hx, ihi hi⟩
  | member object property propertySpan span ih => exact (Expr.check_generation h).1.elim
  | array elements span ihs =>
    obtain ⟨es, ty, hes, rfl⟩ := (Expr.check_generation h).1
    exact resolvesAll_of_forall₂ (forall₂_imp_of_mem hes fun e he _ => ihs e he)
  | dict entries span ihs =>
    obtain ⟨ps, ty, hps, rfl⟩ := (Expr.check_generation h).1
    refine resolvesEntries_of_forall₂ (forall₂_imp_of_mem hps ?_)
    intro p hp q hq
    exact ⟨(ihs p hp).1 hq.1, (ihs p hp).2 hq.2⟩

theorem checks_resolves {es : List Expr} {ts : List Typed.Expr}
    (h : List.Forall₂ (fun e t => Expr.check env e = .ok t) es ts) (hc : env.Closed)
    (ha : env.entities.Grows a) : ResolvesAll a es ts :=
  resolvesAll_of_forall₂ (h.imp fun _ _ ht => Expr.check_resolves ht hc ha)

theorem Assignment.Generation.resolves {s : Assignment} {t : Typed.Stmt}
    (h : s.Generation env t env')
    (hc : env.Closed) (ha : env'.entities.Grows a) : s.Resolves a t := by
  cases h with
  | declares ho htarget _ hv _ =>
    have hnext := (Arena.named_next (Entity.ofVariable _ _)).grow ha
    exact .declares ho htarget hnext (Expr.check_resolves hv hc (.trans (.add _ rfl) ha))
  | assigns ho ht _ hv _ _ =>
    exact .assigns ho (Expr.check_resolves ht hc ha) (Expr.check_resolves hv hc ha)
  | computes ho ht _ hv _ _ =>
    exact .computes ho (Expr.check_resolves ht hc ha) (Expr.check_resolves hv hc ha)

theorem Check.Parameters.resolves {ps : List Parameter} {ids : List EntityId}
    (h : Check.Parameters env ps ids env') (ha : env'.entities.Grows a) :
    List.Forall₂ (fun (p : Parameter) i => a.Named i p.name) ps ids := by
  induction h with
  | nil => exact .nil
  | cons _ hps ih =>
    exact .cons ((Arena.named_next (Entity.ofVariable _ _)).grow (hps.follows.grows.trans ha))
      (ih ha)

end Checked

mutual

theorem Stmt.check_resolves :
    (s : Stmt) → {env env' : Env} → {t : Typed.Stmt} → env.Closed →
    s.check env = .ok (t, env') → env'.entities.Grows a → s.Resolves a t
  | .assignment _, _, _, _, hc, h, ha => by
    cases Stmt.check_generation h with
    | assignment hs => exact .assignment (hs.resolves hc ha)
  | .function _ _ _ body _ _ _, _, _, _, hc, h, ha => by
    cases Stmt.check_generation h with
    | function hn hps hb =>
      have hlast := (checkBlock_follows body hb).grows.trans ha
      have hnext :=
        (Arena.named_next (Entity.ofFunction _ _ _)).grow (hps.follows.grows.trans hlast)
      refine .function hnext (hps.resolves hlast) ?_
      exact checkBlock_resolves body (hps.follows.closed (hc.parametersOf _)) hb ha
  | .rangeFor _ _ body _ _, _, _, _, hc, h, ha => by
    cases Stmt.check_generation h with
    | rangeFor hi his hu hus ht htb hb =>
      have hlast := (checkBlock_follows body hb).grows.trans ha
      have hinner := hi.follows.closed hc.inLoop
      refine .rangeFor (hi.resolves hc.inLoop hlast) (hu.resolves hinner hlast) ?_ ?_
      · exact Expr.check_resolves ht hinner hlast
      · exact checkBlock_resolves body hinner hb ha
  | .collectionFor name _ _ body _, env, _, _, hc, h, ha => by
    cases Stmt.check_generation h with
    | @collectionFor _ _ _ _ _ c ty b last hcol hty hn hb =>
      have hdeclare := Env.Follows.declare env.inLoop (e := .ofVariable name ty) rfl
      have hlast := (checkBlock_follows body hb).grows.trans ha
      refine .collectionFor ((Arena.named_next (Entity.ofVariable name ty)).grow hlast) ?_ ?_
      · exact Expr.check_resolves hcol hc (hdeclare.grows.trans hlast)
      · exact checkBlock_resolves body (hdeclare.closed hc.inLoop) hb ha
  | .ret _ _, _, _, _, hc, h, ha => by
    cases Stmt.check_generation h with
    | ret hv hr =>
      cases hv with
      | none => exact .ret .none
      | some hv => exact .ret (.some (Expr.check_resolves hv hc ha))
  | .brk _, _, _, _, _, h, _ => by
    cases Stmt.check_generation h with
    | brk => exact .brk
  | .call _ _ _, _, _, _, hc, h, ha => by
    cases Stmt.check_generation h with
    | call hf has happly => exact .call (Expr.check_resolves hf hc ha) (checks_resolves has hc ha)
    | @print _ _ _ id x f as hf hid hx hp has =>
      cases f with
      | var i ty =>
        cases hid
        exact .print (Expr.check_resolves hf hc ha) (ha.get? hx) hp (checks_resolves has hc ha)
      | _ => cases hid
    | method ho hm has hfits =>
      exact .method (Expr.check_resolves ho hc ha) (checks_resolves has hc ha)

theorem checkBlock_resolves :
    (ss : List Stmt) → {env env' : Env} → {ts : List Typed.Stmt} → env.Closed →
    checkBlock env ss = .ok (ts, env') → env'.entities.Grows a →
    List.Forall₂ (Stmt.Resolves a) ss ts
  | [], _, _, _, _, h, _ => by
    cases h
    exact .nil
  | s :: ss, _, _, _, hc, h, ha => by
    obtain ⟨t, rest, next, hs, hss, rfl⟩ := checkBlock_cons h
    have hnext := s.check_follows hs
    refine .cons (s.check_resolves hc hs ((checkBlock_follows ss hss).grows.trans ha)) ?_
    exact checkBlock_resolves ss (hnext.closed hc) hss ha

end

end Scriptor
