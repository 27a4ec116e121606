import Scriptor.Proofs.Reading.Rendering
import Scriptor.Proofs.Reading.Statements

namespace Scriptor

inductive Atom where
  | name (text : String)
  | number (text : String)
  | string (value : String)
  | boolean (value : Bool)
  /-- A prefix or binary operator, or an assignment with or without an operator in it. -/
  | operator (mark : Kind)
  deriving DecidableEq

/-- What a token of this kind says; marks that group or separate and words that open or close say
nothing. -/
def Kind.atom? (value : String) : Kind → Option Atom
  | .identifier => some (.name value)
  | .number => some (.number value)
  | .string => some (.string value)
  | .trueWord => some (.boolean true)
  | .falseWord => some (.boolean false)
  | .eof | .openBracket | .closeBracket | .openParen | .closeParen | .openDict | .closeDict
  | .colon | .question
  | .comma | .dot | .arrow | .functionWord | .endWord | .forWord | .inWord | .returnWord
  | .breakWord => none
  | mark => some (.operator mark)

namespace Token

def atom? (t : Token) : Option Atom := t.kind.atom? t.value

def atoms (ts : List Token) : List Atom := ts.filterMap atom?

end Token

namespace Expr

mutual

@[simp] def atoms : Expr → List Atom
  | .number text _ => [.number text]
  | .string value _ => [.string value]
  | .boolean value _ => [.boolean value]
  | .symbol name _ => [.name name]
  | .binary left op right _ => left.atoms ++ .operator op.kind :: right.atoms
  | .unary op operand _ => .operator op.kind :: operand.atoms
  | .conditional test consequent alternate _ => test.atoms ++ (consequent.atoms ++ alternate.atoms)
  | .call callee arguments _ => callee.atoms ++ atomsAll arguments
  | .subscript indexed index _ => indexed.atoms ++ index.atoms
  | .member object property _ _ => object.atoms ++ [.name property]
  | .array elements _ => atomsAll elements
  | .dict entries _ => atomsEntries entries

@[simp] def atomsAll : List Expr → List Atom
  | [] => []
  | e :: es => e.atoms ++ atomsAll es

@[simp] def atomsEntries : List (Expr × Expr) → List Atom
  | [] => []
  | (key, value) :: ps => key.atoms ++ (value.atoms ++ atomsEntries ps)

end

end Expr

def Ty.atoms : Ty → List Atom
  | .array base | .dict base => base.atoms
  | leaf => [.name leaf.text]

def Ascription.atoms : Option Ascription → List Atom
  | none => []
  | some a => a.ty.atoms

def Parameter.atoms (p : Parameter) : List Atom := .name p.name :: Ascription.atoms p.ascription

def Assignment.atoms (a : Assignment) : List Atom :=
  a.target.atoms ++ .operator (markOf a.operator) :: a.value.atoms

namespace Stmt

mutual

@[simp] def atoms : Stmt → List Atom
  | .assignment a => a.atoms
  | .function name parameters result body endName _ _ =>
    .name name :: (parameters.flatMap Parameter.atoms ++
      (Ascription.atoms result ++ (atomsAll body ++ [.name endName])))
  | .rangeFor init update body test _ =>
    init.atoms ++ (update.atoms ++ (atomsAll body ++ test.atoms))
  | .collectionFor name _ collection body _ => .name name :: (collection.atoms ++ atomsAll body)
  | .ret none _ | .brk _ => []
  | .ret (some value) _ => value.atoms
  | .call callee arguments _ => callee.atoms ++ Expr.atomsAll arguments

@[simp] def atomsAll : List Stmt → List Atom
  | [] => []
  | s :: ss => s.atoms ++ atomsAll ss

end

end Stmt

def Program.atoms (p : Program) : List Atom := Stmt.atomsAll p.statements

namespace Token

variable {t : Token} {ts us : List Token} {k : Kind}

@[simp] theorem atoms_nil : atoms [] = [] := rfl

@[simp] theorem atoms_append : atoms (ts ++ us) = atoms ts ++ atoms us := List.filterMap_append

theorem atoms_cons_of_eq_some {a : Atom} (h : t.atom? = some a) : atoms (t :: ts) = a :: atoms ts :=
  List.filterMap_cons_some h

theorem atoms_cons_of_kind (h : t.kind = k) (hk : k.atom? t.value = none) :
    atoms (t :: ts) = atoms ts :=
  List.filterMap_cons_none (h ▸ hk : t.kind.atom? t.value = none)

end Token

theorem BinaryOp.atom?_kind (op : BinaryOp) (value : String) :
    op.kind.atom? value = some (.operator op.kind) := by
  cases op <;> rfl

theorem UnaryOp.atom?_kind (op : UnaryOp) (value : String) :
    op.kind.atom? value = some (.operator op.kind) := by
  cases op <;> rfl

theorem Kind.atom?_ofBool (b : Bool) (value : String) :
    (Kind.ofBool b).atom? value = some (.boolean b) := by
  cases b <;> rfl

/-- The operator of an assignment tells the mark that it was read from. -/
theorem Kind.atom?_of_isAssignment {k : Kind} (h : Reader.isAssignment k = true) (value : String) :
    k.atom? value = some (.operator (Assignment.markOf (k.compound?.bind Kind.binaryOp?))) := by
  cases k with
  | assignment | plusEquals | minusEquals | starEquals | slashEquals | percentEquals => rfl
  | _ => cases h

theorem Ty.atoms_of_ofName? {name : String} {ty : Ty} (h : Ty.ofName? name = some ty) :
    ty.atoms = [.name name] := by
  revert h
  fun_cases Ty.ofName? name
  all_goals rintro ⟨⟩
  all_goals rfl

theorem Expr.atomsAll_eq_flatMap (es : List Expr) : atomsAll es = es.flatMap atoms := by
  induction es with
  | nil => rfl
  | cons e es ih => rw [atomsAll, ih, List.flatMap_cons]

theorem Expr.atomsEntries_eq_flatMap (ps : List (Expr × Expr)) :
    atomsEntries ps = ps.flatMap fun p => p.1.atoms ++ p.2.atoms := by
  induction ps with
  | nil => rfl
  | cons p ps ih => rw [atomsEntries, ih, List.flatMap_cons, List.append_assoc]

/-- Commas between phrases say nothing. -/
theorem Separated.atoms {ws : List (List Token)} {u : List Token} (h : Separated ws u) :
    Token.atoms u = ws.flatMap Token.atoms := by
  induction h with
  | nil => rfl
  | last w => rw [List.flatMap_singleton]
  | cons w hcomma _ ih =>
    rw [Token.atoms_append, Token.atoms_cons_of_kind hcomma rfl, ih, List.flatMap_cons]

section Derivation

variable {γ : Type} {tokensOf : γ → List Token} {atomsOf : γ → List Atom} {cs : List γ}
  {l r : Token} {k k' : Kind} {w ws : List Token}

theorem Token.atoms_enclosed (hl : l.kind = k) (hk : k.atom? l.value = none) (hr : r.kind = k')
    (hk' : k'.atom? r.value = none) : Token.atoms (l :: (w ++ [r])) = Token.atoms w := by
  rw [Token.atoms_cons_of_kind hl hk, Token.atoms_append, Token.atoms_cons_of_kind hr hk',
    Token.atoms_nil, List.append_nil]

theorem Separated.atoms_map (h : Separated (cs.map tokensOf) ws)
    (hc : ∀ c ∈ cs, Token.atoms (tokensOf c) = atomsOf c) :
    Token.atoms ws = cs.flatMap atomsOf := by
  rw [h.atoms, List.flatMap_map]
  exact List.flatMap_congr hc

end Derivation

theorem DerivesAt.atoms {Placed : Span → Span → Prop} {q : Power} {w : List Token} {e : Expr}
    (h : DerivesAt Placed q w e) : Token.atoms w = e.atoms := by
  induction h with
  | number ht | string ht | symbol ht =>
    rw [Token.atoms_cons_of_eq_some (congrArg (Kind.atom? _) ht), Token.atoms_nil]
    rfl
  | @boolean t value span ht =>
    rw [Token.atoms_cons_of_eq_some
      ((congrArg (Kind.atom? _) ht).trans (Kind.atom?_ofBool value _)), Token.atoms_nil, Expr.atoms]
  | group hl _ hr ih => rw [Token.atoms_enclosed hl rfl hr rfl, ih]
  | array hl _ hsep hr _ ih =>
    rw [Token.atoms_enclosed hl rfl hr rfl, hsep.atoms_map ih, Expr.atoms, Expr.atomsAll_eq_flatMap,
      List.flatMap_map]
  | @dict l r entries ws span hl _ hcolon _ hsep hr _ ihk ihv =>
    have hentry : ∀ p ∈ entries, Token.atoms p.tokens =
        p.key.value.atoms ++ p.value.value.atoms := by
      intro p hp
      rw [EntryPhrase.tokens, Token.atoms_append, Token.atoms_cons_of_kind (hcolon p hp) rfl,
        ihk p hp, ihv p hp]
    rw [Token.atoms_enclosed hl rfl hr rfl, hsep.atoms_map hentry, Expr.atoms,
      Expr.atomsEntries_eq_flatMap, List.flatMap_map]
  | call _ hl _ _ hsep hr _ ihf ihs =>
    rw [Token.atoms_append, Token.atoms_enclosed hl rfl hr rfl, ihf, hsep.atoms_map ihs, Expr.atoms,
      Expr.atomsAll_eq_flatMap, List.flatMap_map]
  | subscript _ hl _ _ hr _ ihx ihi =>
    rw [Token.atoms_append, Token.atoms_enclosed hl rfl hr rfl, ihx, ihi, Expr.atoms]
  | member _ hdot _ hname _ _ ih =>
    rw [Token.atoms_append, Token.atoms_cons_of_kind hdot rfl,
      Token.atoms_cons_of_eq_some (congrArg (Kind.atom? _) hname), Token.atoms_nil, ih]
    rfl
  | @unary t op w e span ht _ _ ih =>
    rw [Token.atoms_cons_of_eq_some ((congrArg (Kind.atom? _) ht).trans (op.atom?_kind _)), ih,
      Expr.atoms]
  | @binary t op w w' e e' span _ ht _ _ _ ihl ihr =>
    rw [Token.atoms_append,
      Token.atoms_cons_of_eq_some ((congrArg (Kind.atom? _) ht).trans (op.atom?_kind _)), ihl,
      ihr, Expr.atoms]
  | conditional _ hmark _ _ hcolon _ _ iht ihc iha =>
    rw [Token.atoms_append, Token.atoms_cons_of_kind hmark rfl, Token.atoms_append,
      Token.atoms_cons_of_kind hcolon rfl, iht, ihc, iha, Expr.atoms]
  | tighten _ ih => exact ih

theorem Ty.Stands.atoms {w : List Token} {ty : Ty} (h : ty.Stands w) :
    Token.atoms w = ty.atoms := by
  induction h with
  | name ht hname =>
    rw [Token.atoms_cons_of_eq_some (congrArg (Kind.atom? _) ht), Token.atoms_nil,
      Ty.atoms_of_ofName? hname]
  | array hl _ hr ih | dict hl _ hr ih => exact (Token.atoms_enclosed hl rfl hr rfl).trans ih

theorem Ascription.Stands.atoms {w : List Token} {a : Ascription} (h : a.Stands w) :
    Token.atoms w = a.ty.atoms := by
  cases h with
  | mk hty => exact hty.atoms

theorem Ascription.StandsAfter.atoms {mark : Kind} {w : List Token} {a : Option Ascription}
    (h : Ascription.StandsAfter mark w a) (hmark : ∀ value, mark.atom? value = .none) :
    Token.atoms w = Ascription.atoms a := by
  cases h with
  | nil => rfl
  | cons ht ha => exact (Token.atoms_cons_of_kind ht (hmark _)).trans ha.atoms

theorem Parameter.Stands.atoms {w : List Token} {p : Parameter} (h : p.Stands w) :
    Token.atoms w = p.atoms := by
  cases h with
  | mk hname ha =>
    rw [Token.atoms_cons_of_eq_some (congrArg (Kind.atom? _) hname), ha.atoms fun _ =>
      rfl, Parameter.atoms]

theorem Assignment.Stands.atoms {w : List Token} {a : Assignment} (h : a.Stands w) :
    Token.atoms w = a.atoms := by
  cases h with
  | mk htarget hk hvalue =>
    rw [Token.atoms_append, Token.atoms_append,
      Token.atoms_cons_of_eq_some (Kind.atom?_of_isAssignment hk _), Token.atoms_nil,
      DerivesAt.atoms htarget, DerivesAt.atoms hvalue, List.append_assoc, Assignment.atoms]
    rfl

theorem Stmt.atoms_body {body : List (List Token × Stmt)}
    (h : ∀ c ∈ body, Token.atoms c.1 = c.2.atoms) :
    Token.atoms (body.flatMap Prod.fst) = Stmt.atomsAll (body.map Prod.snd) := by
  induction body with
  | nil => rfl
  | cons c body ih =>
    obtain ⟨hc, hbody⟩ := List.forall_mem_cons.1 h
    rw [List.flatMap_cons, Token.atoms_append, hc, ih hbody, List.map_cons, Stmt.atomsAll]

theorem Stmt.Stands.atoms {w : List Token} {s : Stmt} (h : s.Stands w) :
    Token.atoms w = s.atoms := by
  induction h with
  | assignment ha => exact ha.atoms
  | function hk hname hopen hparams hsep hclose hresult _ hend hlast ih =>
    simp only [Token.atoms_append, Token.atoms_cons_of_kind hk rfl,
      Token.atoms_cons_of_eq_some (congrArg (Kind.atom? _) hname),
      Token.atoms_cons_of_kind hopen rfl,
      hsep.atoms_map fun p hp => (hparams p hp).atoms, Token.atoms_cons_of_kind hclose rfl,
      hresult.atoms fun _ => rfl, atoms_body ih, Token.atoms_cons_of_kind hend rfl,
      Token.atoms_cons_of_eq_some (congrArg (Kind.atom? _) hlast), Token.atoms_nil, Stmt.atoms,
      List.flatMap_map, List.cons_append, List.nil_append, List.append_assoc]
  | rangeFor hk hopen hinit hcomma hupdate hclose _ hend htest ih =>
    simp only [Token.atoms_append, Token.atoms_cons_of_kind hk rfl,
      Token.atoms_cons_of_kind hopen rfl, hinit.atoms, Token.atoms_cons_of_kind hcomma rfl,
      hupdate.atoms, Token.atoms_cons_of_kind hclose rfl, atoms_body ih,
      Token.atoms_cons_of_kind hend rfl, DerivesAt.atoms htest, Token.atoms_nil, Stmt.atoms,
      List.nil_append, List.append_assoc]
  | collectionFor hk hname hin hcollection _ hend hlast ih =>
    simp only [Token.atoms_append, Token.atoms_cons_of_kind hk rfl,
      Token.atoms_cons_of_eq_some (congrArg (Kind.atom? _) hname), Token.atoms_cons_of_kind hin rfl,
      DerivesAt.atoms hcollection, atoms_body ih, Token.atoms_cons_of_kind hend rfl,
      Token.atoms_cons_of_kind hlast rfl,
      Token.atoms_nil, Stmt.atoms, List.cons_append, List.nil_append, List.append_nil,
      List.append_assoc]
  | ret hk | brk hk => exact Token.atoms_cons_of_kind hk rfl
  | returns hk hvalue => exact (Token.atoms_cons_of_kind hk rfl).trans (DerivesAt.atoms hvalue)
  | call he => exact DerivesAt.atoms he

/-- The end of the text is found where it is. -/
theorem eq_of_unended {ts w rest : List Token} {last t : Token} (hts : Unended ts)
    (ht : t.kind = .eof) (h : ts ++ [last] = w ++ t :: rest) : w = ts := by
  rcases List.eq_nil_or_concat rest with rfl | ⟨rest, u, rfl⟩
  · exact (List.append_inj_left' h rfl).symm
  · rw [List.concat_eq_append, ← List.cons_append, ← List.append_assoc] at h
    have hmem : t ∈ ts := by
      rw [List.append_inj_left' h rfl]
      exact List.mem_append_right w List.mem_cons_self
    exact absurd ht (hts t hmem)

/-- A program says what its tokens say: reading loses nothing, doubles nothing and keeps the
order. -/
theorem parse_atoms {ts : List Token} {last : Token} {file : String} {p : Program}
    (hts : ∀ t ∈ ts, t.kind ≠ .eof) (hlast : last.kind = .eof)
    (h : parse (ts ++ [last]) file = .ok p) : p.atoms = Token.atoms (ts ++ [last]) := by
  have hends : (ts ++ [last]).getLast?.map Token.kind = some .eof := by
    rw [List.getLast?_concat, Option.map_some, hlast]
  obtain ⟨body, s', hstatements, hbody, hpassed, heof⟩ := Reader.stands_of_parse h
  have htokens := hpassed.tokens_eq
  rw [Stream.tokens_ofTokens_of_eof hends] at htokens
  have hw := eq_of_unended hts heof htokens
  rw [Program.atoms, hstatements, ← Stmt.atoms_body fun c hc =>
    (hbody c hc).atoms, hw, Token.atoms_append,
    Token.atoms_cons_of_kind hlast rfl, Token.atoms_nil, List.append_nil]

def Token.counting : List Token :=
  [.mark .forWord true, .mark .openParen false, .written .identifier "i" false,
   .mark .assignment false, .written .number "0" false, .mark .comma false,
   .written .identifier "i" false, .mark .plusEquals false,
   .written .number "1" false, .mark .closeParen false, .written .identifier "f" true,
   .mark .openParen false,
   .mark .dash false, .written .identifier "i" false, .mark .closeParen false, .mark .endWord true,
   .written .identifier "i" false, .mark .less false, .written .number "3" false]

theorem parse_atoms_counting :
    ∃ p, parse (Token.counting ++ [.mark .eof true]) "" = .ok p ∧ p.atoms =
      [.name "i", .operator .assignment, .number "0", .name "i", .operator .plusEquals,
       .number "1", .name "f", .operator .dash, .name "i", .name "i", .operator .less,
       .number "3"] := by
  obtain ⟨p, hp⟩ : ∃ p, parse (Token.counting ++ [.mark .eof true]) "" = .ok p := ⟨_, rfl⟩
  exact ⟨p, hp, (parse_atoms (by decide) rfl hp).trans rfl⟩

end Scriptor
