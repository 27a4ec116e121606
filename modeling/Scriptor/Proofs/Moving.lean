import Scriptor.Proofs.Reading.Runs
import Scriptor.Proofs.Spans
import Scriptor.Proofs.Trees

namespace Scriptor

variable (g : Position → Position)

def Span.move (span : Span) : Span := ⟨g span.start, g span.stop⟩

def Token.move (t : Token) : Token := { t with span := t.span.move g }

def Error.move (e : Error) : Error := { e with position := g e.position }

def Stream.move (s : Stream) : Stream where
  current := s.current.move g
  rest := s.rest.map (Token.move g)
  previousEnd := g s.previousEnd

def Expr.move : Expr → Expr := .mapSpans (.move g)

def Ascription.move : Ascription → Ascription := .mapSpans (.move g)

def Parameter.move : Parameter → Parameter := .mapSpans (.move g)

def Assignment.move : Assignment → Assignment := .mapSpans (.move g)

def Stmt.move : Stmt → Stmt := .mapSpans (.move g)

def Program.move : Program → Program := .mapSpans (.move g)

namespace Stream

@[simp] theorem size_move (s : Stream) : (s.move g).size = s.size := by
  simp only [size, move, List.length_map]

theorem advance_move (s : Stream) : (s.move g).advance = s.advance.move g := by
  cases s with
  | mk current rest previousEnd => cases rest <;> rfl

theorem move_id (s : Stream) : s.move id = s := by
  cases s with
  | mk current rest previousEnd => exact congrArg (mk current · previousEnd) (List.map_id rest)

end Stream

namespace Expr

@[simp] theorem span_move (e : Expr) : (e.move g).span = e.span.move g := by
  cases e <;> rfl

@[simp] theorem start_move (e : Expr) : (e.move g).start = g e.start := by
  rw [start, span_move]
  rfl

theorem move_call (callee : Expr) (args : List Expr) (span : Span) :
    (call callee args span).move g = .call (callee.move g) (args.map (move g)) (span.move g) :=
  congrArg (call (callee.move g) · (span.move g)) (mapSpansAll_eq_map _ args)

theorem move_array (elements : List Expr) (span : Span) :
    (array elements span).move g = .array (elements.map (move g)) (span.move g) :=
  congrArg (array · (span.move g)) (mapSpansAll_eq_map _ elements)

theorem move_dict (entries : List (Expr × Expr)) (span : Span) :
    (dict entries span).move g = .dict (entries.map fun p => (p.1.move g, p.2.move g))
      (span.move g) :=
  congrArg (dict · (span.move g)) (mapSpansEntries_eq_map _ entries)

theorem move_id (e : Expr) : e.move id = e := by
  have hlist {es : List Expr} (h : ∀ e ∈ es, e.move id = e) : es.map (move id) = es := by
    rw [List.map_congr_left h, List.map_id'']
    exact fun _ => rfl
  induction e with
  | number | string | boolean | symbol => rfl
  | binary left op right span ihl ihr => exact congrArg₂ (binary · op · span) ihl ihr
  | unary op operand span ih => exact congrArg (unary op · span) ih
  | conditional test consequent alternate span iht ihc iha =>
    change conditional (test.move id) (consequent.move id) (alternate.move id) span = _
    rw [iht, ihc, iha]
  | call callee args span ihf ihs => rw [move_call, ihf, hlist ihs]; rfl
  | subscript indexed index span iha ihi => exact congrArg₂ (subscript · · span) iha ihi
  | member object property propertySpan span ih =>
    exact congrArg (member · property propertySpan span) ih
  | array elements span ihs => rw [move_array, hlist ihs]; rfl
  | dict entries span ihs =>
    have hentries : entries.map (fun p => (p.1.move id, p.2.move id)) = entries := by
      rw [List.map_congr_left fun p hp => Prod.ext (ihs p hp).1 (ihs p hp).2, List.map_id']
    rw [move_dict, hentries]
    rfl

end Expr

theorem Parameter.move_id (p : Parameter) : p.move id = p := by
  cases p with
  | mk name ascription span => cases ascription <;> rfl

theorem Assignment.move_id (a : Assignment) : a.move id = a := by
  cases a with
  | mk target operator value span =>
    exact congrArg₂ (mk · operator · span) target.move_id value.move_id

namespace Stmt

variable (name : String) (body : List Stmt) (span : Span)

theorem move_function (parameters : List Parameter) (result : Option Ascription) (endName : String)
    (endSpan : Span) : (function name parameters result body endName endSpan span).move g =
      .function name (parameters.map (Parameter.move g)) (result.map (Ascription.move g))
        (body.map (move g)) endName (endSpan.move g) (span.move g) := by
  rw [move, mapSpans, mapSpansAll_eq_map]
  rfl

theorem move_rangeFor (init update : Assignment) (test : Expr) :
    (rangeFor init update body test span).move g =
      .rangeFor (init.move g) (update.move g) (body.map (move g)) (test.move g) (span.move g) := by
  rw [move, mapSpans, mapSpansAll_eq_map]
  rfl

theorem move_collectionFor (nameSpan : Span) (collection : Expr) :
    (collectionFor name nameSpan collection body span).move g =
      .collectionFor name (nameSpan.move g) (collection.move g) (body.map (move g))
        (span.move g) := by
  rw [move, mapSpans, mapSpansAll_eq_map]
  rfl

end Stmt

mutual

theorem Stmt.move_id : (s : Stmt) → s.move id = s
  | .assignment a => congrArg Stmt.assignment a.move_id
  | .function name parameters result body endName endSpan span => by
    have hparameters : parameters.map (Parameter.move id) = parameters :=
      (List.map_congr_left fun p _ => p.move_id).trans (List.map_id' _)
    have hresult : result.map (Ascription.move id) = result := Option.map_id'
    rw [Stmt.move_function, hparameters, hresult, map_move_id body]
    rfl
  | .rangeFor init update body test span => by
    rw [Stmt.move_rangeFor, init.move_id, update.move_id, map_move_id body, test.move_id]
    rfl
  | .collectionFor name nameSpan collection body span => by
    rw [Stmt.move_collectionFor, collection.move_id, map_move_id body]
    rfl
  | .ret value span => by
    have hvalue : value.map (Expr.move id) = value := by
      cases value with
      | none => rfl
      | some e => exact congrArg some e.move_id
    exact congrArg (Stmt.ret · span) hvalue
  | .brk span => rfl
  | .call callee args span => by
    have hargs : args.map (Expr.move id) = args :=
      (List.map_congr_left fun e _ => e.move_id).trans (List.map_id' _)
    exact congrArg₂ (Stmt.call · · span) callee.move_id hargs

theorem map_move_id : (ss : List Stmt) → ss.map (Stmt.move id) = ss
  | [] => rfl
  | s :: ss => congrArg₂ List.cons s.move_id (map_move_id ss)

end

theorem Program.move_id (p : Program) : p.move id = p :=
  congrArg mk (map_move_id p.statements)

end Scriptor
