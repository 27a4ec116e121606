import Scriptor.Token.Basic
import Scriptor.Tree.Basic

namespace Scriptor

namespace Expr

mutual

def mapSpans (f : Span → Span) : Expr → Expr
  | .number text span => .number text (f span)
  | .string value span => .string value (f span)
  | .boolean value span => .boolean value (f span)
  | .symbol name span => .symbol name (f span)
  | .binary left op right span => .binary (left.mapSpans f) op (right.mapSpans f) (f span)
  | .unary op operand span => .unary op (operand.mapSpans f) (f span)
  | .conditional test consequent alternate span =>
    .conditional (test.mapSpans f) (consequent.mapSpans f) (alternate.mapSpans f) (f span)
  | .call callee arguments span => .call (callee.mapSpans f) (mapSpansAll f arguments) (f span)
  | .subscript indexed index span => .subscript (indexed.mapSpans f) (index.mapSpans f) (f span)
  | .member object property propertySpan span =>
    .member (object.mapSpans f) property (f propertySpan) (f span)
  | .array elements span => .array (mapSpansAll f elements) (f span)
  | .dict entries span => .dict (mapSpansEntries f entries) (f span)

def mapSpansAll (f : Span → Span) : List Expr → List Expr
  | [] => []
  | e :: es => e.mapSpans f :: mapSpansAll f es

def mapSpansEntries (f : Span → Span) : List (Expr × Expr) → List (Expr × Expr)
  | [] => []
  | (key, value) :: ps => (key.mapSpans f, value.mapSpans f) :: mapSpansEntries f ps

end

variable (f : Span → Span)

theorem mapSpansAll_eq_map (es : List Expr) : mapSpansAll f es = es.map (mapSpans f) := by
  induction es with
  | nil => rfl
  | cons e es ih => rw [mapSpansAll, ih, List.map_cons]

theorem mapSpansEntries_eq_map (ps : List (Expr × Expr)) :
    mapSpansEntries f ps = ps.map fun p => (p.1.mapSpans f, p.2.mapSpans f) := by
  induction ps with
  | nil => rfl
  | cons p ps ih => rw [mapSpansEntries, ih, List.map_cons]

end Expr

def Ascription.mapSpans (f : Span → Span) (a : Ascription) : Ascription :=
  { a with span := f a.span }

def Parameter.mapSpans (f : Span → Span) (p : Parameter) : Parameter where
  name := p.name
  ascription := p.ascription.map (Ascription.mapSpans f)
  span := f p.span

def Assignment.mapSpans (f : Span → Span) (a : Assignment) : Assignment where
  target := a.target.mapSpans f
  operator := a.operator
  value := a.value.mapSpans f
  span := f a.span

namespace Stmt

mutual

def mapSpans (f : Span → Span) : Stmt → Stmt
  | .assignment a => .assignment (a.mapSpans f)
  | .function name parameters result body endName endSpan span =>
    .function name (parameters.map (Parameter.mapSpans f)) (result.map (Ascription.mapSpans f))
      (mapSpansAll f body) endName (f endSpan) (f span)
  | .rangeFor init update body test span =>
    .rangeFor (init.mapSpans f) (update.mapSpans f) (mapSpansAll f body) (test.mapSpans f) (f span)
  | .collectionFor name nameSpan collection body span =>
    .collectionFor name (f nameSpan) (collection.mapSpans f) (mapSpansAll f body) (f span)
  | .ret value span => .ret (value.map (Expr.mapSpans f)) (f span)
  | .brk span => .brk (f span)
  | .call callee arguments span =>
    .call (callee.mapSpans f) (arguments.map (Expr.mapSpans f)) (f span)

def mapSpansAll (f : Span → Span) : List Stmt → List Stmt
  | [] => []
  | s :: ss => s.mapSpans f :: mapSpansAll f ss

end

theorem mapSpansAll_eq_map (f : Span → Span) (ss : List Stmt) :
    mapSpansAll f ss = ss.map (mapSpans f) := by
  induction ss with
  | nil => rfl
  | cons s ss ih => rw [mapSpansAll, ih, List.map_cons]

end Stmt

def Program.mapSpans (f : Span → Span) (p : Program) : Program :=
  ⟨p.statements.map (Stmt.mapSpans f)⟩

def Span.nowhere : Span := .empty .nowhere

def Token.bare (t : Token) : Token := { t with span := .nowhere }

def Expr.bare : Expr → Expr := .mapSpans fun _ => .nowhere

def Ascription.bare : Ascription → Ascription := .mapSpans fun _ => .nowhere

def Parameter.bare : Parameter → Parameter := .mapSpans fun _ => .nowhere

def Assignment.bare : Assignment → Assignment := .mapSpans fun _ => .nowhere

def Stmt.bare : Stmt → Stmt := .mapSpans fun _ => .nowhere

def Program.bare : Program → Program := .mapSpans fun _ => .nowhere

namespace Expr

variable (left right test consequent alternate callee indexed index object operand : Expr)
  (span : Span)

theorem bare_binary (op : BinaryOp) :
    (binary left op right span).bare = .binary left.bare op right.bare .nowhere := rfl

theorem bare_unary (op : UnaryOp) :
    (unary op operand span).bare = .unary op operand.bare .nowhere := rfl

theorem bare_conditional : (conditional test consequent alternate span).bare =
    .conditional test.bare consequent.bare alternate.bare .nowhere := rfl

theorem bare_call (arguments : List Expr) :
    (call callee arguments span).bare = .call callee.bare (arguments.map bare) .nowhere :=
  congrArg (call callee.bare · .nowhere) (mapSpansAll_eq_map _ arguments)

theorem bare_subscript :
    (subscript indexed index span).bare = .subscript indexed.bare index.bare .nowhere := rfl

theorem bare_member (property : String) (propertySpan : Span) :
    (member object property propertySpan span).bare =
      .member object.bare property .nowhere .nowhere := rfl

theorem bare_array (elements : List Expr) :
    (array elements span).bare = .array (elements.map bare) .nowhere :=
  congrArg (array · .nowhere) (mapSpansAll_eq_map _ elements)

theorem bare_dict (entries : List (Expr × Expr)) :
    (dict entries span).bare = .dict (entries.map fun p => (p.1.bare, p.2.bare)) .nowhere :=
  congrArg (dict · .nowhere) (mapSpansEntries_eq_map _ entries)

end Expr

namespace Stmt

variable (name : String) (body : List Stmt) (span : Span)

theorem bare_function (parameters : List Parameter) (result : Option Ascription) (endName : String)
    (endSpan : Span) : (function name parameters result body endName endSpan span).bare =
      .function name (parameters.map Parameter.bare) (result.map Ascription.bare)
        (body.map bare) endName .nowhere
        .nowhere := by
  rw [bare, mapSpans, mapSpansAll_eq_map]
  rfl

theorem bare_rangeFor (init update : Assignment) (test : Expr) :
    (rangeFor init update body test span).bare =
      .rangeFor init.bare update.bare (body.map bare) test.bare .nowhere := by
  rw [bare, mapSpans, mapSpansAll_eq_map]
  rfl

theorem bare_collectionFor (nameSpan : Span) (collection : Expr) :
    (collectionFor name nameSpan collection body span).bare =
      .collectionFor name .nowhere collection.bare (body.map bare) .nowhere := by
  rw [bare, mapSpans, mapSpansAll_eq_map]
  rfl

theorem bare_call (callee : Expr) (arguments : List Expr) :
    (call callee arguments span).bare = .call callee.bare (arguments.map Expr.bare) .nowhere := rfl

end Stmt
end Scriptor
