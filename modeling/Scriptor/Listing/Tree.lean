import Scriptor.Listing.Basic
import Scriptor.Tree.Basic

namespace Scriptor

open Listing

def Position.listing (p : Position) : Listing :=
  .record "Position" [("line", ofInt p.line), ("column", ofInt p.column), ("file", ofString p.file)]

def Span.listing (s : Span) : Listing :=
  .record "Span" [("start", s.start.listing), ("end", s.stop.listing)]

def BinaryOp.listing : BinaryOp → Listing
  | .or => .atom "Or"
  | .and => .atom "And"
  | .equals => .atom "Equals"
  | .notEquals => .atom "NotEquals"
  | .less => .atom "Less"
  | .lessEquals => .atom "LessEquals"
  | .greater => .atom "Greater"
  | .greaterEquals => .atom "GreaterEquals"
  | .add => .atom "Add"
  | .subtract => .atom "Subtract"
  | .multiply => .atom "Multiply"
  | .divide => .atom "Divide"
  | .modulo => .atom "Modulo"
  | .power => .atom "Power"

def UnaryOp.listing : UnaryOp → Listing
  | .negate => .atom "Negate"
  | .not => .atom "Not"

mutual

def Ty.listing : Ty → Listing
  | .int => .atom "Int"
  | .float => .atom "Float"
  | .string => .atom "String"
  | .bool => .atom "Bool"
  | .void => .atom "Void"
  | .any => .atom "Any"
  | .array base => .tuple "Array" [base.listing]
  | .dict base => .tuple "Dict" [base.listing]
  | .function parameters result =>
    .tuple "Function" [.list (Ty.listings parameters), result.listing]

def Ty.listings : List Ty → List Listing
  | [] => []
  | t :: ts => t.listing :: Ty.listings ts

end

/-- A node: its form around the record of its parts. -/
def node (form record : String) (fields : List (String × Listing)) (span : Span) : Listing :=
  .tuple form [.record record (fields ++ [("span", span.listing)])]

mutual

def Expr.listing : Expr → Listing
  | .number text span => node "Number" "NumberExpr" [("value", ofString text)] span
  | .string value span => node "String" "StringExpr" [("value", ofString value)] span
  | .boolean value span => node "Boolean" "BooleanExpr" [("value", ofBool value)] span
  | .symbol name span => node "Symbol" "SymbolExpr" [("value", ofString name)] span
  | .binary left op right span =>
    node "Binary" "BinaryExpr"
      [("left", left.listing), ("operator", op.listing), ("right", right.listing)] span
  | .unary op operand span =>
    node "Prefix" "PrefixExpr" [("operator", op.listing), ("right_expr", operand.listing)] span
  | .conditional test consequent alternate span =>
    node "Conditional" "ConditionalExpr"
      [("test", test.listing), ("consequent", consequent.listing),
        ("alternate", alternate.listing)] span
  | .call callee arguments span =>
    node "Call" "CallExpr"
      [("callee", callee.listing), ("arguments", .list (Expr.listings arguments))] span
  | .subscript indexed index span =>
    node "Subscript" "SubscriptExpr" [("array", indexed.listing), ("index", index.listing)] span
  | .member object property propertySpan span =>
    node "Member" "MemberExpr"
      [("object", object.listing), ("property", ofString property),
        ("property_span", propertySpan.listing)]
      span
  | .array elements span =>
    node "Array" "ArrayExpr" [("elements", .list (Expr.listings elements))] span
  | .dict entries span =>
    node "Dict" "DictExpr" [("entries", .list (Expr.entryListings entries))] span

def Expr.listings : List Expr → List Listing
  | [] => []
  | e :: es => e.listing :: Expr.listings es

def Expr.entryListings : List (Expr × Expr) → List Listing
  | [] => []
  | (key, value) :: es => .tuple "" [key.listing, value.listing] :: Expr.entryListings es

end

def Ascription.listing (a : Ascription) : Listing :=
  .record "TypeAnnotation" [("ty", a.ty.listing), ("span", a.span.listing)]

def Parameter.listing (p : Parameter) : Listing :=
  .record "Parameter"
    [("name", ofString p.name), ("type_annotation", ofOption (p.ascription.map Ascription.listing)),
     ("span", p.span.listing)]

def Assignment.listing (a : Assignment) : Listing :=
  .record "AssignmentStmt"
    [("target", a.target.listing), ("operator", ofOption (a.operator.map BinaryOp.listing)),
     ("value", a.value.listing), ("span", a.span.listing)]

mutual

def Stmt.listing : Stmt → Listing
  | .assignment a => .tuple "Assignment" [a.listing]
  | .function name parameters result body endName endSpan span =>
    node "FnDecl" "FnDeclStmt"
      [("name", ofString name), ("parameters", .list (parameters.map Parameter.listing)),
       ("return_type", ofOption (result.map Ascription.listing)),
       ("body", .list (Stmt.listings body)),
       ("end_name", ofString endName), ("end_span", endSpan.listing)] span
  | .rangeFor init update body test span =>
    node "RangeFor" "RangeForStmt"
      [("init", init.listing), ("update", update.listing), ("body", .list (Stmt.listings body)),
       ("test", test.listing)] span
  | .collectionFor name nameSpan collection body span =>
    node "CollectionFor" "CollectionForStmt"
      [("variable", ofString name), ("variable_span", nameSpan.listing),
       ("collection", collection.listing), ("body", .list (Stmt.listings body))] span
  | .ret value span =>
    node "Return" "ReturnStmt" [("value", ofOption (value.map Expr.listing))] span
  | .brk span => node "Break" "BreakStmt" [] span
  | .call callee arguments span =>
    node "Call" "CallExpr"
      [("callee", callee.listing), ("arguments", .list (Expr.listings arguments))] span

def Stmt.listings : List Stmt → List Listing
  | [] => []
  | s :: ss => s.listing :: Stmt.listings ss

end

def Program.listing (p : Program) : Listing :=
  .record "Program" [("body", .list (Stmt.listings p.statements))]

end Scriptor
