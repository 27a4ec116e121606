import Scriptor.Listing.Tree
import Scriptor.Typed.Basic

namespace Scriptor

open Listing

def EntityId.listing (id : EntityId) : Listing := .tuple "EntityId" [ofInt id.index]

def Builtin.listing : Builtin → Listing
  | .pi => .atom "Pi"
  | .tau => .atom "Tau"
  | .print => .atom "Print"
  | .sin => .atom "Sin"
  | .cos => .atom "Cos"
  | .exp => .atom "Exp"
  | .ln => .atom "Ln"
  | .hypot => .atom "Hypot"
  | .bytes => .atom "Bytes"
  | .codepoints => .atom "Codepoints"
  | .wait => .atom "Wait"

def Entity.listing (e : Entity) : Listing :=
  let builtin := ("builtin", ofOption (e.builtin.map Builtin.listing))
  match e.role with
  | .var readOnly =>
    .record "Variable"
      [("name", ofString e.name), ("read_only", ofBool readOnly), ("ty", e.ty.listing), builtin]
  | .function variadic =>
    .record "Function"
      [("name", ofString e.name), ("ty", e.ty.listing), ("is_var_args", ofBool variadic), builtin]

def Arena.listing (a : Arena) : Listing :=
  .record "EntityArena" [("entities", .list (a.entities.toList.map Entity.listing))]

namespace Typed

def Literal.listing : Literal → Listing
  | .int n => .tuple "Int" [ofInt n]
  | .float x => .tuple "Float" [ofFloat x]
  | .string s => .tuple "String" [ofString s]
  | .bool b => .tuple "Bool" [ofBool b]

mutual

def Expr.listing : Expr → Listing
  | .literal value => .tuple "Literal" [value.listing]
  | .var id ty => .record "Variable" [("entity", id.listing), ("ty", ty.listing)]
  | .binary left op right ty =>
    .record "Binary"
      [("left", left.listing), ("operator", op.listing), ("right", right.listing),
        ("ty", ty.listing)]
  | .unary op operand ty =>
    .record "Unary" [("operator", op.listing), ("operand", operand.listing), ("ty", ty.listing)]
  | .conditional test consequent alternate ty =>
    .record "Conditional"
      [("test", test.listing), ("consequent", consequent.listing), ("alternate", alternate.listing),
       ("ty", ty.listing)]
  | .call callee arguments ty =>
    .record "Call"
      [("callee", callee.listing), ("arguments", .list (Expr.listings arguments)),
        ("ty", ty.listing)]
  | .subscript indexed index ty =>
    .record "Subscript" [("array", indexed.listing), ("index", index.listing), ("ty", ty.listing)]
  | .array elements ty =>
    .record "Array" [("elements", .list (Expr.listings elements)), ("ty", ty.listing)]
  | .dict entries ty =>
    .record "Dict" [("entries", .list (Expr.entryListings entries)), ("ty", ty.listing)]

def Expr.listings : List Expr → List Listing
  | [] => []
  | e :: es => e.listing :: Expr.listings es

def Expr.entryListings : List (Expr × Expr) → List Listing
  | [] => []
  | (key, value) :: es => .tuple "" [key.listing, value.listing] :: Expr.entryListings es

end

def Method.listing : Method → Listing
  | .arrayAdd => .atom "ArrayAdd"
  | .arrayInsert => .atom "ArrayInsert"
  | .arrayDelete => .atom "ArrayDelete"
  | .dictSet => .atom "DictSet"
  | .dictDelete => .atom "DictDelete"

mutual

def Stmt.listing : Stmt → Listing
  | .declaration id value =>
    .record "VarDecl" [("variable", id.listing), ("initializer", value.listing)]
  | .assignment target value =>
    .record "Assignment" [("target", target.listing), ("source", value.listing)]
  | .function id parameters body =>
    .record "FnDecl"
      [("function", id.listing), ("parameters", .list (parameters.map EntityId.listing)),
       ("body", .list (Stmt.listings body))]
  | .rangeFor init update test body =>
    .record "RangeFor"
      [("init", init.listing), ("update", update.listing), ("test", test.listing),
       ("body", .list (Stmt.listings body))]
  | .collectionFor id collection body =>
    .record "CollectionFor"
      [("variable", id.listing), ("collection", collection.listing),
        ("body", .list (Stmt.listings body))]
  | .ret value => .tuple "Return" [ofOption (value.map Expr.listing)]
  | .brk => .atom "Break"
  | .call callee arguments =>
    .record "Call" [("callee", callee.listing), ("arguments", .list (Expr.listings arguments))]
  | .print arguments => .tuple "Print" [.list (Expr.listings arguments)]
  | .method object m arguments =>
    .record "Method"
      [("object", object.listing), ("method", m.listing),
        ("arguments", .list (Expr.listings arguments))]

def Stmt.listings : List Stmt → List Listing
  | [] => []
  | s :: ss => s.listing :: Stmt.listings ss

end

def Program.listing (p : Program) : Listing :=
  .record "TypedProgram" [("statements", .list (Stmt.listings p.statements)),
    ("entities", p.entities.listing)]

end Typed
end Scriptor
