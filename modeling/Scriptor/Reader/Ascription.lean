import Scriptor.Reader.Grammar
import Scriptor.Reader.Stream
import Scriptor.Tree.Basic

namespace Scriptor.Reader

def typeOver (g : Grammar) (inner : Reader Ty) : Reader Ty := do
  match g.typeForm (← kind) with
  | some .name =>
    match Ty.ofName? (← stream).current.value with
    | some ty =>
      let _ ← advance
      return ty
    | none => unexpectedBecause "unknown type name"
  | some .array =>
    let _ ← advance
    let base ← inner
    let _ ← expect .closeBracket
    return .array base
  | some .dict =>
    let _ ← advance
    let base ← inner
    let _ ← expect .closeDict
    return .dict base
  | none => unexpectedBecause "expected a type"

def typeWithin (g : Grammar) : Nat → Reader Ty
  | 0 => unexpectedBecause "expected a type"
  | depth + 1 => typeOver g (typeWithin g depth)

def ascription (g : Grammar) : Reader Ascription := do
  let start := (← stream).position
  let ty ← bounded (typeWithin g)
  return ⟨ty, start, ← previousEnd⟩

end Scriptor.Reader
