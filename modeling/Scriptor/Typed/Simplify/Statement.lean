import Scriptor.Typed.Simplify.Expression

namespace Scriptor.Typed

/-- Whether the test fails for a variable with the given value. -/
def Expr.failsAt (id : EntityId) (n : Int) : Expr → Bool
  | .binary left op (.literal (.int bound)) _ =>
    left.entity? = some id &&
      match op with
      | .less => bound ≤ n
      | .lessEquals => bound < n
      | _ => false
  | _ => false

namespace Stmt

def simplifyHeader : Stmt → Stmt
  | .declaration id value => .declaration id value.simplify
  | .assignment target value => .assignment target.simplify value.simplify
  | s => s

def isSelfAssignment : Stmt → Bool
  | .assignment target value => target.entity?.isSome && target.entity? = value.entity?
  | _ => false

def start? : Stmt → Option (EntityId × Int)
  | .declaration id (.literal (.int n)) => some (id, n)
  | .assignment target (.literal (.int n)) => target.entity?.map fun id => (id, n)
  | _ => none

/-- Whether the test of a loop with this header fails before the body runs once. -/
def isDead (init : Stmt) (test : Expr) : Bool :=
  test.isBool false ||
    match init.start? with
    | some (id, n) => test.failsAt id n
    | none => false

/-- What the header of a loop that never runs leaves behind: a variable from outside still gets its
start value. -/
def remains? : Stmt → Option Stmt
  | .assignment target value => some (.assignment target value)
  | _ => none

mutual

/-- The simplified statement, unless it has no effect. -/
def simplify? : Stmt → Option Stmt
  | .declaration id value => some (.declaration id value.simplify)
  | .assignment target value =>
    let s := Stmt.assignment target.simplify value.simplify
    if s.isSelfAssignment then none else some s
  | .function id parameters body => some (.function id parameters (simplifyAll body))
  | .rangeFor init update test body =>
    if init.simplifyHeader.isDead test.simplify then init.simplifyHeader.remains?
    else some (.rangeFor init.simplifyHeader update.simplifyHeader test.simplify (simplifyAll body))
  | .collectionFor id collection body =>
    some (.collectionFor id collection.simplify (simplifyAll body))
  | .ret value => some (.ret (value.map Expr.simplify))
  | .brk => some .brk
  | .call callee arguments => some (.call callee.simplify (Expr.simplifyAll arguments))
  | .print arguments => some (.print (Expr.simplifyAll arguments))
  | .method object m arguments => some (.method object.simplify m (Expr.simplifyAll arguments))

def simplifyAll : List Stmt → List Stmt
  | [] => []
  | s :: ss =>
    match s.simplify? with
    | some t => t :: simplifyAll ss
    | none => simplifyAll ss

end

end Stmt

def Program.simplify (p : Program) : Program :=
  { p with statements := Stmt.simplifyAll p.statements }

end Scriptor.Typed
