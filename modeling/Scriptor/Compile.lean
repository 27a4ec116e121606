import Scriptor.Check.Statement
import Scriptor.Reader.Statement
import Scriptor.Script.Statement
import Scriptor.Token.Cursor
import Scriptor.Typed.Simplify.Statement

namespace Scriptor

inductive Failure where
  | error (e : Error)
  | fault (f : Script.Fault)
  deriving DecidableEq

def analyze (source file : String) : Except Error Typed.Program := do
  let tokens ← tokenize source file
  let program ← parse tokens file
  program.check

def Typed.Program.simplifyIf (simplify : Bool) (p : Typed.Program) : Typed.Program :=
  if simplify then p.simplify else p

/-- The script of a source text, simplified or as it stands. -/
def compile (source file : String) (simplify : Bool) : Except Failure String := do
  let program ← (analyze source file).mapError .error
  (program.simplifyIf simplify).script.mapError .fault

end Scriptor
