import Scriptor.Ty

namespace Scriptor

inductive Builtin where
  | pi
  | tau
  | print
  | sin
  | cos
  | exp
  | ln
  | hypot
  | bytes
  | codepoints
  | wait
  deriving DecidableEq

namespace Builtin

def all : List Builtin :=
  [.pi, .tau, .print, .sin, .cos, .exp, .ln, .hypot, .bytes, .codepoints, .wait]

def name : Builtin → String
  | .pi => "pi"
  | .tau => "tau"
  | .print => "print"
  | .sin => "sin"
  | .cos => "cos"
  | .exp => "exp"
  | .ln => "ln"
  | .hypot => "hypot"
  | .bytes => "bytes"
  | .codepoints => "codepoints"
  | .wait => "wait"

def ofName? (name : String) : Option Builtin :=
  all.find? fun b => b.name = name

/-- What a script writes in its place. -/
def target : Builtin → String
  | .pi => "Math.PI"
  | .tau => "(2 * Math.PI)"
  | .print => "console.log"
  | .sin => "Math.sin"
  | .cos => "Math.cos"
  | .exp => "Math.exp"
  | .ln => "Math.log"
  | .hypot => "Math.hypot"
  | .bytes => "((s) => [...new TextEncoder().encode(s)])"
  | .codepoints => "((s) => [...s].map((c) => c.codePointAt(0)))"
  | .wait =>
    "((seconds) => Atomics.wait(new Int32Array(new SharedArrayBuffer(4)), 0, 0, seconds * 1000))"

def ty : Builtin → Ty
  | .pi | .tau => .float
  | .print => .function [] .void
  | .sin | .cos | .exp | .ln => .function [.float] .float
  | .hypot => .function [.float, .float] .float
  | .bytes | .codepoints => .function [.string] (.array .int)
  | .wait => .function [.int] .void

def isVariadic : Builtin → Bool
  | .print => true
  | _ => false

def isConstant : Builtin → Bool
  | .pi | .tau => true
  | _ => false

end Builtin
end Scriptor
