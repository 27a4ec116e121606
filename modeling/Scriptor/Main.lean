import Scriptor.Command

namespace Scriptor.Command

def faultOf : IO.Error → FileFault
  | .noFileOrDirectory _ _ _ => .missing
  | .inappropriateType _ _ _ => .directory
  | e => .other (toString e)

def machine : Files IO where
  read path := do
    try return .ok (← IO.FS.readBinFile path)
    catch e => return .error (faultOf e)
  write path text := do
    try return .ok (← IO.FS.writeFile path text)
    catch e => return .error (faultOf e)

def usage : String :=
  "Usage: scriptor [--emit tokens|parsed|analyzed|optimized|js] [--no-optimize] [-o FILE] SOURCE\n"

end Scriptor.Command

def main (args : List String) : IO UInt32 := do
  match Scriptor.Command.Options.ofArgs? args with
  | none =>
    (← IO.getStderr).putStr Scriptor.Command.usage
    return 2
  | some o =>
    let report ← Scriptor.Command.run Scriptor.Command.machine o
    (← IO.getStdout).putStr report.stdout
    (← IO.getStderr).putStr report.stderr
    return report.exit.toUInt32
