import Scriptor.Compile
import Scriptor.Diagnostic
import Scriptor.Listing.Typed

namespace Scriptor

inductive Artifact where
  | tokens
  | parsed
  | analyzed
  | optimized
  | script

def Artifact.ofName? : String → Option Artifact
  | "tokens" => some .tokens
  | "parsed" => some .parsed
  | "analyzed" => some .analyzed
  | "optimized" => some .optimized
  | "js" => some .script
  | _ => none

def Artifact.produce (artifact : Artifact) (source file : String) (simplify : Bool) :
    Except Failure String :=
  match artifact with
  | .tokens =>
    ((tokenize source file).map fun ts => "\n".intercalate (ts.map Token.text)).mapError .error
  | .parsed =>
    ((tokenize source file >>= fun ts => parse ts file).map fun p => p.listing.text).mapError .error
  | .analyzed => ((analyze source file).map fun p => p.listing.text).mapError .error
  | .optimized =>
    ((analyze source file).map fun p => (p.simplifyIf simplify).listing.text).mapError .error
  | .script => compile source file simplify

namespace Command

inductive FileFault where
  | missing
  | directory
  | notText
  | other (message : String)

def FileFault.message : FileFault → String
  | .missing => "No such file or directory (os error 2)"
  | .directory => "Is a directory (os error 21)"
  | .notText => "stream did not contain valid UTF-8"
  | .other message => message

structure Options where
  source : String
  artifact : Artifact
  simplify : Bool
  /-- Where the artifact goes instead of the standard output. -/
  output : Option String

/-- What the command leaves behind, files apart. -/
structure Report where
  exit : UInt8
  stdout : String
  stderr : String

def Report.failed (stderr : String) : Report := ⟨1, "", stderr⟩

def fileName (path : String) : String :=
  let parts := (path.splitOn "/").filter fun part => part ≠ "" && part ≠ "."
  parts.getLastD path

structure Files (m : Type → Type) where
  read : String → m (Except FileFault ByteArray)
  write : String → String → m (Except FileFault Unit)

def decode (content : Except FileFault ByteArray) : Except FileFault String := do
  match String.fromUTF8? (← content) with
  | some text => return text
  | none => throw .notText

def failureText (source : String) : Failure → String
  | .error e => e.diagnostic source
  | .fault _ => "Error: the program cannot be written\n"

def run {m : Type → Type} [Monad m] (files : Files m) (o : Options) : m Report := do
  match decode (← files.read o.source) with
  | .error f => return .failed ("Error: cannot read " ++ o.source ++ ": " ++ f.message ++ "\n")
  | .ok source =>
    match o.artifact.produce source (fileName o.source) o.simplify with
    | .error f => return .failed (failureText source f)
    | .ok text =>
      match o.output with
      | none => return ⟨0, text ++ "\n", ""⟩
      | some path =>
        match ← files.write path (text ++ "\n") with
        | .error f => return .failed ("Error: cannot write " ++ path ++ ": " ++ f.message ++ "\n")
        | .ok () => return ⟨0, "", ""⟩

def Options.extend? (o : Options) (hasSource : Bool) : List String → Option Options
  | [] => if hasSource then some o else none
  | "--no-optimize" :: args => { o with simplify := false }.extend? hasSource args
  | "--emit" :: name :: args => do
    let artifact ← Artifact.ofName? name
    { o with artifact }.extend? hasSource args
  | "-o" :: path :: args | "--output" :: path :: args =>
    { o with output := some path }.extend? hasSource args
  | arg :: args =>
    if hasSource || arg.startsWith "-" then none else { o with source := arg }.extend? true args

def Options.ofArgs? (args : List String) : Option Options :=
  Options.extend? ⟨"", .script, true, none⟩ false args

end Command
end Scriptor
