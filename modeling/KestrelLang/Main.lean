import KestrelLang.Command.Perform
import KestrelLang.Host.Repl

/-! # The program

* `gather` — the files that a command line may speak of, as a workspace.
* `interact` — an interactive session on the standard streams.
* `execute`, `main` — perform the command line. -/

namespace KestrelLang

def ampleFuel : Nat := Nat.pow 10 18

def probe (path : String) : IO (Option FileKind) := do
  try
    let bytes ← IO.FS.readBinFile path
    return some (.file bytes.toList)
  catch e =>
    match e with
    | .inappropriateType .. => return some .directory
    | _ => return none

def candidates (argument : String) : List String :=
  let value := (splitValue argument.toList).2.getD argument
  [argument, value, Path.join argument entryFile]

def prefixesOf (place : List String) : List (List String) :=
  (List.range (place.length + 1)).map fun n => place.take n

def gather (arguments : List String) : IO Workspace := do
  let dir := (← IO.currentDir).toString
  let empty : Workspace := ⟨[], dir⟩
  let paths := (arguments.flatMap candidates).map empty.absolute
  let places := (paths.flatMap fun p => prefixesOf (Path.components p)).eraseDups
  let mut files : Files := []
  for place in places do
    match ← probe (Path.ofComponents true place) with
    | some kind => files := (place, kind) :: files
    | none => pure ()
  return ⟨files, dir⟩

def flush (out err : IO.FS.Stream) (r : Repl) : IO Repl := do
  out.putStr r.out
  out.flush
  err.putStr r.err
  return { r with out := "", err := "" }

partial def interact (workingDir : String) (r : Repl) : IO Unit := do
  let out ← IO.getStdout
  let err ← IO.getStderr
  out.putStr (if r.pending = "" then Prompt.main else .continuation).text
  out.flush
  let line ← (← IO.getStdin).getLine
  if line = "" then out.putStrLn ""
  else
    let text := String.ofList (line.toList.filter (· ≠ '\n'))
    let r ← flush out err (r.feed workingDir ampleFuel (some text))
    if r.status = .reading then interact workingDir r

def execute (arguments : List String) : IO UInt32 := do
  let w ← gather arguments
  match perform w ampleFuel arguments with
  | .exit e =>
    IO.print e.out
    IO.eprint e.err
    return UInt32.ofNat e.code
  | .interact c =>
    IO.println ("kestrel " ++ toolVersion ++ "; :quit to exit")
    interact w.dir (Repl.start c.options)
    return 0
  | .broken => return 2

end KestrelLang

def main (arguments : List String) : IO UInt32 := KestrelLang.execute arguments
