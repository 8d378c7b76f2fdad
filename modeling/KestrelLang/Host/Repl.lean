import KestrelLang.Host.Interpreter
import KestrelLang.Report.Diagnostic

/-! # The interactive loop

* `Repl` — the state of an interactive session: the text read so far and what was shown.
* `Repl.feed` — reads one line; a text that is not complete yet waits for more.
* `Repl.evaluate` — compiles and runs a complete text and shows its value.
* `Repl.converse` — reads lines until the session ends or no lines are left. -/

namespace KestrelLang

inductive Prompt where
  | main | continuation
  deriving DecidableEq, Repr, Inhabited

def Prompt.text : Prompt → String
  | .main => "kestrel> "
  | .continuation => "....... "

/-- Whether a session still reads lines: it ended by a command, or a run broke it off. -/
inductive ReplStatus where
  | reading | quit | broken
  deriving DecidableEq, Repr, Inhabited

/-- The state of an interactive session. `pending` is the text read so far, and `number` that of the
    text being read. -/
structure Repl where
  interpreter : Interpreter
  thread : Thread
  pending : String
  number : Nat
  out : String
  err : String
  history : List String
  prompts : List Prompt
  status : ReplStatus
  deriving Inhabited

namespace Repl

def start (options : Options) : Repl :=
  let (thread, i) := (Interpreter.new options).spawn
  ⟨i, thread, "", 1, "", "", [], [], .reading⟩

def say (r : Repl) (text : String) : Repl := { r with out := r.out ++ text ++ "\n" }

def complain (r : Repl) (text : String) : Repl := { r with err := r.err ++ text ++ "\n" }

def ask (r : Repl) : Repl :=
  let prompt := if r.pending = "" then Prompt.main else .continuation
  { r with prompts := r.prompts ++ [prompt] }

def advance (r : Repl) : Repl := { r with pending := "", number := r.number + 1 }

def isIncomplete (text : String) : Bool :=
  match Parser.parseModule "" text.toList with
  | .error e => e.isIncomplete
  | .ok _ => false

def display (r : Repl) (workingDir : String) (report : Report) : Repl :=
  let r := { r with thread := report.thread, out := r.out ++ report.out }
  match report.outcome with
  | .failure f => r.complain (f.diagnostic.describe workingDir)
  | .aborted => { r with status := .broken }
  | .value .undefined | .value .absent => r
  | .value v => r.say (v.text report.thread.store)

def evaluate (workingDir : String) (fuel : Nat) (r : Repl) (text : String) : Repl :=
  let r := { r with history := r.history ++ [text.replace "\n" " "] }
  match r.interpreter.compileSource s!"repl:{r.number}" text.toUTF8.toList with
  | (.error e, _, i) => { r with interpreter := i }.complain e.message
  | (.ok c, _, i) =>
    let r := { r with interpreter := i }
    match r.thread.run (i.options.limits none none) fuel c.program with
    | some report => r.display workingDir report
    | none => { r with status := .broken }

/-- Treats a complete text: a command, or something to evaluate. -/
def treat (workingDir : String) (fuel : Nat) (r : Repl) (text : String) : Repl :=
  let trimmed := Text.trim text
  if trimmed = "" then r
  else if trimmed = ":quit" || trimmed = ":q" then { r with status := .quit }
  else if trimmed.startsWith ":" then r.say "unknown command. Type :quit to exit."
  else r.evaluate workingDir fuel text

/-- Reads one line; nothing stands for an abandoned prompt. -/
def feed (workingDir : String) (fuel : Nat) (r : Repl) (line : Option String) : Repl :=
  let r := r.ask
  match line with
  | none => r.advance
  | some line =>
    let text := if r.pending = "" then line else r.pending ++ "\n" ++ line
    if isIncomplete text then { r with pending := text }
    else (r.treat workingDir fuel text).advance

/-- Reads lines while the session asks for them; the result has the lines left over. After the last
    line the session ends. -/
def converse (workingDir : String) (fuel : Nat) (r : Repl) :
    List (Option String) → Repl × List (Option String)
  | [] => (r.ask.say "", [])
  | line :: rest =>
    let r := r.feed workingDir fuel line
    if r.status = .reading then converse workingDir fuel r rest else (r, rest)

end Repl

end KestrelLang
