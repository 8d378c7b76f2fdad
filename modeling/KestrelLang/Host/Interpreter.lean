import KestrelLang.Code.Lowering
import KestrelLang.Grammar.Parser
import KestrelLang.Host.Cache
import KestrelLang.Host.Options
import KestrelLang.Machine.Run
import KestrelLang.Text.Utf8

/-! # Interpreters

* `Interpreter` — what the threads of a host share: options, the programs kept, and counters.
* `compileModule` — from a tree to a program, with the events to tell about.
* `Interpreter.compileSource` — from bytes to a program, which may have been kept.
* `Interpreter.spawn` — a new thread. -/

namespace KestrelLang

/-- A program with its number; compiling the same text twice gives two numbers unless the first
    program was kept. -/
structure Compiled where
  number : Nat
  program : Program
  deriving Inhabited

/-- The key of a text: its name, a zero byte and its bytes. -/
abbrev SourceKey := List UInt8

structure Interpreter where
  options : Options
  cache : Cache SourceKey Compiled
  threads : Nat
  programs : Nat
  deriving Inhabited

def missingModule : Failure := .plain "compiler: missing module"

def compileModule (origin : String) (m : Module) : Except Failure Program × List Event :=
  match Code.compile origin m with
  | .error e => (.error (.compile e), [])
  | .ok p =>
    let warnings := p.warnings.map fun w =>
      (⟨.warn, "compile warning", [("origin", origin), ("detail", w)]⟩ : Event)
    let done : Event := ⟨.debug, "compiled program",
      [("origin", origin), ("subs", toString p.subs.length), ("closures", toString p.closures.length)]⟩
    (.ok p, warnings ++ [done])

def compileText (origin : String) (source : List UInt8) : Except Failure Program × List Event :=
  match Parser.parseModule origin (Text.decodeUtf8 source) with
  | .error e => (.error (.parse e), [])
  | .ok m => compileModule origin m

namespace Interpreter

def new (options : Options) : Interpreter := ⟨options, .empty options.capacity, 0, 0⟩

def keyOf (origin : String) (source : List UInt8) : SourceKey := origin.toUTF8.toList ++ 0 :: source

/-- From bytes to a program. A program that is still kept is not made again. -/
def compileSource (i : Interpreter) (origin : String) (source : List UInt8) :
    Except Failure Compiled × List Event × Interpreter :=
  let key := keyOf origin source
  match i.cache.find? key with
  | (some c, cache) =>
    (.ok c, [⟨.debug, "compile cache hit", [("origin", origin)]⟩], { i with cache := cache })
  | (none, _) =>
    match compileText origin source with
    | (.error e, events) => (.error e, events, i)
    | (.ok p, events) =>
      let c : Compiled := ⟨i.programs, p⟩
      (.ok c, events, { i with cache := i.cache.add key c, programs := i.programs + 1 })

def spawn (i : Interpreter) : Thread × Interpreter :=
  (Thread.new (i.threads + 1), { i with threads := i.threads + 1 })

end Interpreter

end KestrelLang
