/-! # Rules that remember how far they came

* `Toml.Input` — the text that is left, with its place and line.
* `Toml.Grammar` — a reader that may fail; what it tried before it failed is not lost, since the
  farthest end of a rule is kept.
* `Toml.Grammar.rule` — a reader whose ends count.
* `Toml.Grammar.many`, `Toml.Grammar.several` — repetition as often as possible.

A choice takes the first way that succeeds. -/

namespace KestrelLang.Toml

/-- The text that is left: the characters before it, the line, and the text. Lines count from one, and
    a carriage return counts like a line feed. -/
structure Input where
  place : Nat := 0
  line : Nat := 1
  rest : List Char
  deriving Inhabited

def Input.next (i : Input) (c : Char) (cs : List Char) : Input :=
  ⟨i.place + 1, if c = '\n' || c = '\r' then i.line + 1 else i.line, cs⟩

def Input.skip : Nat → Input → Input
  | n + 1, ⟨place, line, c :: cs⟩ => Input.skip n (Input.next ⟨place, line, c :: cs⟩ c cs)
  | _, i => i

/-- A reader that may fail. The number is the farthest end of a rule so far. -/
abbrev Grammar (α : Type) := StateT Input (OptionT (StateM Nat)) α

namespace Grammar

def char (p : Char → Bool) : Grammar Char := do
  let i ← get
  match i.rest with
  | c :: cs => if p c then set (i.next c cs); return c else failure
  | [] => failure

def span (p : Char → Bool) : Grammar (List Char) := do
  let i ← get
  let run := i.rest.takeWhile p
  set (i.skip run.length)
  return run

def word (s : String) : Grammar Unit := do
  let i ← get
  if s.toList.isPrefixOf i.rest then set (i.skip s.length) else failure

def done : Grammar Unit := do
  if (← get).rest.isEmpty then return () else failure

/-- A reader as often as it succeeds, but not more often than given. -/
def upTo {α : Type} (g : Grammar α) : Nat → Grammar (List α)
  | 0 => pure []
  | n + 1 => (do let a ← g; return a :: (← upTo g n)) <|> pure []

/-- A reader as often as it succeeds. It must take characters, so there is no need to try more often
    than there are characters. -/
def many {α : Type} (g : Grammar α) : Grammar (List α) := do upTo g (← get).rest.length

def several {α : Type} (g : Grammar α) : Grammar (List α) := do
  let a ← g
  return a :: (← many g)

/-- A reader whose end counts, if it took characters. -/
def rule {α : Type} (g : Grammar α) : Grammar α := do
  let before := (← get).place
  let a ← g
  let after := (← get).place
  if before < after then modifyThe Nat (max after)
  return a

def captured {α : Type} (g : Grammar α) : Grammar String := do
  let before ← get
  discard g
  return String.ofList (before.rest.take ((← get).place - before.place))

def line : Grammar Nat := do return (← get).line

def read {α : Type} (g : Grammar α) (cs : List Char) : Option α × Nat :=
  let (result, farthest) := ((g.run { rest := cs }).run).run 0
  (result.map (·.1), farthest)

end Grammar

end KestrelLang.Toml
