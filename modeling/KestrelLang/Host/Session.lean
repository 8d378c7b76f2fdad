import KestrelLang.Host.Interpreter
import KestrelLang.Value.Datum

/-! # Sessions

* `Session` — an interpreter with its threads and the programs kept by name.
* `Session.compile`, `Session.load`, `Session.run`, `Session.call` — work on a session.
* `Session.define`, `Session.lookup`, `Session.register?` — changes and looks from outside.
* `runJobs` — runs several programs, each on a thread of its own. -/

namespace KestrelLang

structure Seat where
  thread : Thread
  outLimit : Option Nat
  deriving Inhabited

structure Session where
  interpreter : Interpreter
  seats : Array Seat
  kept : List (String × Compiled)
  deriving Inhabited

namespace Session

def spawn (s : Session) (outLimit : Option Nat) : Nat × Session :=
  let (thread, i) := s.interpreter.spawn
  (thread.id, { s with interpreter := i, seats := s.seats.push ⟨thread, outLimit⟩ })

def new (options : Options) (outLimit : Option Nat) : Session :=
  (spawn ⟨.new options, #[], []⟩ outLimit).2

def seat (s : Session) (index : Nat) : Seat := s.seats[index]?.getD ⟨Thread.new 0, none⟩

def setThread (s : Session) (index : Nat) (t : Thread) : Session :=
  { s with seats := s.seats.modify index fun seat => { seat with thread := t } }

def compile (s : Session) (origin : String) (source : List UInt8) :
    Except Failure Compiled × List Event × Session :=
  let (result, events, i) := s.interpreter.compileSource origin source
  (result, events, { s with interpreter := i })

def keeps (s : Session) (c : Compiled) : Bool :=
  s.kept.any fun entry => entry.2.number = c.number

def keep (s : Session) (name : String) (c : Compiled) : Session :=
  { s with kept := (name, c) :: s.kept.filter fun entry => entry.1 ≠ name }

def program? (s : Session) (name : String) : Option Program :=
  (s.kept.find? fun entry => entry.1 = name).map fun entry => entry.2.program

def limits (s : Session) (index : Nat) (cancelAfter : Option Nat) : Limits :=
  s.interpreter.options.limits cancelAfter (s.seat index).outLimit

def accept (s : Session) (index : Nat) (report : Option Report) : Option (Report × Session) :=
  report.map fun r => (r, s.setThread index r.thread)

/-- Runs a program on a thread; without a program there is nothing to run. -/
def run (s : Session) (fuel index : Nat) (cancelAfter : Option Nat) (p : Option Program) :
    Option (Report × Session) :=
  let t := (s.seat index).thread
  match p with
  | some p => s.accept index (t.run (s.limits index cancelAfter) fuel p)
  | none => s.accept index (some t.runNothing)

def load (s : Session) (index : Nat) (p : Program) : Session :=
  s.setThread index ((s.seat index).thread.load p)

def call (s : Session) (fuel index : Nat) (cancelAfter : Option Nat) (name : String)
    (args : List Datum) : Option (Report × Session) :=
  let t := (s.seat index).thread
  let (values, store) := t.store.plantAll args
  s.accept index ({ t with store := store }.call (s.limits index cancelAfter) fuel name values)

def lookup (s : Session) (index : Nat) (name : String) : Option Datum :=
  let store := (s.seat index).thread.store
  (store.get? name globals).map store.view

def define (s : Session) (index : Nat) (name : String) (d : Datum) : Session :=
  let t := (s.seat index).thread
  let (v, store) := t.store.plant d
  s.setThread index { t with store := store.define globals name v }

def keys (s : Session) (index : Nat) : List String :=
  (s.seat index).thread.store.keys globals

def register? (s : Session) (index : Nat) (m : Marker) : Option Session :=
  let t := (s.seat index).thread
  (t.channel.register? m).map fun channel => s.setThread index { t with channel := channel }

def pending (s : Session) (index : Nat) : Option Marker := (s.seat index).thread.channel

end Session

/-! ## Jobs -/

/-- A program to run by itself; a job may lack its program. -/
structure Job where
  name : String
  program : Option Program
  outLimit : Option Nat
  deriving Inhabited

/-- A run that asked for what no machine can give ends without a value. -/
def Report.contained (r : Report) : Report :=
  match r.outcome with
  | .aborted => { r with outcome := .value .absent }
  | _ => r

/-- Runs a job on a thread of its own, which keeps its trouble to itself. -/
def runJob (options : Options) (fuel : Nat) (cancelAfter : Option Nat) (id : Nat) (job : Job) :
    Option Report :=
  match job.program with
  | some p =>
    ((Thread.new id).run (options.limits cancelAfter job.outLimit) fuel p).map Report.contained
  | none => some (Thread.new id).runNothing

/-- Runs jobs that share nothing; the reports come in the order of the jobs. -/
def runJobs (options : Options) (fuel : Nat) (cancelAfter : Option Nat) (jobs : List Job) :
    List (Job × Option Report) :=
  jobs.zipIdx.map fun (job, n) => (job, runJob options fuel cancelAfter (n + 1) job)

end KestrelLang
