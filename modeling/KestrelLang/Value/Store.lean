import KestrelLang.Label.Resolution
import KestrelLang.Value.Basic

/-! # Stores

* `Env` — the bindings of one scope, with the scope around it.
* `Store` — all environments and arrays of a thread.
* `Store.get?`, `Store.assign?`, `Store.define`, `Store.root`, `Store.extend`, `Store.unwind`,
  `Store.unwindTo` — operations on environments, by number.
* `Store.elements`, `Store.newArray`, `Store.modifyArray` — operations on arrays, by reference.

An environment is made after the one around it, so its number is larger; looking outward always
ends. -/

namespace KestrelLang

/-! ## Bindings -/

abbrev Bindings := List (String × Value)

namespace Bindings

def get? (name : String) : Bindings → Option Value
  | [] => none
  | (n, v) :: rest => if n = name then some v else get? name rest

def has (name : String) (b : Bindings) : Bool := (get? name b).isSome

/-- Gives a name a value, in its old place if it has one. -/
def put (name : String) (value : Value) : Bindings → Bindings
  | [] => [(name, value)]
  | (n, v) :: rest => if n = name then (name, value) :: rest else (n, v) :: put name value rest

end Bindings

/-! ## Environments -/

/-- The bindings of one scope. `depth` is the number of environments around it. -/
structure Env where
  bindings : Bindings
  parent : Option Nat
  depth : Nat
  deriving Inhabited

structure Store where
  envs : Array Env
  arrays : Array (Array Value)
  deriving Inhabited

namespace Store

def empty : Store := ⟨#[⟨[], none, 0⟩], #[]⟩

def env (s : Store) (id : Nat) : Env := s.envs[id]?.getD ⟨[], none, 0⟩

def depth (s : Store) (id : Nat) : Nat := (s.env id).depth

def parent (s : Store) (id : Nat) : Option Nat := (s.env id).parent

/-- The nearest environment, going outward, that binds a name. -/
def owner? (s : Store) (name : String) (id : Nat) : Option Nat :=
  if (s.env id).bindings.has name then some id
  else
    match s.parent id with
    | none => none
    | some p => if p < id then owner? s name p else none
termination_by id

def get? (s : Store) (name : String) (id : Nat) : Option Value :=
  match s.owner? name id with
  | some owner => (s.env owner).bindings.get? name
  | none => none

def define (s : Store) (id : Nat) (name : String) (value : Value) : Store :=
  { s with envs := s.envs.modify id fun e => { e with bindings := e.bindings.put name value } }

/-- Gives a new value to the nearest binding of a name, if there is one. -/
def assign? (s : Store) (id : Nat) (name : String) (value : Value) : Option Store :=
  match s.owner? name id with
  | some owner => some (s.define owner name value)
  | none => none

/-- Opens an environment with none around it; the result has its number. -/
def root (s : Store) : Nat × Store :=
  (s.envs.size, { s with envs := s.envs.push ⟨[], none, 0⟩ })

/-- Opens an environment inside one; the result has its number. -/
def extend (s : Store) (id : Nat) : Nat × Store :=
  (s.envs.size, { s with envs := s.envs.push ⟨[], some id, s.depth id + 1⟩ })

/-- Goes outward to the environment of the given depth, or as far as there is one. -/
def unwind (s : Store) (depth : Nat) (id : Nat) : Nat :=
  if s.depth id ≤ depth then id
  else
    match s.parent id with
    | none => id
    | some p => if p < id then unwind s depth p else id
termination_by id

/-- As `unwind`, for the depths that a host may ask for, negative ones among them. -/
def unwindTo (s : Store) (depth : Int) (id : Nat) : Nat :=
  if s.depth id ≤ depth then id
  else
    match s.parent id with
    | none => id
    | some p => if p < id then unwindTo s depth p else id
termination_by id

def keys (s : Store) (id : Nat) : List String :=
  Text.sortTexts ((s.env id).bindings.map (·.1))

def undefinedText (name : String) : String := "undefined variable '" ++ name ++ "'"

/-! ## Arrays -/

def elements (s : Store) (ref : Nat) : Array Value := s.arrays[ref]?.getD #[]

def newArray (s : Store) (elements : Array Value) : Nat × Store :=
  (s.arrays.size, { s with arrays := s.arrays.push elements })

def modifyArray (s : Store) (ref : Nat) (f : Array Value → Array Value) : Store :=
  { s with arrays := s.arrays.modify ref f }

end Store

end KestrelLang
