/-! # Caches

* `Cache` — a bounded number of entries, the one used last first.
* `Cache.find?` — looks an entry up and marks it as used.
* `Cache.add` — adds an entry; when there are too many, the one unused for longest is dropped. -/

namespace KestrelLang

/-- A bounded number of entries, the one used last first. -/
structure Cache (K V : Type) where
  capacity : Nat
  entries : List (K × V)
  deriving Inhabited

namespace Cache

variable {K V : Type} [DecidableEq K]

def empty (capacity : Nat) : Cache K V := ⟨capacity, []⟩

def lookup (key : K) : List (K × V) → Option V
  | [] => none
  | (k, v) :: rest => if k = key then some v else lookup key rest

def without (key : K) (entries : List (K × V)) : List (K × V) :=
  entries.filter fun e => e.1 ≠ key

/-- Looks a key up; an entry that is found counts as used. -/
def find? (c : Cache K V) (key : K) : Option V × Cache K V :=
  match lookup key c.entries with
  | some v => (some v, { c with entries := (key, v) :: without key c.entries })
  | none => (none, c)

def add (c : Cache K V) (key : K) (value : V) : Cache K V :=
  { c with entries := ((key, value) :: without key c.entries).take c.capacity }

end Cache

end KestrelLang
