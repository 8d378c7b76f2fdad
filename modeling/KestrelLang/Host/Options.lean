import KestrelLang.Machine.State

/-! # Options

* `Options` — what a host chooses for an interpreter.
* `Options.limits` — the bounds of a run under these options. -/

namespace KestrelLang

/-- What a host chooses. Zero stands for the usual choice; a negative depth lifts the limit. -/
structure Options where
  maxDepth : Int
  interval : Int
  cacheSize : Int
  deriving DecidableEq, Repr, Inhabited

namespace Options

def usualDepth : Nat := 5000

def usualInterval : Nat := 1024

def usualCacheSize : Nat := 64

/-- The limit on the nesting of calls, if there is one. -/
def depthLimit (o : Options) : Option Nat :=
  if o.maxDepth < 0 then none
  else if o.maxDepth = 0 then some usualDepth
  else some o.maxDepth.toNat

def pollInterval (o : Options) : Nat :=
  if o.interval ≤ 0 then usualInterval else o.interval.toNat

def capacity (o : Options) : Nat :=
  if o.cacheSize ≤ 0 then usualCacheSize else o.cacheSize.toNat

def limits (o : Options) (cancelAfter outLimit : Option Nat) : Limits :=
  ⟨o.depthLimit, o.pollInterval, cancelAfter, outLimit⟩

end Options

end KestrelLang
