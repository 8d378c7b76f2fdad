import KestrelLang.Machine.State

/-! # Builtins

* `Effect` — what a builtin leaves behind: a result, the store and the text written.
* `Builtin.apply` — runs a builtin.

A native value stands for one of the seven builtins, or for none; there are no others for a host to add. -/

namespace KestrelLang

/-- What a builtin leaves behind. Trouble leaves the store and the text written as they were. -/
structure Effect where
  result : Except Trouble Value
  store : Store
  out : String

instance : Inhabited Effect := ⟨⟨.ok .undefined, .empty, ""⟩⟩

def outputLimitText : String := "output limit reached"

def joinTexts (s : Store) (args : List Value) : String :=
  String.join (args.map (Value.text s))

/-- Writes a text; the value of a successful write is one. -/
def writeText (limit : Option Nat) (s : Store) (out text : String) : Effect :=
  match appendWithin limit out text with
  | .ok out' => ⟨.ok (.int 1), s, out'⟩
  | .error out' => ⟨.error (.failed outputLimitText), s, out'⟩

def lengthOf (s : Store) : Value → Nat
  | .array ref => (s.elements ref).size
  | .undefined => 0
  | v => (v.text s).length

/-- The texts of the elements of an array with `glue` between them; of any other value its text. -/
def joinElements (s : Store) (glue : Value) : Value → String
  | .array ref => (glue.text s).intercalate ((s.elements ref).toList.map (Value.text s))
  | v => v.text s

/-- Adds values at the end of an array; the value is the new length. -/
def pushOnto (s : Store) (out : String) : List Value → Effect
  | [] => ⟨.error (.fault .pushWithoutArray), s, out⟩
  | .array ref :: values =>
    let s' := s.modifyArray ref (· ++ values.toArray)
    ⟨.ok (.int (Int64.ofNat (s'.elements ref).size)), s', out⟩
  | v :: _ => ⟨.error (.fault (.pushOnto v.kindText)), s, out⟩

def Builtin.apply (b : Builtin) (limit : Option Nat) (s : Store) (out : String) (args : List Value) :
    Effect :=
  let first := args.head?.getD .absent
  let second := (args.drop 1).head?.getD .absent
  match b with
  | .print => writeText limit s out (joinTexts s args)
  | .say => writeText limit s out (joinTexts s args ++ "\n")
  | .len => ⟨.ok (.int (Int64.ofNat (lengthOf s first))), s, out⟩
  | .push => pushOnto s out args
  | .join => ⟨.ok (.str (joinElements s first second)), s, out⟩
  | .str => ⟨.ok (.str (first.text s)), s, out⟩
  | .int => ⟨.ok (.int (first.toNumeric s).toInt64), s, out⟩

end KestrelLang
