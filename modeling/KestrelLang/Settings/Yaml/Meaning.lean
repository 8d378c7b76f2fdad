import KestrelLang.Number.Prefixed
import KestrelLang.Settings.Moment
import KestrelLang.Text.Base64

/-! # The meaning of YAML scalars

* `Yaml.Meaning` — what a scalar stands for: nothing, a truth value, a number, a date or text.
* `Yaml.plainMeaning` — the meaning of a scalar without quotes and without tag.
* `Yaml.ContentFault` — why a document cannot be used at all, with its wording.
* `Yaml.taggedMeaning` — the meaning of a scalar with a tag. -/

namespace KestrelLang.Yaml

inductive Meaning where
  | null
  | flag (value : Bool)
  | int (value : Int)
  | float (value : Float)
  | date
  | text (value : String)
  deriving Inhabited

def Meaning.tag : Meaning → String
  | .null => "!!null"
  | .flag _ => "!!bool"
  | .int _ => "!!int"
  | .float _ => "!!float"
  | .date => "!!timestamp"
  | .text _ => "!!str"

/-! ## Numbers and dates -/

/-- Digits with at most one point, at least one of them before it or after it, and an optional
    exponent. -/
def looksLikeFloat (s : String) : Bool :=
  let (_, body) := Number.splitSign s.toList
  let whole := body.takeWhile Char.isDigit
  let afterWhole := body.dropWhile Char.isDigit
  let (places, rest) := match afterWhole with
    | '.' :: cs => (cs.takeWhile Char.isDigit, cs.dropWhile Char.isDigit)
    | cs => ([], cs)
  let exponentFits := match rest with
    | [] => true
    | c :: cs =>
      let (_, ds) := Number.splitSign cs
      c.toLower = 'e' && !ds.isEmpty && ds.all Char.isDigit
  (!whole.isEmpty || !places.isEmpty) && exponentFits

def readInt? (s : String) : Option Int :=
  match Number.readPrefixed s with
  | .ok n => some n
  | .error _ =>
    match Number.readMagnitude s.toList with
    | .ok n => some n
    | .error _ => none

/-- A sign that stands after the mark of base two or eight, instead of before it. -/
def readLateSign? (s : String) : Option Int :=
  let read := fun (base : Nat) (cs : List Char) =>
    let (negative, ds) := Number.splitSign cs
    let n : Int := Number.valueIn base ds
    let n := if negative then -n else n
    let fits := !ds.isEmpty && (ds.all fun c => (Number.digitIn? base c).isSome)
    if fits && -(Nat.pow 2 63) ≤ n && n < Nat.pow 2 63 then some n else none
  match s.toList with
  | '0' :: 'b' :: cs => read 2 cs
  | '0' :: 'o' :: cs => read 8 cs
  | _ => none

def numericMeaning (dates : Bool) (s : String) : Meaning :=
  let digits := String.ofList (s.toList.filter (· ≠ '_'))
  let float? := if looksLikeFloat digits then Number.readFloat? digits else none
  if dates && Moment.isLoose s then .date
  else
    match readInt? digits, float?, readLateSign? digits with
    | some n, _, _ => .int n
    | none, some x, _ => .float x
    | none, none, some n => .int n
    | none, none, none => .text s

/-! ## Meaning -/

/-- The meaning of a scalar without quotes and without tag. `dates` says that a date may be meant. -/
def meaningWith (dates : Bool) (s : String) : Meaning :=
  if ["", "~", "null", "Null", "NULL"].contains s then .null
  else if ["true", "True", "TRUE"].contains s then .flag true
  else if ["false", "False", "FALSE"].contains s then .flag false
  else if [".nan", ".NaN", ".NAN"].contains s then .float (0.0 / 0.0)
  else if [".inf", ".Inf", ".INF", "+.inf", "+.Inf", "+.INF"].contains s then .float (1.0 / 0.0)
  else if ["-.inf", "-.Inf", "-.INF"].contains s then .float (-1.0 / 0.0)
  else
    match s.toList with
    | '.' :: _ =>
      match Number.readFloat? s with
      | some x => .float x
      | none => .text s
    | c :: _ =>
      if c.isDigit || c = '+' || c = '-' then numericMeaning dates s else .text s
    | [] => .null

/-- The meaning of a scalar without quotes and without tag. -/
def plainMeaning (s : String) : Meaning := meaningWith true s

inductive ContentFault where
  /-- A scalar that is not what its tag says. -/
  | mistagged (found value tag : String)
  | badBinary
  | mergeWithoutMapping
  | endlessAlias (name : String)
  deriving DecidableEq, Repr, Inhabited

def ContentFault.message : ContentFault → String
  | .mistagged found value tag =>
    "yaml: cannot decode " ++ found ++ " `" ++ value ++ "` as a " ++ tag
  | .badBinary => "yaml: !!binary value contains invalid base64 data"
  | .mergeWithoutMapping => "yaml: map merge requires map or sequence of maps as the value"
  | .endlessAlias name => "yaml: anchor '" ++ name ++ "' value contains itself"

def meaningTags : List String := ["!!bool", "!!int", "!!float", "!!null", "!!timestamp"]

/-- The meaning of a scalar with a tag. A whole number of 64 bits with sign may be tagged as a
    floating-point number; what has a tag of its own kind is text. -/
def taggedMeaning (tag value : String) : Except ContentFault Meaning :=
  if tag = "!!binary" then
    match Text.decodeBase64? value with
    | some bytes => .ok (.text (String.ofList (Text.decodeUtf8 bytes)))
    | none => .error .badBinary
  else if !meaningTags.contains tag then .ok (.text value)
  else
    let meaning := meaningWith (tag = "!!timestamp") value
    if meaning.tag = tag then .ok meaning
    else
      match tag, meaning with
      | "!!float", .int n =>
        if n < Nat.pow 2 63 then .ok (.float (Binary64.ofInt64 (Int64.ofInt n)))
        else .error (.mistagged meaning.tag value tag)
      | _, _ => .error (.mistagged meaning.tag value tag)

end KestrelLang.Yaml
