import KestrelLang.Settings.Field
import KestrelLang.Settings.Moment
import KestrelLang.Settings.Toml.Table
import KestrelLang.Text.Strings

/-! # Settings from TOML

* `Toml.Problem`, `Toml.Complaint` — what is wrong with a key, with its wording.
* `Toml.settingOf` — the value of a field.
* `Toml.apply` — the settings of a table over given ones; the first complaint stops.
* `Toml.configText` — settings as a document. -/

namespace KestrelLang.Toml

/-! ## Complaints -/

inductive Problem where
  /-- A key that its place does not know. -/
  | unknownKey (key type : String)
  /-- A value that does not fit the type of its place; `wanted` may say what would. -/
  | mismatch (found type wanted : String)
  /-- An integer that the type of its place cannot hold. -/
  | intOutOfRange (digits type : String)
  /-- A number that is too large for a double. -/
  | floatOutOfRange (digits : String)
  /-- A date or a time that does not exist. -/
  | badMoment (text : String) (fault : Moment.Fault)
  deriving DecidableEq, Repr, Inhabited

structure Complaint where
  line : Nat
  problem : Problem
  deriving DecidableEq, Repr, Inhabited

def Problem.message : Problem → String
  | .unknownKey key type => s!"field '{key}' is not defined in {type}"
  | .mismatch found type wanted =>
    let need := if wanted = "" then "" else s!" (need {wanted})"
    s!"cannot unmarshal TOML {found} into {type}" ++ need
  | .intOutOfRange digits type => s!"value {digits} is out of range for {type}"
  | .floatOutOfRange digits =>
    "strconv.ParseFloat: parsing " ++ Text.quote digits ++ ": value out of range"
  | .badMoment text fault => "parsing time " ++ Text.quote text ++ ": " ++ fault.part ++ " out of range"

/-! ## Fields -/

def Value.typeText : Value → String
  | .int _ => "integer"
  | .float _ => "float"
  | .text _ _ => "string"
  | .flag _ => "boolean"
  | .moment _ => "datetime"
  | .array _ => "array"
  | .table _ _ => "table"

def Value.wanted : Value → String
  | .array _ => "slice"
  | .table _ _ => "struct or map"
  | _ => ""

/-- Why a value does not fit a type. That a number or a date does not exist comes first. -/
def Value.unfit (v : Value) (type : String) : Problem :=
  let mismatch := .mismatch v.typeText type v.wanted
  match v with
  | .float digits =>
    match Number.readFloat? digits with
    | some _ => mismatch
    | none => .floatOutOfRange digits
  | .moment written =>
    match Moment.strictFault? written with
    | none => mismatch
    | some fault => .badMoment written fault
  | _ => mismatch

def settingOf (type : FieldType) (v : Value) : Except Problem Setting :=
  match type, v with
  | .int, .int digits =>
    match Number.readInt64? digits with
    | some n => .ok (.int n.toInt)
    | none => .error (.intOutOfRange digits type.typeText)
  | .text, .text (some s) _ => .ok (.text s)
  | .flag, .flag b => .ok (.flag b)
  | _, _ => .error (v.unfit type.typeText)

def Item.unfit (item : Item) (type : String) : Problem :=
  match item with
  | .value _ v => v.unfit type
  | .table _ _ _ => .mismatch "table" type "struct or map"
  | .tables _ _ => .mismatch "array table" type "slice"

def Item.line : Item → Nat
  | .value line _ | .table line _ _ | .tables line _ => line

def blame {α : Type} (line : Nat) : Except Problem α → Except Complaint α
  | .ok a => .ok a
  | .error p => .error ⟨line, p⟩

def setField (s : Section) (c : Config) (key : String) (item : Item) : Except Problem Config :=
  match s.fieldOf? key, item with
  | none, _ => .error (.unknownKey key s.typeText)
  | some f, .value _ v =>
    match settingOf f.type v with
    | .ok setting => .ok ((f.set? c setting).getD c)
    | .error p => .error p
  | some f, item => .error (item.unfit f.type.typeText)

/-! ## Tables -/

def readFields (step : Config → String → Item → Except Complaint Config) (c : Config) :
    Fields → Except Complaint Config
  | [] => .ok c
  | (key, item) :: rest =>
    match step c key item with
    | .ok c => readFields step c rest
    | .error p => .error p

def setSection (c : Config) (key : String) (item : Item) : Except Complaint Config :=
  match sectionOf? key, item with
  | none, item => .error ⟨item.line, .unknownKey key configTypeText⟩
  | some s, .table _ _ fields =>
    readFields (fun c key item => blame item.line (setField s c key item)) c fields
  | some s, item => .error ⟨item.line, item.unfit s.typeText⟩

def apply (fields : Fields) (c : Config) : Except Complaint Config := readFields setSection c fields

/-! ## Writing -/

def settingText : Setting → String
  | .int n => toString n
  | .text s => Text.quote s
  | .flag b => if b then "true" else "false"

def sectionText (c : Config) (s : Section) : String :=
  let fields := s.fields.map fun f => f.key ++ " = " ++ settingText (f.get c) ++ "\n"
  "[" ++ s.key ++ "]\n" ++ String.join fields

def configText (c : Config) : String := "\n".intercalate (Section.all.map (sectionText c))

end KestrelLang.Toml
