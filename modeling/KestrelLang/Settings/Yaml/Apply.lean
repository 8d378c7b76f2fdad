import KestrelLang.Number.Binary64
import KestrelLang.Settings.Field
import KestrelLang.Settings.Yaml.Node
import KestrelLang.Text.Strings
import KestrelLang.Text.Utf8

/-! # Settings from YAML

* `Yaml.Complaint` — what is wrong with one node, with its wording.
* `Yaml.Place` — where a node stands: for the whole, for a section, for a field.
* `Yaml.settingOf` — the value of a field from the meaning of a scalar.
* `Yaml.Reading` — the settings so far and the complaints so far.
* `Yaml.apply` — the settings of a document over given ones; one complaint does not stop the rest, but
  a fault does. -/

namespace KestrelLang.Yaml

/-! ## Complaints -/

inductive Complaint where
  /-- A node that does not fit the type of its place. -/
  | mismatch (line : Nat) (tag value type : String)
  /-- A key that its place does not know. -/
  | unknownKey (line : Nat) (key type : String)
  /-- A key that was there before. -/
  | repeatedKey (line : Nat) (key : String) (before : Nat)
  /-- A key that is written in another way and means the same as one before. -/
  | sameField (line : Nat) (key type : String)
  deriving DecidableEq, Repr, Inhabited

/-- A value as a complaint quotes it: what is longer than ten bytes is cut after seven. -/
def excerpt (value : String) : String :=
  let bytes := value.toUTF8.toList
  if 10 < bytes.length then String.ofList (Text.decodeUtf8 (bytes.take 7)) ++ "..." else value

def Complaint.message : Complaint → String
  | .mismatch line tag value type =>
    let shown := if tag = "!!seq" || tag = "!!map" then value else " `" ++ excerpt value ++ "`"
    s!"line {line}: cannot unmarshal " ++ tag ++ shown ++ " into " ++ type
  | .unknownKey line key type => s!"line {line}: field {key} not found in type {type}"
  | .repeatedKey line key before =>
    s!"line {line}: mapping key " ++ Text.quote key ++ s!" already defined at line {before}"
  | .sameField line key type => s!"line {line}: field {key} already set in type {type}"

def Node.unfit (node : Node) (type : String) : Complaint :=
  .mismatch node.line node.tag node.value type

/-- Why a document gives no settings: a fault, or complaints. -/
inductive ContentError where
  | fault (fault : ContentFault)
  | complaints (all : List Complaint)
  deriving DecidableEq, Repr, Inhabited

def ContentError.message : ContentError → String
  | .fault why => why.message
  | .complaints all =>
    "yaml: unmarshal errors:\n  " ++ "\n  ".intercalate (all.map Complaint.message)

/-! ## Fields -/

/-- What a scalar gives to a place: nothing, a value, or a complaint. -/
inductive Given where
  | nothing
  | value (setting : Setting)
  | unfit
  deriving Inhabited

def intOf : Meaning → Given
  | .int n => if n < Nat.pow 2 63 then .value (.int n) else .unfit
  | .float x => if x ≤ 9223372036854775808.0 then .value (.int (Binary64.toInt64 x).toInt) else .unfit
  | .null => .nothing
  | _ => .unfit

def flagWord? (word : String) : Option Bool :=
  if ["y", "Y", "yes", "Yes", "YES", "on", "On", "ON"].contains word then some true
  else if ["n", "N", "no", "No", "NO", "off", "Off", "OFF"].contains word then some false
  else none

def flagOf : Meaning → Given
  | .flag b => .value (.flag b)
  | .null => .nothing
  | .text word =>
    match flagWord? word with
    | some b => .value (.flag b)
    | none => .unfit
  | _ => .unfit

/-- A text; what is no text stands for the characters that it is written with. -/
def textOf (value : String) : Meaning → Given
  | .null => .nothing
  | .text s => .value (.text s)
  | _ => .value (.text value)

def settingOf (type : FieldType) (value : String) (meaning : Meaning) : Given :=
  match type with
  | .int => intOf meaning
  | .flag => flagOf meaning
  | .text => textOf value meaning

/-! ## Places -/

inductive Place where
  | whole
  | part (s : Section)
  | field (f : Field)
  deriving DecidableEq, Repr, Inhabited

namespace Place

def typeText : Place → String
  | .whole => configTypeText
  | .part s => s.typeText
  | .field f => f.type.typeText

def inner? (key : String) : Place → Option Place
  | .whole => (sectionOf? key).map .part
  | .part s => (s.fieldOf? key).map .field
  | .field _ => none

end Place

/-! ## Reading -/

/-- The settings and the complaints so far. While the entries of another mapping are brought in,
    `merged` has the keys that are set already. -/
structure Reading where
  config : Config
  complaints : List Complaint := []
  merged : Option (List String) := none
  deriving Inhabited

namespace Reading

def complain (r : Reading) (more : List Complaint) : Reading :=
  { r with complaints := r.complaints ++ more }

def setScalar (r : Reading) (place : Place) (node : Node) : Except ContentFault Reading := do
  let meaning ← taggedMeaning node.tag node.value
  match place, meaning with
  | .field f, meaning =>
    match settingOf f.type node.value meaning with
    | .nothing => return r
    | .value s => return { r with config := (f.set? r.config s).getD r.config }
    | .unfit => return r.complain [node.unfit place.typeText]
  | _, .null => return r
  | _, _ => return r.complain [node.unfit place.typeText]

end Reading

def repetitions : List (Node × Node) → List Complaint
  | [] => []
  | (k, _) :: rest =>
    let again := rest.filter fun (other, _) => k.sameKind other && k.value = other.value
    again.map (fun (other, _) => .repeatedKey other.line other.value k.line) ++ repetitions rest

def Document.resolve (d : Document) : Node → Node
  | .alias _ _ _ target => d.target target
  | node => node

def readKey (d : Document) (key : Node) : Except ContentFault (Option String × List Complaint) := do
  match d.resolve key with
  | .scalar _ tag value =>
    match ← taggedMeaning tag value with
    | .null => return (none, [])
    | .text s => return (some s, [])
    | _ => return (some value, [])
  | .mapping line tag entries =>
    match repetitions entries with
    | [] => return (none, [Node.unfit (.mapping line tag entries) "string"])
    | again => return (none, again)
  | node => return (none, [node.unfit "string"])

def textKeys (d : Document) (entries : List (Node × Node)) : List String :=
  entries.filterMap fun (key, _) =>
    match d.resolve key with
    | .scalar _ tag value =>
      match taggedMeaning tag value with
      | .ok (.text s) => some s
      | _ => none
    | _ => none

/-- The state between two entries of a mapping: the keys that are set, and the mappings to bring in. -/
structure Entries where
  reading : Reading
  merged : Option (List String)
  done : List String := []
  merge : Option Node := none
  deriving Inhabited

abbrev ReadPlace := Place → Node → Reading → Except ContentFault Reading

/-- Reads one entry of a mapping in a place. A key that is already set is passed over while other
    mappings are brought in. -/
def readEntry (read : ReadPlace) (d : Document) (place : Place) (s : Entries) :
    Node × Node → Except ContentFault Entries
  | (key, value) => do
    if key.isMergeKey then return { s with merge := some value }
    match ← readKey d key with
    | (none, complaints) => return { s with reading := s.reading.complain complaints }
    | (some name, _) =>
      if s.merged.any fun names => names.contains name then return s
      let s := { s with merged := s.merged.map fun names => name :: names }
      match place.inner? name with
      | none =>
        let complaint := .unknownKey key.line name place.typeText
        return { s with reading := s.reading.complain [complaint] }
      | some inner =>
        if s.done.contains name then
          let complaint := .sameField key.line name place.typeText
          return { s with reading := s.reading.complain [complaint] }
        return { s with reading := ← read inner value s.reading, done := name :: s.done }

def isMapping (d : Document) (node : Node) : Bool :=
  match d.resolve node with
  | .mapping .. => true
  | _ => false

def readMerge (read : ReadPlace) (d : Document) (place : Place) (value : Node) (r : Reading) :
    Except ContentFault Reading :=
  let bringIn := fun (r : Reading) (node : Node) =>
    if isMapping d node then read place node r else .error .mergeWithoutMapping
  match value with
  | .sequence _ _ items => items.foldlM bringIn r
  | node => bringIn r node

/-- Reads the entries of a mapping in a place: first its own ones, then those of the mappings that it
    brings in, where the keys of the first ones stay as they are. -/
def readEntries (read : ReadPlace) (d : Document) (place : Place) (entries : List (Node × Node))
    (r : Reading) : Except ContentFault Reading := do
  let start : Entries := { reading := { r with merged := none }, merged := r.merged }
  let s ← entries.foldlM (readEntry read d place) start
  match s.merge with
  | none => return { s.reading with merged := s.merged }
  | some value =>
    let names := s.merged.getD (textKeys d entries)
    let r ← readMerge read d place value { s.reading with merged := some names }
    return { r with merged := if s.merged.isSome then r.merged else none }

/-- Reads a node in a place. `opened` has the aliases that are being followed. Every call takes fuel;
    the square of the number of nodes is enough. -/
def readPlace (d : Document) :
    (fuel : Nat) → (opened : List Nat) → Place → Node → Reading → Except ContentFault Reading
  | 0, _, _, _, r => .ok r
  | fuel + 1, opened, place, node, r =>
    match node with
    | .alias _ name number target =>
      if opened.contains number then .error (.endlessAlias name)
      else readPlace d fuel (number :: opened) place (d.target target) r
    | .scalar .. => r.setScalar place node
    | .sequence .. => .ok (r.complain [node.unfit place.typeText])
    | .mapping _ _ entries =>
      match repetitions entries, place with
      | [], .field _ => .ok (r.complain [node.unfit place.typeText])
      | [], _ =>
        readEntries (fun place node r => readPlace d fuel opened place node r) d place entries r
      | again, _ => .ok (r.complain again)

def apply (d : Document) (c : Config) : Except ContentError Config :=
  match readPlace d ((d.size + 1) * (d.size + 1)) [] .whole d.root { config := c } with
  | .error why => .error (.fault why)
  | .ok r => if r.complaints.isEmpty then .ok r.config else .error (.complaints r.complaints)

end KestrelLang.Yaml
