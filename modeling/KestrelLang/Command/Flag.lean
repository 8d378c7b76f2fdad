import KestrelLang.Number.Prefixed
import KestrelLang.Text.Strings

/-! # Flags

* `Flag`, `FlagType` — a flag with its names and the type of its value.
* `FlagError` — why arguments cannot be read, with its wording.
* `Flags` — what was given, and the arguments after the flags.
* `readFlags` — reads flags up to the first argument that is none.

A flag starts with one hyphen or two. Its value follows an equals sign or is the next argument; a
switch needs none. -/

namespace KestrelLang

inductive FlagType where
  | text | int | switch
  deriving DecidableEq, Repr, Inhabited

/-- A flag: its names, the main one first, and its type. -/
structure Flag where
  names : List String
  type : FlagType
  deriving DecidableEq, Repr, Inhabited

inductive FlagValue where
  | text (value : String)
  | int (value : Int)
  | switch (value : Bool)
  deriving DecidableEq, Repr, Inhabited

inductive FlagError where
  | badShape (argument : String)
  | unknown (name : String)
  | needsValue (name : String)
  | badSwitch (value name : String)
  | badInt (value name : String) (fault : Number.IntegerFault)
  /-- Two names of one flag. -/
  | twoNames (second first : String)
  deriving DecidableEq, Repr, Inhabited

def FlagError.message : FlagError → String
  | .badShape argument => "bad flag syntax: " ++ argument
  | .unknown name => "flag provided but not defined: -" ++ name
  | .needsValue name => "flag needs an argument: -" ++ name
  | .badSwitch value name =>
    "invalid boolean value " ++ Text.quote value ++ " for -" ++ name ++ ": parse error"
  | .badInt value name fault =>
    let why := match fault with
      | .malformed => "parse error"
      | .outOfRange => "value out of range"
    "invalid value " ++ Text.quote value ++ " for flag -" ++ name ++ ": " ++ why
  | .twoNames second first => "Cannot use two forms of the same flag: " ++ second ++ " " ++ first

/-- What was given, by the names used and the last one first, and the arguments after the flags. -/
structure Flags where
  given : List (String × FlagValue)
  rest : List String
  deriving DecidableEq, Repr, Inhabited

/-! ## Values -/

def switchOf? (value : String) : Option Bool :=
  if ["1", "t", "T", "TRUE", "true", "True"].contains value then some true
  else if ["0", "f", "F", "FALSE", "false", "False"].contains value then some false
  else none

def FlagType.read (type : FlagType) (name value : String) : Except FlagError FlagValue :=
  match type with
  | .text => .ok (.text value)
  | .int =>
    match Number.readPrefixed value with
    | .ok n => .ok (.int n)
    | .error fault => .error (.badInt value name fault)
  | .switch =>
    match switchOf? value with
    | some b => .ok (.switch b)
    | none => .error (.badSwitch value name)

/-! ## Arguments -/

inductive ArgShape where
  /-- It ends the flags and is kept. -/
  | plain
  /-- It ends the flags and is dropped. -/
  | stop
  | flag (name : String) (value : Option String)
  | malformed
  deriving DecidableEq, Repr, Inhabited

/-- A name and the value after its equals sign, which cannot come first. -/
def splitValue (body : List Char) : String × Option String :=
  match body with
  | [] => ("", none)
  | c :: cs =>
    let name := c :: cs.takeWhile (· ≠ '=')
    match cs.dropWhile (· ≠ '=') with
    | [] => (String.ofList name, none)
    | _ :: value => (String.ofList name, some (String.ofList value))

def shapeOf (argument : String) : ArgShape :=
  match argument.toList with
  | ['-', '-'] => .stop
  | '-' :: c :: cs =>
    -- One hyphen or two make no difference.
    let body := if c = '-' then cs else c :: cs
    match body with
    | '-' :: _ | '=' :: _ | [] => .malformed
    | _ =>
      let (name, value) := splitValue body
      .flag name value
  | _ => .plain

/-- Reads flags up to the first argument that is none. -/
def readGiven (flags : List Flag) (given : List (String × FlagValue)) :
    List String → Except FlagError Flags
  | [] => .ok ⟨given, []⟩
  | argument :: rest =>
    match shapeOf argument with
    | .plain => .ok ⟨given, argument :: rest⟩
    | .stop => .ok ⟨given, rest⟩
    | .malformed => .error (.badShape argument)
    | .flag name value =>
      match flags.find? fun f => f.names.contains name with
      | none => .error (.unknown name)
      | some f =>
        match f.type, value, rest with
        | .switch, none, rest => readGiven flags ((name, .switch true) :: given) rest
        -- A switch takes a value only behind an equals sign.
        | type, some value, rest => do
          readGiven flags ((name, ← type.read name value) :: given) rest
        | type, none, value :: rest => do
          readGiven flags ((name, ← type.read name value) :: given) rest
        | _, none, [] => .error (.needsValue name)

def doubled? (given : List (String × FlagValue)) (flags : List Flag) : Option FlagError :=
  flags.findSome? fun f =>
    match f.names.filter fun n => given.any fun g => g.1 = n with
    | first :: second :: _ => some (.twoNames second first)
    | _ => none

def readFlags (flags : List Flag) (arguments : List String) : Except FlagError Flags :=
  match readGiven flags [] arguments with
  | .error e => .error e
  | .ok read =>
    match doubled? read.given flags with
    | some e => .error e
    | none => .ok read

namespace Flags

def value? (fs : Flags) (f : Flag) : Option FlagValue :=
  (fs.given.find? fun g => f.names.contains g.1).map (·.2)

def text? (fs : Flags) (f : Flag) : Option String :=
  match fs.value? f with
  | some (.text s) => some s
  | _ => none

def int? (fs : Flags) (f : Flag) : Option Int :=
  match fs.value? f with
  | some (.int n) => some n
  | _ => none

def isOn (fs : Flags) (f : Flag) : Bool := fs.value? f = some (.switch true)

end Flags

end KestrelLang
