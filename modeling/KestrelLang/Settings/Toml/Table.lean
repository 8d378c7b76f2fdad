import KestrelLang.Settings.Toml.Reader

/-! # TOML tables

* `Toml.Item` — what a key of a table holds: a value, a table, or an array of tables.
* `Toml.Conflict` — why a key cannot hold what it should, with its wording.
* `Toml.addTable`, `Toml.addArrayTable`, `Toml.addValue` — one more key in a table.
* `Toml.SyntaxError` — why a text is no document, with its wording.
* `Toml.read` — the table of a text. -/

namespace KestrelLang.Toml

/-! ## Tables -/

inductive Item where
  | value (line : Nat) (value : Value)
  /-- A table; `headed` says that it has a header of its own. -/
  | table (line : Nat) (headed : Bool) (fields : List (String × Item))
  /-- An array of tables, the last one first, with the line of its first one. -/
  | tables (line : Nat) (all : List (List (String × Item)))
  deriving Inhabited

abbrev Fields := List (String × Item)

inductive Occupant where
  | entry (line : Nat)
  | table (line : Nat)
  | tables (line : Nat)
  deriving DecidableEq, Repr, Inhabited

def Item.occupant : Item → Occupant
  | .value line _ => .entry line
  | .table line _ _ => .table line
  | .tables line _ => .tables line

def Occupant.text : Occupant → String
  | .entry line => s!"line {line}"
  | .table line => s!"table in line {line}"
  | .tables line => s!"array table in line {line}"

inductive Conflict where
  | table (name : String) (before : Occupant)
  | tables (name : String) (before : Occupant)
  | key (name : String) (before : Occupant)
  /-- A key on the way to a table that holds a value. -/
  | way (name : String) (line : Nat)
  deriving DecidableEq, Repr, Inhabited

/-- The wording of a conflict. The line of an entry with the same key is in base sixteen, with a letter
    after it. -/
def Conflict.message : Conflict → String
  | .table name before => "table `" ++ name ++ "' is in conflict with " ++ before.text
  | .tables name before => "array table `" ++ name ++ "' is in conflict with " ++ before.text
  | .key name (.entry line) =>
    let hex := String.ofList (Nat.toDigits 16 line)
    "key `" ++ name ++ "' is in conflict with line " ++ hex ++ "d"
  | .key name (.table line) => "key `" ++ name ++ "' is in conflict with " ++ (Occupant.table line).text
  | .key name (.tables _) =>
    "BUG: key `" ++ name ++ "' is in conflict but it's unknown type `[]*ast.Table'"
  | .way name line => "key `" ++ name ++ "' is in conflict with " ++ (Occupant.entry line).text

/-! ## Adding keys -/

def put (name : String) (item : Item) : Fields → Fields
  | [] => [(name, item)]
  | (key, old) :: rest =>
    if key = name then (name, item) :: rest else (key, old) :: put name item rest

/-- Changes the table at a path. Tables that are missing on the way are made on the given line, and of
    an array of tables the last one is meant. -/
def changeAt (line : Nat) (change : Fields → Except Conflict Fields) :
    (path : List String) → Fields → Except Conflict Fields
  | [], fields => change fields
  | name :: path, fields =>
    match fields.lookup name with
    | none => do return put name (.table line false (← changeAt line change path [])) fields
    | some (.table start headed inner) => do
      return put name (.table start headed (← changeAt line change path inner)) fields
    | some (.tables start (inner :: earlier)) => do
      return put name (.tables start ((← changeAt line change path inner) :: earlier)) fields
    | some (.tables _ []) => .ok fields
    | some (.value start _) => .error (.way name start)

/-- Adds a table. One without a header of its own may be given again, and keeps its keys. -/
def addTable (name key : String) (line : Nat) (headed : Bool) (fields : Fields) :
    Except Conflict Fields :=
  match fields.lookup key with
  | none => .ok (put key (.table line headed []) fields)
  | some (.table _ false inner) => .ok (put key (.table line headed inner) fields)
  | some item => .error (.table name item.occupant)

def addArrayTable (name key : String) (line : Nat) (fields : Fields) : Except Conflict Fields :=
  match fields.lookup key with
  | none => .ok (put key (.tables line [[]]) fields)
  | some (.tables start all) => .ok (put key (.tables start ([] :: all)) fields)
  | some item => .error (.tables name item.occupant)

def addValue (key : String) (line : Nat) (value : Value) (fields : Fields) :
    Except Conflict Fields :=
  match fields.lookup key with
  | none => .ok (put key (.value line value) fields)
  | some item => .error (.key key item.occupant)

/-! ## Texts -/

inductive SyntaxError where
  | malformed (line : Nat)
  /-- A string or a key with a wrong escape. -/
  | badEscape (line : Nat)
  | conflict (line : Nat) (conflict : Conflict)
  deriving DecidableEq, Repr, Inhabited

def SyntaxError.line : SyntaxError → Nat
  | .malformed line | .badEscape line | .conflict line _ => line

def SyntaxError.message : SyntaxError → String
  | .malformed _ => "invalid TOML syntax"
  | .badEscape _ => "invalid syntax"
  | .conflict _ cause => cause.message

def onLine {α : Type} (line : Nat) : Except Conflict α → Except SyntaxError α
  | .ok a => .ok a
  | .error c => .error (.conflict line c)

def Key.get (k : Key) : Except SyntaxError String :=
  match k.name with
  | some name => .ok name
  | none => .error (.badEscape k.line)

def names : List Key → Except SyntaxError (List String)
  | [] => .ok []
  | k :: ks => do return (← k.get) :: (← names ks)

mutual

/-- Makes the tables that a value holds, under a key of the table at a path; the result says whether
    there are any. Within brackets, every table between braces is one more table of an array. -/
def addInner (path : List String) (key : String) (inArray : Bool) (fields : Fields) :
    Value → Except SyntaxError (Bool × Fields)
  | .table line entries => do
    let add := if inArray then addArrayTable key key line else addTable key key line false
    let fields ← onLine line (changeAt line add path fields)
    return (true, ← addEntries (path ++ [key]) inArray fields entries)
  | .array items => addItems path key fields items
  | .text none line => .error (.badEscape line)
  | _ => .ok (false, fields)

def addItems (path : List String) (key : String) (fields : Fields) :
    List Value → Except SyntaxError (Bool × Fields)
  | [] => .ok (false, fields)
  | item :: items => do
    let (here, fields) ← addInner path key true fields item
    let (more, fields) ← addItems path key fields items
    return (here || more, fields)

/-- Adds an entry to the table at a path. A value with tables in it is kept as these tables. -/
def addEntry (path : List String) (inArray : Bool) (fields : Fields) :
    KeyValue → Except SyntaxError Fields
  | (k, value, line) => do
    let key ← k.get
    let (hasTables, fields) ← addInner path key inArray fields value
    if hasTables then return fields
    onLine line (changeAt line (addValue key line value) path fields)

def addEntries (path : List String) (inArray : Bool) (fields : Fields) :
    List KeyValue → Except SyntaxError Fields
  | [] => .ok fields
  | entry :: entries => do addEntries path inArray (← addEntry path inArray fields entry) entries

end

/-- Adds a statement: a header changes the path of the table that the entries after it belong to. -/
def addStatement (path : List String) (fields : Fields) :
    Statement → Except SyntaxError (List String × Fields)
  | .entry entry => do return (path, ← addEntry path false fields entry)
  | .header isArray keys name line => do
    let path ← names keys
    let key := path.getLast?.getD ""
    let add := if isArray then addArrayTable name key line else addTable name key line true
    return (path, ← onLine line (changeAt line add path.dropLast fields))

def addStatements (path : List String) (fields : Fields) :
    List Statement → Except SyntaxError Fields
  | [] => .ok fields
  | s :: rest => do
    let (path, fields) ← addStatement path fields s
    addStatements path fields rest

def read (text : String) : Except SyntaxError Fields :=
  match statements text with
  | .ok all => addStatements [] [] all
  | .error line => .error (.malformed line)

end KestrelLang.Toml
