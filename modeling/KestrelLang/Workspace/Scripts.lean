import KestrelLang.Grammar.Parser
import KestrelLang.Report.Failure
import KestrelLang.Text.Utf8
import KestrelLang.Workspace.Files

/-! # Scripts

* `Workspace.resolve` — the script that a file or directory stands for.
* `Script` — a parsed script with its name and its text.
* `Workspace.load`, `Script.parse` — reads and parses a script.
* `Loader` — reads scripts until it is closed.
* `Workspace.discover` — all scripts below a directory. -/

namespace KestrelLang

def scriptExtension : String := ".kst"

def entryFile : String := "main" ++ scriptExtension

def pathFailure (activity call path : String) (fault : PathFault) : Failure :=
  .during activity (.plain (call ++ " " ++ path ++ ": " ++ fault.message))

/-- The script that a file or directory stands for: a directory has an entry file. -/
def Workspace.resolve (w : Workspace) (entry : String) : Except Failure String :=
  if entry = "" then .error (.plain "loader: empty entry path")
  else
    let path := w.absolute entry
    match w.find path with
    | .error fault => .error (pathFailure ("loader: stat entry " ++ path) "stat" path fault)
    | .ok (_, .file _) => .ok path
    | .ok (_, .directory) =>
      let candidate := Path.join path entryFile
      match w.find candidate with
      | .ok _ => .ok candidate
      | .error _ => .error (.plain ("loader: directory " ++ path ++ " has no " ++ entryFile))

structure Script where
  name : String
  origin : String
  bytes : List UInt8
  tree : Module
  deriving Inhabited

namespace Script

/-- The name of a script: its file name without the extension. -/
def nameOf (path : String) : String :=
  let base := Path.baseName path
  String.ofList (base.toList.take (base.length - (Path.extension base).length))

def parse (origin : String) (bytes : List UInt8) : Except Failure Script :=
  match Parser.parseModule origin (Text.decodeUtf8 bytes) with
  | .error e => .error (.parse e)
  | .ok tree => .ok ⟨nameOf origin, origin, bytes, tree⟩

end Script

namespace Workspace

def load (w : Workspace) (entry : String) : Except Failure Script :=
  match w.resolve entry with
  | .error e => .error e
  | .ok path =>
    match w.readFile path with
    | .error fault => .error (pathFailure ("loader: read " ++ path) "read" path fault)
    | .ok bytes => Script.parse path bytes

end Workspace

structure Loader where
  isOpen : Bool
  deriving DecidableEq, Repr, Inhabited

namespace Loader

def closedFailure : Failure := .plain "loader: closed"

def load (l : Loader) (w : Workspace) (entry : String) : Except Failure Script :=
  if l.isOpen then w.load entry else .error closedFailure

def loadSource (l : Loader) (name : String) (bytes : List UInt8) : Except Failure Script :=
  if l.isOpen then Script.parse name bytes else .error closedFailure

end Loader

namespace Workspace

/-- The scripts at a path and below it. Directories whose names start with a point are left out,
    except at the start. No path is longer than the deepest file. -/
def scriptsBelow (w : Workspace) : (depth : Nat) → (place : List String) → (path : String) → List String
  | 0, _, _ => []
  | depth + 1, place, path =>
    match w.files.at? place with
    | none => []
    | some (.file _) => if Path.extension path = scriptExtension then [path] else []
    | some .directory =>
      (w.files.names place).flatMap fun name =>
        let inner := place ++ [name]
        if name.startsWith "." && w.files.at? inner = some .directory then []
        else scriptsBelow w depth inner (Path.join path name)

def discover (w : Workspace) (root : String) : Except Failure (List String) :=
  match w.find root with
  | .error fault => .error (pathFailure ("loader: scan " ++ root) "lstat" root fault)
  | .ok (place, _) =>
    let deepest := (w.files.map fun f => f.1.length).foldl max 0
    .ok (Text.sortTexts (w.scriptsBelow (deepest + 2) place root))

end Workspace

end KestrelLang
