import KestrelLang.Text.Strings
import KestrelLang.Workspace.Path

/-! # Files

* `Files` — files and directories by their components below the root.
* `PathFault` — why a path leads to nothing that can be used.
* `Files.walk` — follows the components of a path from a directory.
* `Workspace` — files with a working directory; paths are looked up from there.
* `Workspace.find`, `Workspace.readFile`, `Workspace.listing` — looks at a path. -/

namespace KestrelLang

inductive FileKind where
  | file (bytes : List UInt8)
  | directory
  deriving DecidableEq, Repr, Inhabited

/-- Files and directories by their components below the root. A directory is there as soon as
    something is in it. -/
abbrev Files := List (List String × FileKind)

inductive PathFault where
  | missing | notDirectory | isDirectory
  deriving DecidableEq, Repr, Inhabited

def PathFault.message : PathFault → String
  | .missing => "no such file or directory"
  | .notDirectory => "not a directory"
  | .isDirectory => "is a directory"

namespace Files

def at? (files : Files) (place : List String) : Option FileKind :=
  match files.find? fun f => f.1 = place with
  | some f => some f.2
  | none => if place = [] || files.any (fun f => place.isPrefixOf f.1) then some .directory else none

/-- Follows components from a directory. Every step needs a directory, also one that stays. -/
def walk (files : Files) (here : List String) : List String → Except PathFault (List String × FileKind)
  | [] =>
    match files.at? here with
    | some kind => .ok (here, kind)
    | none => .error .missing
  | c :: cs =>
    match files.at? here with
    | none => .error .missing
    | some (.file _) => .error .notDirectory
    | some .directory =>
      if c = "." then walk files here cs
      else if c = ".." then walk files here.dropLast cs
      else walk files (here ++ [c]) cs

/-- The names in a directory, sorted and without repetition. -/
def names (files : Files) (place : List String) : List String :=
  Text.sortTexts (files.filterMap fun f =>
    if place.isPrefixOf f.1 then f.1[place.length]? else none)

end Files

structure Workspace where
  files : Files
  dir : String
  deriving Inhabited

namespace Workspace

/-- The place and the kind of what a path leads to. A path that ends in a slash leads to a
    directory. -/
def find (w : Workspace) (path : String) : Except PathFault (List String × FileKind) :=
  if path = "" then .error .missing
  else
    let start := if Path.isAbsolute path then [] else Path.components w.dir
    let last := if path.toList.getLast? = some '/' then ["."] else []
    w.files.walk start (Path.components path ++ last)

def absolute (w : Workspace) (path : String) : String :=
  if Path.isAbsolute path then Path.clean path else Path.join w.dir path

def readFile (w : Workspace) (path : String) : Except PathFault (List UInt8) :=
  match w.find path with
  | .error e => .error e
  | .ok (_, .directory) => .error .isDirectory
  | .ok (_, .file bytes) => .ok bytes

end Workspace

end KestrelLang
