import KestrelLang.Report.Failure
import KestrelLang.Text.Strings
import KestrelLang.Workspace.Path

/-! # Diagnostics

* `Location`, `Note`, `Diagnostic` — what a user is told about a failure.
* `Failure.diagnostic` — the diagnostic of a failure.
* `Diagnostic.describe` — its text: one line, and one more for each note. -/

namespace KestrelLang

/-- A place by path, line and column; parts that are not positive are not known. -/
structure Location where
  path : String
  line : Int
  column : Int
  deriving DecidableEq, Repr, Inhabited

namespace Location

def ofSpan (origin : String) (span : Span) : Location := ⟨origin, span.start.line, span.start.column⟩

def unknown : Location := ⟨"", 0, 0⟩

def describe (workingDir : String) (loc : Location) : String :=
  let path := Path.shown workingDir (Text.trim loc.path)
  if path ≠ "" then
    if loc.line ≤ 0 then path
    else if loc.column ≤ 0 then s!"{path}:{loc.line}"
    else s!"{path}:{loc.line}:{loc.column}"
  else if 0 < loc.line ∧ 0 < loc.column then s!"line {loc.line}, column {loc.column}"
  else ""

end Location

structure Note where
  message : String
  location : Location
  deriving DecidableEq, Repr, Inhabited

structure Diagnostic where
  phase : String
  message : String
  location : Location
  notes : List Note
  deriving DecidableEq, Repr, Inhabited

def Location.before (workingDir : String) (loc : Location) (message : String) : String :=
  match loc.describe workingDir with
  | "" => message
  | place => place ++ " " ++ message

def Diagnostic.describe (workingDir : String) (d : Diagnostic) : String :=
  let first := d.phase ++ ": " ++ d.location.before workingDir d.message
  let notes := d.notes.map fun n => "\nnote: " ++ n.location.before workingDir n.message
  first ++ String.join notes

/-- What a user is told about a failure. Remarks in front of a failure with a place are left out. -/
def Failure.diagnostic (failure : Failure) : Diagnostic :=
  match failure.root with
  | .parse e => ⟨"parse", e.summary, ⟨e.origin, e.place.line, e.place.column⟩, []⟩
  | .compile e => ⟨"compile", e.summary, .ofSpan e.origin e.span, []⟩
  | .fault f =>
    ⟨"runtime", f.summary, .ofSpan f.origin f.span,
      f.callSites.map fun site => ⟨"called from here", .ofSpan site.origin site.span⟩⟩
  | _ => ⟨"runtime", failure.message, .unknown, []⟩

end KestrelLang
