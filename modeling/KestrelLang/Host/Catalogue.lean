import KestrelLang.Code.Instr
import KestrelLang.Grammar.Token
import KestrelLang.Machine.Fault
import KestrelLang.Value.Basic

/-! # Names by code

* `Catalogue` — the families of things that a host may ask for by number.
* `Catalogue.name` — the name of a member; a number beyond the family has a name that shows it.
* `DispatchAction.ofCode?` — the action of a number. -/

namespace KestrelLang

inductive Catalogue where
  | marker | action | kind | fault | compileError | token | operation | verbClass | mode
  deriving DecidableEq, Repr, Inhabited

def memberAt? {α : Type} (members : List α) (code : Int) : Option α :=
  if code < 0 then none else members[code.toNat]?

def DispatchAction.ofCode? (code : Int) : Option DispatchAction := memberAt? DispatchAction.all code

/-- The classes of verbs: those that stay in their unit, then those that may leave it. -/
def verbClassName (code : Int) : String := if code = 0 then "local" else "nonlocal"

def dispatchModes : List Label.DispatchMode := [.none, .loopEnd, .perStatement]

def Catalogue.name (family : Catalogue) (code : Int) : String :=
  match family with
  | .marker => (MarkerKind.ofCode code).text
  | .action =>
    ((memberAt? DispatchAction.all code).map DispatchAction.text).getD s!"unknown_action_{code}"
  | .kind => ((memberAt? Kind.all code).map Kind.text).getD s!"unknown_kind_{code}"
  | .fault => (FaultKind.ofCode code).text
  | .compileError => (CompileErrorKind.ofCode code).text
  | .token => ((memberAt? TokenKind.all code).map TokenKind.text).getD "unknown"
  | .operation => (memberAt? operationNames code).getD s!"op_{code}"
  | .verbClass => verbClassName code
  | .mode => ((memberAt? dispatchModes code).getD .none).text

end KestrelLang
