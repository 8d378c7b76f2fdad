import KestrelLang.Code.Instr
import KestrelLang.Number.FloatText
import KestrelLang.Text.Strings

/-! # Listings of code

* `Operation.operands` — the operands of an operation as text.
* `ListingLine`, `listing` — one line for each instruction of a unit.
* `listingText` — the listing of a unit with its name on top. -/

namespace KestrelLang

def Literal.text : Literal → String
  | .undefined => "undef"
  | .int value => toString value.toInt
  | .float value => Number.floatText value
  | .str value => Text.quote value

def nameOrAnon (name : String) : String := if name = "" then "<anon>" else name

def DispatchTable.text (t : DispatchTable) : String :=
  match t.targets with
  | none => "* else " ++ t.onward.text
  | some c =>
    t.label ++ " last " ++ c.after.text ++ " next " ++ c.recheck.text ++ " redo " ++ c.bodyStart.text
      ++ " goto " ++ c.entry.text ++ " else " ++ t.onward.text

def Operation.operands : Operation CodeUnit → String
  | .const value => value.text
  | .load name | .declare name | .store name | .iterBind name => name
  | .binary op => op.text
  | .unary op => op.text
  | .makeArray count => toString count
  | .branch ip | .branchIfFalse ip | .branchIfTrue ip | .iterNext ip => s!"-> {ip}"
  | .jump target => "-> " ++ target.text
  | .call callee count landing => s!"{callee}/{count} land " ++ landing.text
  | .tailCall count reuse => if reuse then "reuse" else toString count
  | .signal marker => marker.text
  | .dispatch table => table.text
  | .makeSub unit => nameOrAnon unit.name
  | .dup | .dup2 | .pop | .popResult | .result | .indexGet | .indexSet | .enterScope | .exitScope
  | .iterInit | .iterPop | .ret => ""

structure ListingLine where
  index : Nat
  op : String
  operands : String
  span : Span
  deriving DecidableEq, Repr, Inhabited

def CodeUnit.listing (u : CodeUnit) : List ListingLine :=
  u.code.toList.zipIdx.map fun (i, n) => ⟨n, i.op.name, i.op.operands, i.span⟩

def padLeft (width : Nat) (s : String) : String :=
  String.ofList (List.replicate (width - s.length) ' ') ++ s

def padRight (width : Nat) (s : String) : String :=
  s ++ String.ofList (List.replicate (width - s.length) ' ')

def ListingLine.text (l : ListingLine) : String :=
  let head := padLeft 4 (toString l.index) ++ "  "
  if l.operands = "" then head ++ l.op ++ "\n"
  else head ++ padRight 15 l.op ++ " " ++ l.operands ++ "\n"

def CodeUnit.listingText (u : CodeUnit) : String :=
  nameOrAnon u.name ++ ":\n" ++ String.join (u.listing.map ListingLine.text)

end KestrelLang
