import KestrelLang.Proofs.Code.Closed
import KestrelLang.Proofs.Code.FlowStatements

/-! # Units and their bodies

* `CodeOf` — a unit is what becomes of a list of statements.
* `Lowered` — a unit is what becomes of some list of statements.
* `Keeps` — a lowering adds only units of some given bodies.
* `codeOf_of_compile` — all units of a program are what becomes of bodies in the module.
* `Consistent` — shapes for the addresses of a code such that every instruction fits.
* `CodeOf.consistent` — the sites of a body give consistent shapes. -/

namespace KestrelLang.Code

open KestrelLang.Label

structure CodeOf (body : List Stmt) (u : CodeUnit) : Prop where
  resolved : resolve ⟨u.isSub, u.origin⟩ body = .ok u.resolution
  lowered : ∃ code b b', lowerStmts (.ofUnit u.isSub u.origin) .start body b = .ok (code, b') ∧
    u.code = (code ++ unitEnd u.isSub).toArray

def Lowered (u : CodeUnit) : Prop := ∃ body, CodeOf body u

/-- The code of a sub is that of its body; a sub without a body has an empty one. -/
theorem codeOf_lowerBody {isSub : Bool} {origin name : String} {params : List Name} {span : Span}
    {body : Block} {u : CodeUnit} {b b' : Build}
    (h : lowerBody (.ofUnit isSub origin) name params span body b = .ok (u, b')) : CodeOf body.stmts u := by
  cases body with
  | missing =>
    simp only [lowerBody, Lower.bind_eq_ok, Lower.pure_eq_ok, openUnit_eq_ok] at h
    obtain ⟨r, b₁, ⟨hr, rfl⟩, rfl, rfl⟩ := h
    exact ⟨hr, [], b, b, by rw [Block.stmts, lowerStmts]; rfl, rfl⟩
  | mk stmts _ =>
    simp only [lowerBody, Lower.bind_eq_ok, Lower.pure_eq_ok, openUnit_eq_ok] at h
    obtain ⟨r, b₁, ⟨hr, rfl⟩, code, b₂, hcode, rfl, rfl⟩ := h
    exact ⟨hr, code, _, _, hcode, rfl⟩

/-! ## The units of a program -/

def CodeOfSome (bodies : List (List Stmt)) (u : CodeUnit) : Prop := ∃ body ∈ bodies, CodeOf body u

def Build.AllFrom (bodies : List (List Stmt)) (b : Build) : Prop := ∀ u ∈ b.subs ++ b.closures, CodeOfSome bodies u

/-- If all units made so far are what becomes of some of the bodies, then so are those made by `x`. -/
def Keeps (bodies : List (List Stmt)) {α : Type} (x : Lower α) : Prop :=
  ∀ b a b', x b = .ok (a, b') → b.AllFrom bodies → b'.AllFrom bodies

theorem mem_insertUnit {u v : CodeUnit} {us : List CodeUnit} :
    v ∈ insertUnit u us ↔ v = u ∨ v ∈ us := by
  induction us with
  | nil => simp [insertUnit]
  | cons w ws ih =>
    unfold insertUnit
    split
    · simp
    · simp only [List.mem_cons, ih]
      exact or_left_comm

theorem Build.AllFrom.insertSub {bodies : List (List Stmt)} {b : Build} {u : CodeUnit} (hb : b.AllFrom bodies)
    (hu : CodeOfSome bodies u) : { b with subs := insertUnit u b.subs }.AllFrom bodies := by
  intro v hv
  simp only [List.mem_append, mem_insertUnit] at hv
  obtain (rfl | hv) | hv := hv
  · exact hu
  · exact hb v (List.mem_append_left _ hv)
  · exact hb v (List.mem_append_right _ hv)

theorem Build.AllFrom.addClosure {bodies : List (List Stmt)} {b : Build} {u : CodeUnit} (hb : b.AllFrom bodies)
    (hu : CodeOfSome bodies u) : { b with closures := b.closures ++ [u] }.AllFrom bodies := by
  intro v hv
  simp only [List.mem_append, List.mem_singleton] at hv
  obtain hv | hv | rfl := hv
  · exact hb v (List.mem_append_left _ hv)
  · exact hb v (List.mem_append_right _ hv)
  · exact hu

theorem closed_keeps (bodies : List (List Stmt)) : Closed bodies (Keeps bodies) where
  pure a := by
    intro b a' b' h hb
    obtain ⟨-, rfl⟩ := Lower.pure_eq_ok.mp h
    exact hb
  bind hx hf := by
    intro b a b' h hb
    obtain ⟨y, b₁, h₁, h₂⟩ := Lower.bind_eq_ok.mp h
    exact hf y b₁ a b' h₂ (hx b y b₁ h₁ hb)
  unsupported cause span := by
    intro b a b' h
    exact absurd h (by simp)
  openUnit c body := by
    intro b r b' h hb
    obtain ⟨-, rfl⟩ := openUnit_eq_ok.mp h
    exact hb
  -- The one unit that is new here came out of `lowerBody`.
  closure hin hbody := by
    intro b code b' h hb
    simp only [lowerExpr, Lower.bind_eq_ok, Lower.modify_eq_ok, Lower.pure_eq_ok] at h
    obtain ⟨u, b₁, h₁, _, b₂, rfl, -, rfl⟩ := h
    exact (hbody _ _ _ h₁ hb).addClosure ⟨_, hin, codeOf_lowerBody h₁⟩
  sub hin hbody := by
    intro b code b' h hb
    simp only [lowerStmt, Lower.bind_eq_ok, Lower.modify_eq_ok, Lower.pure_eq_ok] at h
    obtain ⟨_, b₁, h₁, u, b₂, h₂, _, b₃, rfl, -, rfl⟩ := h
    obtain ⟨-, rfl⟩ := reserve_eq_ok h₁
    exact (hbody _ _ _ h₂ hb).insertSub ⟨_, hin, codeOf_lowerBody h₂⟩

theorem lowerMain_of_compile {origin : String} {m : Module} {p : Program} (h : compile origin m = .ok p) :
    ∃ main b, lowerMain origin m ⟨[], [], [], []⟩ = .ok (main, b) ∧
      p = ⟨main, b.subs, b.closures, b.warnings, origin⟩ := by
  unfold compile at h
  split at h
  · cases h
  · cases h
    exact ⟨_, _, ‹_›, rfl⟩

/-- A program was made: its main chunk was lowered, and its other units were made on the way. -/
theorem compile_eq_ok {origin : String} {m : Module} {p : Program} (h : compile origin m = .ok p) :
    ∃ b r code b', resolve ⟨false, origin⟩ m.body = .ok r ∧ b.subs = [] ∧ b.closures = [] ∧
      lowerStmts (.ofUnit false origin) .start m.body b = .ok (code, b') ∧
      p.main = closeUnit (.ofUnit false origin) r "main" [] m.span code ∧ p.subs = b'.subs ∧
      p.closures = b'.closures := by
  obtain ⟨main, b, hmain, rfl⟩ := lowerMain_of_compile h
  simp only [lowerMain, Lower.bind_eq_ok, Lower.pure_eq_ok, openUnit_eq_ok] at hmain
  obtain ⟨r, b₁, ⟨hr, rfl⟩, code, b₂, hcode, rfl, rfl⟩ := hmain
  exact ⟨_, r, code, _, hr, rfl, rfl, hcode, rfl, rfl, rfl⟩

/-- The main chunk of a program is what becomes of the module's body, and no sub. -/
theorem codeOf_main {origin : String} {m : Module} {p : Program} (h : compile origin m = .ok p) :
    CodeOf m.body p.main ∧ p.main.isSub = false := by
  obtain ⟨b, r, code, b', hr, -, -, hcode, hmain, -, -⟩ := compile_eq_ok h
  rw [hmain]
  exact ⟨⟨hr, code, b, b', hcode, rfl⟩, rfl⟩

/-- Every unit of a program is what becomes of one of the bodies in the module. -/
theorem codeOf_of_compile {origin : String} {m : Module} {p : Program} (h : compile origin m = .ok p)
    {u : CodeUnit} (hu : u ∈ p.units) : CodeOfSome m.bodies u := by
  simp only [Program.units, List.cons_append, List.mem_cons] at hu
  obtain rfl | hu := hu
  · exact ⟨m.body, List.mem_cons_self, (codeOf_main h).1⟩
  · obtain ⟨b, r, code, b', -, hsubs, hclosures, hcode, -, hsubs', hclosures'⟩ := compile_eq_ok h
    have hnone : b.AllFrom m.bodies := by simp [Build.AllFrom, hsubs, hclosures]
    rw [hsubs', hclosures'] at hu
    exact (closed_keeps m.bodies).lowerStmts m.body (List.subset_cons_self _ _) _ _ _ hcode hnone u hu

theorem lowered_of_compile {origin : String} {m : Module} {p : Program}
    (h : compile origin m = .ok p) {u : CodeUnit} (hu : u ∈ p.units) : Lowered u := by
  obtain ⟨body, -, hbody⟩ := codeOf_of_compile h hu
  exact ⟨body, hbody⟩

/-! ## Consistent shapes -/

/-- Shapes for the addresses of `code`: a frame starts with nothing open, and every instruction
    fits. -/
structure Consistent (code : Array Instruction) (shapes : Nat → Option Shape) : Prop where
  start : shapes 0 = some ⟨0, 0, 0⟩
  within : ∀ {ip s}, shapes ip = some s → ∃ i, code[ip]? = some i
  fits : ∀ {ip s i}, shapes ip = some s → code[ip]? = some i → OperationFits shapes ip s i.op

def shapesOf (sites : Nat → Option Site) (ip : Nat) : Option Shape := (sites ip).map Site.toShape

theorem shapesOf_eq {sites : Nat → Option Site} {ip : Nat} {s : Site} (h : sites ip = some s) :
    shapesOf sites ip = some s.toShape := by
  rw [shapesOf, h]
  rfl

def unitShapes (isSub : Bool) (origin : String) (body : List Stmt) : Nat → Option Shape :=
  shapesOf ((unitSites isSub origin body)[·]?)

theorem length_unitSites (isSub : Bool) (origin : String) (body : List Stmt) :
    (unitSites isSub origin body).length = stmtsSize body + 2 := by
  simp [unitSites]

theorem shaped_unitSites (isSub : Bool) (origin : String) (body : List Stmt) :
    Shaped (unitShapes isSub origin body) 0 (unitSites isSub origin body) := by
  intro ip s h
  rw [Nat.zero_add]
  exact shapesOf_eq h

theorem contextFits_ofUnit {shapes : Nat → Option Shape} {s : Shape} (isSub : Bool) (origin : String) :
    ContextFits shapes s (.ofUnit isSub origin) :=
  ⟨trivial, by simp [Context.ofUnit]⟩

namespace CodeOf

variable {body : List Stmt} {u : CodeUnit}

theorem size_code (h : CodeOf body u) : u.code.size = stmtsSize body + 2 := by
  obtain ⟨code, b, b', hcode, hu⟩ := h.lowered
  simp [hu, unitEnd, length_lowerStmts body hcode]

theorem site_iff (h : CodeOf body u) {ip : Nat} :
    (∃ i, u.code[ip]? = some i) ↔ ∃ s, (unitSites u.isSub u.origin body)[ip]? = some s := by
  simp only [Array.getElem?_eq_some_iff, List.getElem?_eq_some_iff, h.size_code, length_unitSites]
  constructor
  · rintro ⟨i, hip, -⟩
    exact ⟨_, hip, rfl⟩
  · rintro ⟨s, hip, -⟩
    exact ⟨_, hip, rfl⟩

/-- The sites of a body give consistent shapes to the code of its unit. -/
theorem consistent (h : CodeOf body u) :
    Consistent u.code (unitShapes u.isSub u.origin body) := by
  obtain ⟨code, b, b', hcode, hu⟩ := h.lowered
  have hsites := shaped_unitSites u.isSub u.origin body
  simp only [unitSites, along_append, along_cons, along_nil, length_stmtsSites, Nat.zero_add,
    and_true] at hsites
  obtain ⟨hbody, hlast, hret⟩ := hsites
  have hend : unitShapes u.isSub u.origin body (Spot.start.ip + stmtsSize body) =
      some Spot.start.shape := by
    rw [Spot.start, Nat.zero_add]
    exact hlast
  have hflow : Flows (unitShapes u.isSub u.origin body) 0 (code ++ unitEnd u.isSub) := by
    simp only [unitEnd, along_append, along_cons, along_nil, length_lowerStmts _ hcode, Nat.zero_add,
      and_true]
    refine ⟨flows_lowerStmts body hcode hbody hend (contextFits_ofUnit ..), ⟨_, hlast, ?_⟩, _, hret,
      Nat.le_refl _⟩
    split <;> exact hret
  constructor
  · exact entry_stmts (p := .start) hbody hend
  · intro ip s hs
    obtain ⟨site, hsite, -⟩ := Option.map_eq_some_iff.mp hs
    exact h.site_iff.mpr ⟨site, hsite⟩
  · intro ip s i hs hi
    rw [hu, List.getElem?_toArray] at hi
    obtain ⟨s', hs', hfits⟩ := hflow ip i hi
    rw [Nat.zero_add] at hs' hfits
    obtain rfl : s = s' := Option.some.inj (hs.symm.trans hs')
    exact hfits

end CodeOf

end KestrelLang.Code
