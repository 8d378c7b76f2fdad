import KestrelLang.Proofs.Code.Acceptance
import KestrelLang.Proofs.Code.Reached

/-! # Which errors name their text

* `Owned` — the failure of a walk names the text, and a lowering could not have found it.
* `owned_resolve` — all failures of a resolution are of this sort.
* `Names` — a lowering fails with the name of the text, or without one where only a lowering finds the fault.
* `compositional_names` — all lowerings do.
* `compile_error_origin` — an error of a compilation names the text, unless it is about a tree that no text has and
  that gets past the resolution. -/

namespace KestrelLang

open KestrelLang.Label KestrelLang.Code

namespace Label

/-! ## Resolutions -/

/-- A failure names the text, and its cause is not one that is left to the lowering. -/
def Owned (origin : String) {α : Type} (x : Except CompileError α) : Prop :=
  ∀ e, x = .error e → e.origin = origin ∧ isLate e.cause = false

namespace Owned

variable {origin : String} {α β : Type} {x : Except CompileError α}

theorem ok (a : α) : Owned origin (.ok a) := by
  intro e h
  cases h

theorem bind {f : α → Except CompileError β} (hx : Owned origin x) (hf : ∀ a, Owned origin (f a)) :
    Owned origin (x >>= f) := by
  intro e h
  cases x with
  | error e' =>
    cases h
    exact hx e rfl
  | ok a => exact hf a e h

theorem map (hx : Owned origin x) (f : α → β) : Owned origin (x >>= fun a => pure (f a)) :=
  hx.bind fun a => ok (f a)

end Owned

variable {info : UnitInfo} {enclosing : List Scope}

theorem owned_classify (verb : Verb) (label : String) (span : Span) :
    Owned info.origin (classify info enclosing verb label span) := by
  intro e h
  unfold classify at h
  split at h
  · cases h
    exact ⟨rfl, rfl⟩
  · split at h
    · cases h
    · split at h
      · cases h
        exact ⟨rfl, rfl⟩
      · cases h

theorem owned_of_parts {stmts : List Stmt}
    (hparts : ∀ s ∈ stmts, ∀ (enclosing : List Scope) (n : Nat), Owned info.origin (walkStmt info enclosing n s))
    (n : Nat) : Owned info.origin (walkStmts info enclosing n stmts) := by
  induction stmts generalizing n with
  | nil =>
    rw [walkStmts]
    exact .ok _
  | cons s rest ih =>
    obtain ⟨hs, hrest⟩ := List.forall_mem_cons.mp hparts
    rw [walkStmts]
    exact (hs enclosing n).bind fun first => (ih hrest first.2).map _

theorem owned_walkStmt (s : Stmt) (enclosing : List Scope) (n : Nat) :
    Owned info.origin (walkStmt info enclosing n s) := by
  induction s using Stmt.parts_induction generalizing enclosing n with
  | h s hparts =>
    obtain hplain | ⟨h, hh⟩ | ⟨kind, label, span, rfl⟩ | ⟨callee, args, reuse, span, rfl⟩ := isPlain_cases s
    · rw [walkStmt_of_plain _ _ _ hplain]
      exact owned_of_parts hparts n
    · rw [walkStmt_of_heading _ _ _ hh]
      exact (owned_of_parts hparts (n + 1)).map _
    · rw [walkStmt]
      exact (owned_classify kind (labelText label) span).map _
    · rw [walkStmt]
      split
      · exact .ok _
      · intro e h
        cases h
        exact ⟨rfl, rfl⟩

theorem owned_resolve (info : UnitInfo) (body : List Stmt) : Owned info.origin (resolve info body) :=
  (owned_of_parts (fun s _ => owned_walkStmt s) 0).map _

end Label

namespace Code

/-! ## Lowerings -/

/-- A failure names the text, except where only a lowering finds the fault. -/
def Names (origin : String) (_ : List Definition) {α : Type} (x : Lower α) : Prop :=
  ∀ b e, x b = .error e → e.origin = if isLate e.cause then "" else origin

theorem compositional_names (origin : String) : Compositional origin (Names origin) where
  pure a := by
    intro b e h
    cases h
  bind hx hf := by
    intro b e h
    obtain h | ⟨a, b', hok, h⟩ := Lower.bind_eq_error.mp h
    · exact hx b e h
    · exact hf hok b' e h
  perm hx _ := hx
  unsupported ds _ span hlate := by
    intro b e h
    cases h
    rw [if_pos hlate]
  openUnit body hc := by
    subst hc
    intro b e h
    obtain ⟨horigin, hearly⟩ := owned_resolve _ body e (openUnit_eq_error h)
    rw [hearly, horigin]
    rfl
  closure hc hbody := by
    subst hc
    intro b e h
    exact hbody b e (closure_eq_error h)
  sub hc hbody := by
    subst hc
    intro b e h
    obtain rfl | ⟨b₁, h⟩ := sub_eq_error h
    · rfl
    · exact hbody b₁ e h

theorem isLate_eq_false {cause : CompileCause} (h : cause.kind ≠ .unsupported) : isLate cause = false := by
  cases cause <;> first | rfl | exact absurd rfl h

end Code

/-- **Errors of compilations and the text.** At whatever depth of subs and closures the fault lies, the error names
    the text, with three exceptions: a declaration of something that is no name, an assignment to something that is
    neither a name nor an element, and a statement in a place for expressions. The resolution does not look at those,
    and the lowering, which does, leaves the name out. The tree of a text has none of them. -/
theorem compile_error_origin {origin : String} {m : Module} {e : CompileError} (h : compile origin m = .error e) :
    e.origin = (if isLate e.cause then "" else origin) ∧
      ∀ (name : String) (text : List Char), Parser.parseModule name text = .ok m → e.origin = origin := by
  have hlower : lowerMain origin m ⟨[], [], [], []⟩ = .error e := by
    unfold compile at h
    split at h
    · cases h
      assumption
    · cases h
  have horigin := (compositional_names origin).lowerMain m _ e hlower
  refine ⟨horigin, fun name text htext => ?_⟩
  have hkind : e.kind ≠ .unsupported :=
    (makes_lowerMain origin (Parser.regular_of_parseModule htext)).supported hlower
  rw [horigin, isLate_eq_false hkind]
  rfl

/-- A closure with a verb in it that stands outside all loops. -/
def strayInClosure : Module :=
  ⟨[.expr (.closure [] (.mk [.verb .next none ⟨⟨1, 7⟩, ⟨1, 11⟩⟩] ⟨⟨1, 5⟩, ⟨1, 14⟩⟩) ⟨⟨1, 1⟩, ⟨1, 14⟩⟩)],
    ⟨⟨1, 1⟩, ⟨1, 15⟩⟩⟩

theorem stray_in_closure_names_text :
    ∃ e, compile "t.kst" strayInClosure = .error e ∧ e.message = "t.kst:1:7: next statement used outside of a loop" ∧
      e.origin = (if isLate e.cause then "" else "t.kst") := by
  have h : compile "t.kst" strayInClosure = .error ⟨.outsideLoop .next, ⟨⟨1, 7⟩, ⟨1, 11⟩⟩, "t.kst"⟩ := rfl
  exact ⟨_, h, by decide +kernel, (compile_error_origin h).1⟩

def assignedNumber : Module :=
  ⟨[.expr (.assign .assign (.int 1 ⟨⟨1, 1⟩, ⟨1, 2⟩⟩) (.int 2 ⟨⟨1, 5⟩, ⟨1, 6⟩⟩) ⟨⟨1, 1⟩, ⟨1, 6⟩⟩)],
    ⟨⟨1, 1⟩, ⟨1, 6⟩⟩⟩

theorem assigned_number_names_no_text :
    ∃ e, compile "t.kst" assignedNumber = .error e ∧
      e.message = "line 1:1: invalid assignment target *ast.IntegerLiteral" ∧ e.origin ≠ "t.kst" :=
  ⟨_, rfl, by decide +kernel, by decide⟩

end KestrelLang
