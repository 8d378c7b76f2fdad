import KestrelLang.Proofs.Grammar.Regular
import KestrelLang.Proofs.Label.Lexical

/-! # Units without a resolution

* `StrayVerb`, `StrayTailCall` — a verb without a label outside all loops, and a tail call outside all subs.
* `HasStray` — a tree has one of them.
* `Tells` — an answer is a failure exactly when something holds, and then none about a tree that no text has.
* `tells_resolve` — the resolution of a regular unit tells whether the unit has a stray statement. -/

namespace KestrelLang

open KestrelLang.Label

/-! ## Regular parts -/

theorem clausesRegular.stmts {clauses : List Clause} (h : clausesRegular clauses) :
    ∀ t ∈ clauses.flatMap Clause.stmts, t.Regular := by
  induction clauses with
  | nil => simp
  | cons c rest ih =>
    obtain ⟨test, body⟩ := c
    obtain ⟨-, hbody, hrest⟩ := h
    intro t ht
    rw [List.flatMap_cons, List.mem_append] at ht
    obtain ht | ht := ht
    · exact stmtsRegular_iff.mp hbody.stmts t ht
    · exact ih hrest t ht

theorem Stmt.Regular.parts {s : Stmt} (h : s.Regular) : ∀ t ∈ s.parts, t.Regular := by
  cases s with
  | missing | expr | verb | tailCall | ret | sub => simp [Stmt.parts]
  | block body | bare _ body => exact stmtsRegular_iff.mp (Block.Regular.stmts h)
  | whileLoop _ _ _ body | foreachLoop _ _ _ body => exact stmtsRegular_iff.mp h.2.stmts
  | forLoop label init test step body span =>
    obtain ⟨-, hinit, -, -, hbody⟩ := h
    exact List.forall_mem_cons.mpr ⟨hinit, stmtsRegular_iff.mp hbody.stmts⟩
  | ifChain test negate body clauses otherwise span =>
    obtain ⟨-, hbody, hclauses, hotherwise⟩ := h
    intro t ht
    simp only [Stmt.parts, List.mem_append] at ht
    obtain ht | ht | ht := ht
    · exact stmtsRegular_iff.mp hbody.stmts t ht
    · exact hclauses.stmts t ht
    · exact stmtsRegular_iff.mp hotherwise.stmts t ht

/-! ## Stray statements -/

def NoLoop (s? : Option Stmt) : Prop := ∀ h, s?.bind Stmt.heading? = some h → h.isLoop = false

/-- The statement is `last`, `next` or `redo` without a label. -/
def IsLoneVerb (s : Stmt) : Prop :=
  ∃ kind label span, s = .verb kind label span ∧ kind ∈ [Verb.last, Verb.next, Verb.redo] ∧ labelText label = ""

/-- At the place is a verb without a label, and there is no loop around it; `inLoop` speaks of the loops around the
    tree. -/
def StrayVerb (inLoop : Bool) (at? : Path → Option Stmt) (p : Path) : Prop :=
  inLoop = false ∧ (∃ s, at? p = some s ∧ IsLoneVerb s) ∧ ∀ q, Encloses q p → NoLoop (at? q)

/-- At the place is a tail call, and there is no sub around the tree. -/
def StrayTailCall (inSub : Bool) (at? : Path → Option Stmt) (p : Path) : Prop :=
  inSub = false ∧ ∃ callee args reuse span, at? p = some (.tailCall callee args reuse span)

def Stray (inSub inLoop : Bool) (at? : Path → Option Stmt) (p : Path) : Prop :=
  StrayVerb inLoop at? p ∨ StrayTailCall inSub at? p

def HasStray (inSub inLoop : Bool) (at? : Path → Option Stmt) : Prop := ∃ p, Stray inSub inLoop at? p

theorem forall_encloses_cons {P : Path → Prop} {i : Nat} {p : Path} :
    (∀ q, Encloses q (i :: p) → P q) ↔ P [] ∧ ∀ q, Encloses q p → P (i :: q) := by
  constructor
  · intro h
    exact ⟨h [] (nil_encloses_cons i p), fun q hq => h (i :: q) (encloses_cons.mpr ⟨rfl, hq⟩)⟩
  · rintro ⟨hnil, hcons⟩ q hq
    cases q with
    | nil => exact hnil
    | cons j q =>
      obtain ⟨rfl, hinner⟩ := encloses_cons.mp hq
      exact hcons q hinner

section Trees

variable {inSub inLoop : Bool} {s : Stmt} {rest : List Stmt}

theorem noLoop_none : NoLoop none := nofun

theorem not_stray_none {at? : Path → Option Stmt} {p : Path} (h : at? p = none) : ¬ Stray inSub inLoop at? p := by
  rintro (⟨-, ⟨s, hp, -⟩, -⟩ | ⟨-, callee, args, reuse, span, hp⟩)
  · simp [h] at hp
  · simp [h] at hp

theorem stray_first {p : Path} : Stray inSub inLoop (stmtAt? (s :: rest)) (0 :: p) ↔ Stray inSub inLoop s.at? p := by
  simp only [Stray, StrayVerb, StrayTailCall, forall_encloses_cons]
  have hnil : NoLoop (stmtAt? (s :: rest) []) := noLoop_none
  simp only [hnil, true_and]
  rfl

theorem stray_later {i : Nat} {p : Path} :
    Stray inSub inLoop (stmtAt? (s :: rest)) ((i + 1) :: p) ↔ Stray inSub inLoop (stmtAt? rest) (i :: p) := by
  simp only [Stray, StrayVerb, StrayTailCall, forall_encloses_cons]
  rfl

theorem hasStray_cons :
    HasStray inSub inLoop (stmtAt? (s :: rest)) ↔
      HasStray inSub inLoop s.at? ∨ HasStray inSub inLoop (stmtAt? rest) := by
  constructor
  · rintro ⟨_ | ⟨_ | i, p⟩, hp⟩
    · exact absurd hp (not_stray_none rfl)
    · exact .inl ⟨p, stray_first.mp hp⟩
    · exact .inr ⟨i :: p, stray_later.mp hp⟩
  · rintro (⟨p, hp⟩ | ⟨_ | ⟨i, p⟩, hp⟩)
    · exact ⟨0 :: p, stray_first.mpr hp⟩
    · exact absurd hp (not_stray_none rfl)
    · exact ⟨(i + 1) :: p, stray_later.mpr hp⟩

theorem not_hasStray_nil : ¬ HasStray inSub inLoop (stmtAt? []) := by
  rintro ⟨p, hp⟩
  exact not_stray_none (by cases p <;> rfl) hp

/-- What is stray inside a loop or bare block is stray among its parts; a loop leaves no verb stray. -/
theorem stray_inside {h : Option Heading} (hs : s.heading? = h) {i : Nat} {p : Path} :
    Stray inSub inLoop s.at? (i :: p) ↔
      Stray inSub ((h.any (·.isLoop)) || inLoop) (stmtAt? s.parts) (i :: p) := by
  have hself : NoLoop (s.at? []) ↔ h.any (·.isLoop) = false := by
    simp only [NoLoop, Stmt.at?, Option.bind_some, hs]
    cases h <;> simp
  have hparts : NoLoop (stmtAt? s.parts []) := noLoop_none
  simp only [Stray, StrayVerb, StrayTailCall, forall_encloses_cons, hself, hparts, true_and, Bool.or_eq_false_iff,
    Stmt.at?_cons]
  refine or_congr_left ?_
  constructor
  · rintro ⟨hloop, hverb, hself, hout⟩
    exact ⟨⟨hself, hloop⟩, hverb, hout⟩
  · rintro ⟨⟨hself, hloop⟩, hverb, hout⟩
    exact ⟨hloop, hverb, hself, hout⟩

theorem stray_self :
    Stray inSub inLoop s.at? [] ↔
      (inLoop = false ∧ IsLoneVerb s) ∨
        (inSub = false ∧ ∃ callee args reuse span, s = .tailCall callee args reuse span) := by
  have hnone : ∀ q, Encloses q [] → NoLoop (s.at? q) := fun q hq => absurd hq (not_encloses_nil q)
  simp only [Stray, StrayVerb, StrayTailCall, Stmt.at?, Option.some.injEq, exists_eq_left', iff_true_intro hnone,
    and_true]

theorem hasStray_parts {h : Option Heading} (hs : s.heading? = h) (hnot : ¬ Stray inSub inLoop s.at? []) :
    HasStray inSub inLoop s.at? ↔ HasStray inSub ((h.any (·.isLoop)) || inLoop) (stmtAt? s.parts) := by
  constructor
  · rintro ⟨_ | ⟨i, p⟩, hp⟩
    · exact absurd hp hnot
    · exact ⟨i :: p, (stray_inside hs).mp hp⟩
  · rintro ⟨_ | ⟨i, p⟩, hp⟩
    · exact absurd hp (not_stray_none rfl)
    · exact ⟨i :: p, (stray_inside hs).mpr hp⟩

theorem hasStray_leaf (hs : s.parts = []) : HasStray inSub inLoop s.at? ↔ Stray inSub inLoop s.at? [] := by
  constructor
  · rintro ⟨_ | ⟨i, p⟩, hp⟩
    · exact hp
    · refine absurd hp (not_stray_none ?_)
      rw [Stmt.at?_cons, hs]
      rfl
  · intro h
    exact ⟨[], h⟩

end Trees

namespace Label

/-! ## Walks -/

/-- The answer is a failure exactly if `stray` holds, and its failure is not about a tree that no text has. -/
def Tells {α : Type} (stray : Prop) : Except CompileError α → Prop
  | .ok _ => ¬ stray
  | .error e => stray ∧ e.kind ≠ .unsupported

theorem Tells.bind {α β : Type} {first second : Prop} {x : Except CompileError α} {f : α → Except CompileError β}
    (hx : Tells first x) (hf : ∀ a, Tells second (f a)) : Tells (first ∨ second) (x >>= f) := by
  cases x with
  | error e => exact ⟨.inl hx.1, hx.2⟩
  | ok a =>
    show Tells (first ∨ second) (f a)
    have hfa := hf a
    cases hstep : f a with
    | error e =>
      rw [hstep] at hfa
      exact ⟨.inr hfa.1, hfa.2⟩
    | ok b =>
      rw [hstep] at hfa
      exact not_or.mpr ⟨hx, hfa⟩

theorem Tells.map {α β : Type} {stray : Prop} {x : Except CompileError α} (hx : Tells stray x) (f : α → β) :
    Tells stray (x >>= fun a => pure (f a)) := by
  cases x with
  | error e => exact hx
  | ok a => exact hx

variable {info : UnitInfo}

theorem tells_classify {kind : Verb} {label : String} (hverb : kind.takes label = true) (enclosing : List Scope)
    (span : Span) :
    Tells (enclosing.any (·.isLoop) = false ∧ label = "") (classify info enclosing kind label span) := by
  have hmarker : ∃ marker, MarkerKind.ofVerb? kind = some marker := by
    cases kind with
    | other spelling => cases hverb
    | last | next | redo | goto => exact ⟨_, rfl⟩
  obtain ⟨marker, hmarker⟩ := hmarker
  unfold classify
  rw [hmarker]
  -- Only a verb without a label can fail, and it aims at the innermost loop.
  by_cases hlabel : label = ""
  · subst hlabel
    cases hloop : enclosing.find? Scope.isLoop with
    | none =>
      have hnone : enclosing.any (·.isLoop) = false := by
        simpa using List.find?_eq_none.mp hloop
      simp [boundary?, hloop, Tells, hnone, CompileError.kind, CompileCause.kind]
    | some scope =>
      have hmem := List.mem_of_find?_eq_some hloop
      have hfound : scope.isLoop = true := by simpa using List.find?_some hloop
      simp [boundary?, hloop, Tells]
      exact ⟨scope, hmem, hfound⟩
  · cases hscope : boundary? Scope.label Scope.isLoop label enclosing with
    | none => simp [hlabel, Tells]
    | some scope => simp [hlabel, Tells]

theorem isLoneVerb_iff {kind : Verb} {label : Option Name} {span : Span}
    (hverb : kind.takes (labelText label) = true) : IsLoneVerb (.verb kind label span) ↔ labelText label = "" := by
  constructor
  · rintro ⟨_, _, _, heq, -, hlabel⟩
    cases heq
    exact hlabel
  · intro hlabel
    rw [hlabel] at hverb
    refine ⟨kind, label, span, rfl, ?_, hlabel⟩
    cases kind <;> first | cases hverb; done | simp

/-- The walk through a statement tells whether it has a stray statement. -/
def Telling (s : Stmt) : Prop :=
  s.Regular → ∀ (info : UnitInfo) (enclosing : List Scope) (n : Nat),
    Tells (HasStray info.inSub (enclosing.any (·.isLoop)) s.at?) (walkStmt info enclosing n s)

theorem tells_of_parts {stmts : List Stmt} (hparts : ∀ s ∈ stmts, Telling s) (hregular : ∀ s ∈ stmts, s.Regular)
    (enclosing : List Scope) (n : Nat) :
    Tells (HasStray info.inSub (enclosing.any (·.isLoop)) (stmtAt? stmts)) (walkStmts info enclosing n stmts) := by
  induction stmts generalizing n with
  | nil =>
    rw [walkStmts]
    exact not_hasStray_nil
  | cons s rest ih =>
    obtain ⟨hs, hrest⟩ := List.forall_mem_cons.mp hparts
    obtain ⟨hreg, hregs⟩ := List.forall_mem_cons.mp hregular
    rw [walkStmts, hasStray_cons]
    refine (hs hreg info enclosing n).bind ?_
    rintro ⟨first, n₁⟩
    exact (ih hrest hregs n₁).map _

theorem telling (s : Stmt) : Telling s := by
  refine Stmt.parts_induction (fun s hparts => ?_) s
  intro hregular info enclosing n
  have hinside : ∀ (enclosing : List Scope) (n : Nat),
      Tells (HasStray info.inSub (enclosing.any (·.isLoop)) (stmtAt? s.parts)) (walkStmts info enclosing n s.parts) :=
    fun enclosing n => tells_of_parts hparts hregular.parts enclosing n
  obtain hplain | ⟨h, hh⟩ | ⟨kind, label, span, rfl⟩ | ⟨callee, args, reuse, span, rfl⟩ := isPlain_cases s
  -- Only verbs and tail calls are stray themselves; a scope passes its parts on with itself around them.
  · have hnone : s.heading? = none := by cases s <;> first | rfl | cases hplain
    have hself : ¬ Stray info.inSub (enclosing.any (·.isLoop)) s.at? [] := by
      rw [stray_self]
      cases s <;> first | cases hplain; done | simp [IsLoneVerb]
    rw [walkStmt_of_plain _ _ _ hplain, hasStray_parts hnone hself]
    exact hinside enclosing n
  · have hself : ¬ Stray info.inSub (enclosing.any (·.isLoop)) s.at? [] := by
      rw [stray_self]
      cases s <;> first | cases hh; done | simp [IsLoneVerb]
    rw [walkStmt_of_heading _ _ _ hh, hasStray_parts hh hself]
    exact (hinside (scopeOf enclosing n h :: enclosing) (n + 1)).map _
  · rw [walkStmt, hasStray_leaf rfl, stray_self, isLoneVerb_iff hregular]
    simpa using (tells_classify hregular enclosing span).map fun use => ([Item.verb use], n)
  · rw [walkStmt, hasStray_leaf rfl, stray_self]
    cases hsub : info.inSub <;> simp [Tells, IsLoneVerb, CompileError.kind, CompileCause.kind]

/-- The resolution of a regular unit tells whether the unit has a stray statement. -/
theorem tells_resolve {body : List Stmt} (h : stmtsRegular body) :
    Tells (HasStray info.inSub false (stmtAt? body)) (resolve info body) :=
  (tells_of_parts (fun s _ => telling s) (stmtsRegular_iff.mp h) [] 0).map _

end Label

end KestrelLang
