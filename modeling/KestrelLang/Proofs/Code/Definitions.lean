import Mathlib.Data.List.Perm.Basic
import KestrelLang.Proofs.Code.Indifference
import KestrelLang.Proofs.Code.Units
import KestrelLang.Proofs.Label.Strays

/-! # Definitions and their units

* `Definition` — a named sub or a closure, as the text has it.
* `Module.definitions` — all of them, however deep they are nested.
* `UnitOf`, `Units` — the unit of a definition, and one unit for each of several definitions.
* `Adds` — the units of some definitions were added.
* `Makes` — what a lowering needs and what it adds.
* `makes_lowerExpr`, `makes_lowerStmt`, … — the lowering of a regular tree makes the units of its definitions. -/

namespace KestrelLang

open KestrelLang.Label

/-! ## Definitions -/

structure Definition where
  name? : Option String
  params : List Name
  body : List Stmt
  span : Span

mutual

def Expr.definitions : Expr → List Definition
  | .missing | .undefined _ | .int .. | .float .. | .str .. | .ident .. => []
  | .array elements _ => exprsDefinitions elements
  | .index object index _ => object.definitions ++ index.definitions
  | .unary _ operand _ => operand.definitions
  | .binary _ left right _ | .assign _ left right _ => left.definitions ++ right.definitions
  | .call callee args _ => callee.definitions ++ exprsDefinitions args
  | .closure params body span => ⟨none, params, body.stmts, span⟩ :: body.definitions

def exprsDefinitions : List Expr → List Definition
  | [] => []
  | e :: es => e.definitions ++ exprsDefinitions es

def Stmt.definitions : Stmt → List Definition
  | .missing | .verb .. => []
  | .expr e | .ret e _ => e.definitions
  | .block body | .bare _ body _ => body.definitions
  | .whileLoop _ e _ body _ | .foreachLoop _ _ e body _ => e.definitions ++ body.definitions
  | .forLoop _ init test step body _ =>
    init.definitions ++ (test.definitions ++ (step.definitions ++ body.definitions))
  | .ifChain test _ body clauses otherwise _ =>
    test.definitions ++ (body.definitions ++ (clausesDefinitions clauses ++ otherwise.definitions))
  | .tailCall callee args _ _ => callee.definitions ++ exprsDefinitions args
  | .sub name params body span => ⟨some name.text, params, body.stmts, span⟩ :: body.definitions

def Block.definitions : Block → List Definition
  | .missing => []
  | .mk body _ => stmtsDefinitions body

def stmtsDefinitions : List Stmt → List Definition
  | [] => []
  | s :: rest => s.definitions ++ stmtsDefinitions rest

def clausesDefinitions : List Clause → List Definition
  | [] => []
  | .mk test body :: rest => test.definitions ++ (body.definitions ++ clausesDefinitions rest)

end

def Module.definitions (m : Module) : List Definition := stmtsDefinitions m.body

def namedSubs (ds : List Definition) : List Definition := ds.filter (·.name?.isSome)

def closuresOf (ds : List Definition) : List Definition := ds.filter (·.name?.isNone)

def subNames (ds : List Definition) : List String := ds.filterMap (·.name?)

def NoneStray (ds : List Definition) : Prop := ∀ d ∈ ds, ¬ HasStray true false (stmtAt? d.body)

@[simp] theorem noneStray_nil : NoneStray [] := by simp [NoneStray]

@[simp] theorem noneStray_cons {d : Definition} {ds : List Definition} :
    NoneStray (d :: ds) ↔ ¬ HasStray true false (stmtAt? d.body) ∧ NoneStray ds := List.forall_mem_cons

@[simp] theorem noneStray_append {ds ds' : List Definition} :
    NoneStray (ds ++ ds') ↔ NoneStray ds ∧ NoneStray ds' := List.forall_mem_append

namespace Code

/-! ## Units -/

/-- The unit is that of the definition, in a text of the given name. -/
structure UnitOf (origin : String) (d : Definition) (u : CodeUnit) : Prop where
  name : u.name = d.name?.getD ""
  params : u.params = d.params.map (·.text)
  isSub : u.isSub = true
  span : u.span = d.span
  origin : u.origin = origin
  code : CodeOf d.body u

/-- There is one unit for each definition, in some order. -/
def Units (origin : String) (ds : List Definition) (us : List CodeUnit) : Prop :=
  ∃ ds', ds.Perm ds' ∧ List.Forall₂ (UnitOf origin) ds' us

namespace Units

variable {origin : String} {ds ds' : List Definition} {us us' : List CodeUnit}

theorem reorder (h : Units origin ds us) (hds : ds'.Perm ds) : Units origin ds' us := by
  obtain ⟨order, horder, hunits⟩ := h
  exact ⟨order, hds.trans horder, hunits⟩

theorem perm (h : Units origin ds us) (hus : us.Perm us') : Units origin ds us' := by
  obtain ⟨order, horder, hunits⟩ := h
  have hcomp : Relation.Comp (List.Forall₂ (UnitOf origin)) List.Perm order us' := ⟨us, hunits, hus⟩
  rw [List.forall₂_comp_perm_eq_perm_comp_forall₂] at hcomp
  obtain ⟨order', hperm, hunits'⟩ := hcomp
  exact ⟨order', horder.trans hperm, hunits'⟩

theorem cons {d : Definition} {u : CodeUnit} (hu : UnitOf origin d u) (h : Units origin ds us) :
    Units origin (d :: ds) (u :: us) := by
  obtain ⟨order, horder, hunits⟩ := h
  exact ⟨d :: order, horder.cons d, .cons hu hunits⟩

end Units

theorem perm_insertUnit (u : CodeUnit) (us : List CodeUnit) : (u :: us).Perm (insertUnit u us) := by
  induction us with
  | nil => exact .refl _
  | cons v vs ih =>
    unfold insertUnit
    split
    · exact .refl _
    · exact (List.Perm.swap v u vs).trans (ih.cons v)

theorem perm_append_left_comm {α : Type} (l l' rest : List α) : (l ++ l' ++ rest).Perm (l' ++ (l ++ rest)) := by
  rw [← List.append_assoc]
  exact List.perm_append_comm.append_right _

/-! ## What a lowering makes -/

/-- From `b` to `b'` the units of the definitions were added, and the names of the subs among them. -/
structure Adds (origin : String) (ds : List Definition) (b b' : Build) : Prop where
  names : b'.names.Perm (subNames ds ++ b.names)
  subs : ∀ before, Units origin before b.subs → Units origin (namedSubs ds ++ before) b'.subs
  closures : ∀ before, Units origin before b.closures → Units origin (closuresOf ds ++ before) b'.closures

namespace Adds

variable {origin : String} {ds ds' : List Definition} {b b₁ b' : Build}

theorem nothing (hnames : b'.names = b.names) (hsubs : b'.subs = b.subs) (hclosures : b'.closures = b.closures) :
    Adds origin [] b b' := by
  refine ⟨?_, fun before hb => ?_, fun before hb => ?_⟩
  · rw [hnames]
    exact .refl _
  · rw [hsubs]
    exact hb
  · rw [hclosures]
    exact hb

theorem reorder (h : Adds origin ds b b') (hds : ds'.Perm ds) : Adds origin ds' b b' where
  names := h.names.trans ((hds.symm.filterMap _).append_right _)
  subs before hb := (h.subs before hb).reorder ((hds.filter _).append_right _)
  closures before hb := (h.closures before hb).reorder ((hds.filter _).append_right _)

theorem append (h : Adds origin ds b b₁) (h' : Adds origin ds' b₁ b') : Adds origin (ds ++ ds') b b' where
  names := by
    rw [subNames, List.filterMap_append]
    exact (h'.names.trans (h.names.append_left _)).trans (perm_append_left_comm _ _ _).symm
  subs before hb := by
    rw [namedSubs, List.filter_append]
    exact (h'.subs _ (h.subs before hb)).reorder (perm_append_left_comm _ _ _)
  closures before hb := by
    rw [closuresOf, List.filter_append]
    exact (h'.closures _ (h.closures before hb)).reorder (perm_append_left_comm _ _ _)

end Adds

/-- The lowering succeeds if `fit` holds and the names of the subs are new and differ; it adds the units of the
    definitions; and it fails for no other reason than those. -/
structure Makes (origin : String) (fit : Prop) (ds : List Definition) {α : Type} (x : Lower α) : Prop where
  succeeds_iff : ∀ {b}, b.names.Nodup → ((∃ a b', x b = .ok (a, b')) ↔ fit ∧ (subNames ds ++ b.names).Nodup)
  adds : ∀ {b a b'}, x b = .ok (a, b') → Adds origin ds b b'
  supported : ∀ {b e}, x b = .error e → e.kind ≠ .unsupported

theorem Lower.bind_eq_error {α β : Type} {x : Lower α} {f : α → Lower β} {b : Build} {e : CompileError} :
    (x >>= f) b = .error e ↔ x b = .error e ∨ ∃ y b₁, x b = .ok (y, b₁) ∧ f y b₁ = .error e := by
  simp only [bind, StateT.bind, Except.bind]
  cases x b with
  | error e' => simp
  | ok r =>
    obtain ⟨y, b₁⟩ := r
    simp

theorem reserve_eq_error {c : Context} {name : String} {span : Span} {b : Build} {e : CompileError}
    (h : reserve c name span b = .error e) : e = ⟨.duplicateSub name, span, c.origin⟩ := by
  by_cases hmem : name ∈ b.names
  · simp only [reserve, Lower.bind_eq_error] at h
    obtain h | ⟨b₁, b₂, hget, h⟩ := h
    · cases h
    · cases hget
      simp only [List.contains_eq_mem, hmem, decide_true, if_true] at h
      cases h
      rfl
  · rw [reserve_of_new hmem] at h
    cases h

theorem openUnit_eq_error {c : Context} {body : List Stmt} {b : Build} {e : CompileError}
    (h : openUnit c body b = .error e) : resolve ⟨c.isSub, c.origin⟩ body = .error e := by
  cases hr : resolve ⟨c.isSub, c.origin⟩ body with
  | error e' =>
    simp only [openUnit, hr] at h
    cases h
    rfl
  | ok r =>
    have hok : openUnit c body b = .ok (r, _) := openUnit_eq_ok.mpr ⟨hr, rfl⟩
    rw [h] at hok
    cases hok

namespace Makes

variable {origin : String} {fit fit' : Prop} {ds ds' : List Definition} {α β : Type} {x : Lower α}

theorem pure (a : α) : Makes origin True [] (Pure.pure a : Lower α) where
  succeeds_iff := by
    intro b hb
    exact ⟨fun _ => ⟨trivial, hb⟩, fun _ => ⟨a, b, rfl⟩⟩
  adds := by
    intro b a' b' h
    obtain ⟨-, rfl⟩ := Lower.pure_eq_ok.mp h
    exact .nothing rfl rfl rfl
  supported := by
    intro b e h
    cases h

theorem congr (h : Makes origin fit ds x) (hfit : fit' ↔ fit) (hds : ds'.Perm ds) : Makes origin fit' ds' x where
  succeeds_iff := by
    intro b hb
    have hnames : (subNames ds' ++ b.names).Perm (subNames ds ++ b.names) :=
      (hds.filterMap _).append_right _
    rw [h.succeeds_iff hb, hfit, hnames.nodup_iff]
  adds hx := (h.adds hx).reorder hds
  supported := h.supported

theorem bind {f : α → Lower β} (hx : Makes origin fit ds x) (hf : ∀ a, Makes origin fit' ds' (f a)) :
    Makes origin (fit ∧ fit') (ds ++ ds') (x >>= f) where
  succeeds_iff := by
    intro b hb
    -- The names that are taken after the first half are those of its subs as well.
    have hnames : ∀ {y b₁}, x b = .ok (y, b₁) →
        (subNames (ds ++ ds') ++ b.names).Perm (subNames ds' ++ b₁.names) := by
      intro y b₁ h₁
      rw [subNames, List.filterMap_append]
      exact (perm_append_left_comm _ _ _).trans ((hx.adds h₁).names.symm.append_left _)
    constructor
    · rintro ⟨a, b', h⟩
      obtain ⟨y, b₁, h₁, h₂⟩ := Lower.bind_eq_ok.mp h
      obtain ⟨hfit, hnodup⟩ := (hx.succeeds_iff hb).mp ⟨y, b₁, h₁⟩
      have hb₁ : b₁.names.Nodup := (hx.adds h₁).names.nodup_iff.mpr hnodup
      obtain ⟨hfit', hnodup'⟩ := ((hf y).succeeds_iff hb₁).mp ⟨a, b', h₂⟩
      exact ⟨⟨hfit, hfit'⟩, (hnames h₁).nodup_iff.mpr hnodup'⟩
    · rintro ⟨⟨hfit, hfit'⟩, hnodup⟩
      have hfirst : (subNames ds ++ b.names).Nodup := by
        refine List.Sublist.nodup ?_ hnodup
        rw [subNames, subNames, List.filterMap_append]
        exact (List.sublist_append_left _ _).append_right _
      obtain ⟨y, b₁, h₁⟩ := (hx.succeeds_iff hb).mpr ⟨hfit, hfirst⟩
      have hb₁ : b₁.names.Nodup := (hx.adds h₁).names.nodup_iff.mpr hfirst
      obtain ⟨a, b', h₂⟩ := ((hf y).succeeds_iff hb₁).mpr ⟨hfit', (hnames h₁).nodup_iff.mp hnodup⟩
      exact ⟨a, b', Lower.bind_eq_ok.mpr ⟨y, b₁, h₁, h₂⟩⟩
  adds := by
    intro b a b' h
    obtain ⟨y, b₁, h₁, h₂⟩ := Lower.bind_eq_ok.mp h
    exact (hx.adds h₁).append ((hf y).adds h₂)
  supported := by
    intro b e h
    obtain h | ⟨y, b₁, -, h⟩ := Lower.bind_eq_error.mp h
    · exact hx.supported h
    · exact (hf y).supported h

theorem map (hx : Makes origin fit ds x) (f : α → β) : Makes origin fit ds (x >>= fun a => Pure.pure (f a)) :=
  (hx.bind fun a => pure (f a)).congr (by simp) (by simp)

theorem openUnit {c : Context} {body : List Stmt} (hbody : stmtsRegular body) :
    Makes origin (¬ HasStray c.isSub false (stmtAt? body)) [] (Code.openUnit c body) where
  succeeds_iff := by
    intro b hb
    -- Opening a unit fails where its resolution does, and reads nothing of what was built.
    have htells := @tells_resolve ⟨c.isSub, c.origin⟩ body hbody
    cases hr : resolve ⟨c.isSub, c.origin⟩ body with
    | error e =>
      rw [hr] at htells
      refine iff_of_false ?_ fun hno => hno.1 htells.1
      rintro ⟨r, b', h⟩
      rw [openUnit_eq_ok, hr] at h
      cases h.1
    | ok r =>
      rw [hr] at htells
      exact iff_of_true ⟨r, _, openUnit_eq_ok.mpr ⟨hr, rfl⟩⟩ ⟨htells, hb⟩
  adds := by
    intro b r b' h
    obtain ⟨-, rfl⟩ := openUnit_eq_ok.mp h
    exact .nothing rfl rfl rfl
  supported := by
    intro b e h
    have htells := @tells_resolve ⟨c.isSub, c.origin⟩ body hbody
    rw [openUnit_eq_error h] at htells
    exact htells.2

end Makes

theorem lowerBody_eq (c : Context) (name : String) (params : List Name) (span : Span) (body : Block) :
    lowerBody c name params span body = (do
      let r ← openUnit c body.stmts
      let code ← lowerStmts c .start body.stmts
      return closeUnit c r name params span code) := by
  cases body with
  | missing => simp only [lowerBody, Block.stmts, lowerStmts, pure_bind]
  | mk stmts _ => rw [lowerBody, Block.stmts]

theorem unitOf_lowerBody {origin name : String} {d : Definition} {body : Block} {u : CodeUnit} {b b' : Build}
    (hname : name = d.name?.getD "") (hbody : d.body = body.stmts)
    (h : lowerBody (.ofUnit true origin) name d.params d.span body b = .ok (u, b')) : UnitOf origin d u := by
  have hcode := codeOf_lowerBody h
  rw [lowerBody_eq] at h
  simp only [Lower.bind_eq_ok, Lower.pure_eq_ok] at h
  obtain ⟨r, b₁, -, code, b₂, -, rfl, -⟩ := h
  exact ⟨hname, rfl, rfl, rfl, rfl, hbody ▸ hcode⟩

section Definitions

variable {origin : String} {fit : Prop} {ds : List Definition} {c : Context} {p : Spot} {params : List Name}
  {body : Block} {span : Span}

theorem adds_closure (hc : c.origin = origin)
    (hbody : ∀ {b u b'}, lowerBody (.ofUnit true origin) "" params span body b = .ok (u, b') → Adds origin ds b b')
    {b b' : Build} {code : Instructions} (h : lowerExpr c p (.closure params body span) b = .ok (code, b')) :
    Adds origin (⟨none, params, body.stmts, span⟩ :: ds) b b' := by
  subst hc
  simp only [lowerExpr, Lower.bind_eq_ok, Lower.modify_eq_ok, Lower.pure_eq_ok] at h
  obtain ⟨u, b₁, h, _, _, rfl, -, rfl⟩ := h
  obtain ⟨hnames, hsubs, hclosures⟩ := hbody h
  refine ⟨hnames, hsubs, fun before hb => ?_⟩
  have hu : UnitOf c.origin ⟨none, params, body.stmts, span⟩ u := unitOf_lowerBody rfl rfl h
  exact (Units.cons hu (hclosures before hb)).perm (List.perm_append_singleton u b₁.closures).symm

theorem adds_sub {name : Name} (hc : c.origin = origin)
    (hbody : ∀ {b u b'}, lowerBody (.ofUnit true origin) name.text params span body b = .ok (u, b') →
      Adds origin ds b b')
    {b b' : Build} {code : Instructions} (h : lowerStmt c p (.sub name params body span) b = .ok (code, b')) :
    Adds origin (⟨some name.text, params, body.stmts, span⟩ :: ds) b b' := by
  subst hc
  simp only [lowerStmt, Lower.bind_eq_ok, Lower.modify_eq_ok, Lower.pure_eq_ok] at h
  obtain ⟨_, b₁, hreserve, u, b₂, h, _, _, rfl, -, rfl⟩ := h
  obtain ⟨-, rfl⟩ := reserve_eq_ok hreserve
  obtain ⟨hnames, hsubs, hclosures⟩ := hbody h
  refine ⟨hnames.trans List.perm_middle, fun before hb => ?_, hclosures⟩
  have hu : UnitOf c.origin ⟨some name.text, params, body.stmts, span⟩ u := unitOf_lowerBody rfl rfl h
  exact (Units.cons hu (hsubs before hb)).perm (perm_insertUnit u b₂.subs)

theorem closure_eq_error {b : Build} {e : CompileError} (h : lowerExpr c p (.closure params body span) b = .error e) :
    lowerBody (.ofUnit true c.origin) "" params span body b = .error e := by
  simp only [lowerExpr, Lower.bind_eq_error] at h
  obtain h | ⟨u, b₁, -, h | ⟨_, b₂, -, h⟩⟩ := h
  · exact h
  · cases h
  · cases h

/-- The lowering of a sub fails if its name is taken, and else only where that of its body does. -/
theorem sub_eq_error {name : Name} {b : Build} {e : CompileError}
    (h : lowerStmt c p (.sub name params body span) b = .error e) :
    e = ⟨.duplicateSub name.text, span, c.origin⟩ ∨
      ∃ b₁, lowerBody (.ofUnit true c.origin) name.text params span body b₁ = .error e := by
  simp only [lowerStmt, Lower.bind_eq_error] at h
  obtain h | ⟨_, b₁, -, h | ⟨u, b₂, -, h | ⟨_, b₃, -, h⟩⟩⟩ := h
  · exact .inl (reserve_eq_error h)
  · exact .inr ⟨b₁, h⟩
  · cases h
  · cases h

namespace Makes

theorem closure (hc : c.origin = origin)
    (hbody : Makes origin fit ds (lowerBody (.ofUnit true origin) "" params span body)) :
    Makes origin fit (⟨none, params, body.stmts, span⟩ :: ds) (lowerExpr c p (.closure params body span)) where
  succeeds_iff := by
    intro b hb
    subst hc
    simp only [lowerExpr, Lower.bind_eq_ok, Lower.modify_eq_ok, Lower.pure_eq_ok]
    rw [show subNames (⟨none, params, body.stmts, span⟩ :: ds) = subNames ds from rfl, ← hbody.succeeds_iff hb]
    constructor
    · rintro ⟨_, _, u, b₁, h, -⟩
      exact ⟨u, b₁, h⟩
    · rintro ⟨u, b₁, h⟩
      exact ⟨_, _, u, b₁, h, (), _, rfl, rfl, rfl⟩
  adds h := adds_closure hc hbody.adds h
  supported := by
    intro b e h
    subst hc
    exact hbody.supported (closure_eq_error h)

theorem sub {name : Name} (hc : c.origin = origin)
    (hbody : Makes origin fit ds (lowerBody (.ofUnit true origin) name.text params span body)) :
    Makes origin fit (⟨some name.text, params, body.stmts, span⟩ :: ds)
      (lowerStmt c p (.sub name params body span)) where
  succeeds_iff := by
    intro b hb
    subst hc
    simp only [lowerStmt, Lower.bind_eq_ok, Lower.modify_eq_ok, Lower.pure_eq_ok]
    -- The body is lowered with the name of the sub taken, so a sub of this name inside it is a second one.
    have hnames : (subNames (⟨some name.text, params, body.stmts, span⟩ :: ds) ++ b.names).Perm
        (subNames ds ++ name.text :: b.names) := List.perm_middle.symm
    rw [hnames.nodup_iff]
    constructor
    · rintro ⟨_, _, _, b₁, hreserve, u, b₂, h, -⟩
      obtain ⟨hnew, rfl⟩ := reserve_eq_ok hreserve
      exact (hbody.succeeds_iff (List.nodup_cons.mpr ⟨hnew, hb⟩)).mp ⟨u, b₂, h⟩
    · rintro ⟨hfit, hnodup⟩
      have htaken : (name.text :: b.names).Nodup := (List.sublist_append_right _ _).nodup hnodup
      obtain ⟨u, b₂, h⟩ := (hbody.succeeds_iff (b := { b with names := name.text :: b.names }) htaken).mpr
        ⟨hfit, hnodup⟩
      exact ⟨_, _, (), _, reserve_of_new (List.nodup_cons.mp htaken).1, u, b₂, h, (), _, rfl, rfl, rfl⟩
  adds h := adds_sub hc hbody.adds h
  supported := by
    intro b e h
    subst hc
    obtain rfl | ⟨b₁, h⟩ := sub_eq_error h
    · simp [CompileError.kind, CompileCause.kind]
    · exact hbody.supported h

end Makes

end Definitions

/-! ## Regular trees -/

variable {origin : String}

theorem makes_lowerOptional {c : Context} {p : Spot} {e : Expr} {last : Operation CodeUnit}
    (h : Makes origin (NoneStray e.definitions) e.definitions (lowerExpr c p e)) :
    Makes origin (NoneStray e.definitions) e.definitions (lowerOptional c p e last) := by
  unfold lowerOptional
  by_cases he : e = .missing
  · subst he
    exact (Makes.pure _).congr (by simp [Expr.definitions]) (.refl _)
  · rw [isMissing_eq_false he]
    exact h.map _

mutual

theorem makes_lowerExpr {c : Context} {p : Spot} (hc : c.origin = origin) (e : Expr) (h : e.Regular) :
    Makes origin (NoneStray e.definitions) e.definitions (lowerExpr c p e) := by
  match e with
  | .missing | .undefined _ | .int .. | .float .. | .str .. | .ident .. =>
    rw [lowerExpr, Expr.definitions]
    exact (Makes.pure _).congr (by simp) (.refl _)
  | .array elements _ =>
    rw [lowerExpr, Expr.definitions]
    exact (makes_lowerExprs hc elements h).map _
  | .index object index _ =>
    rw [lowerExpr, Expr.definitions, noneStray_append]
    exact (makes_lowerExpr hc object h.1).bind fun _ => (makes_lowerExpr hc index h.2).map _
  | .unary _ operand _ =>
    rw [lowerExpr, Expr.definitions]
    exact (makes_lowerExpr hc operand h).map _
  | .binary op left right _ =>
    rw [Expr.definitions, noneStray_append]
    -- The operators have three equations between them, all with both sides in this order.
    cases op <;> simp only [lowerExpr]
    all_goals exact (makes_lowerExpr hc left h.1).bind fun _ => (makes_lowerExpr hc right h.2).map _
  | .assign op (.ident name place) right _ =>
    rw [Expr.definitions, Expr.definitions, List.nil_append]
    cases op <;> simp only [lowerExpr]
    all_goals exact (makes_lowerExpr hc right h.2.2).map _
  | .assign op (.index object index place) right _ =>
    obtain ⟨htakes, ⟨hobject, hindex⟩, hright⟩ := h
    rw [Expr.definitions, Expr.definitions, List.append_assoc, noneStray_append, noneStray_append]
    cases op <;> simp only [lowerExpr]
    case declare => cases htakes
    all_goals
      exact (makes_lowerExpr hc object hobject).bind fun _ => (makes_lowerExpr hc index hindex).bind fun _ =>
        (makes_lowerExpr hc right hright).map _
  | .assign op .missing right _ | .assign op (.str ..) right _ | .assign op (.int ..) right _
  | .assign op (.float ..) right _ | .assign op (.undefined _) right _ | .assign op (.array ..) right _
  | .assign op (.unary ..) right _ | .assign op (.binary ..) right _ | .assign op (.assign ..) right _
  | .assign op (.call ..) right _ | .assign op (.closure ..) right _ =>
    have htakes := h.1
    cases op <;> cases htakes
  | .call callee args _ =>
    rw [lowerExpr, Expr.definitions, noneStray_append]
    exact (makes_lowerExpr hc callee h.1).bind fun _ => (makes_lowerExprs hc args h.2).map _
  | .closure params body _ =>
    rw [Expr.definitions, noneStray_cons]
    exact .closure hc (makes_lowerBody body h)

theorem makes_lowerExprs {c : Context} {p : Spot} (hc : c.origin = origin) (es : List Expr) (h : exprsRegular es) :
    Makes origin (NoneStray (exprsDefinitions es)) (exprsDefinitions es) (lowerExprs c p es) := by
  match es with
  | [] =>
    rw [lowerExprs, exprsDefinitions]
    exact (Makes.pure _).congr (by simp) (.refl _)
  | e :: es =>
    rw [lowerExprs, exprsDefinitions, noneStray_append]
    exact (makes_lowerExpr hc e h.1).bind fun _ => (makes_lowerExprs hc es h.2).map _

theorem makes_lowerInit {c : Context} {p : Spot} (hc : c.origin = origin) (init : Stmt) (hinit : init.isInit = true)
    (h : init.Regular) : Makes origin (NoneStray init.definitions) init.definitions (lowerInit c p init) := by
  match init with
  | .missing =>
    rw [lowerInit, Stmt.definitions]
    exact (Makes.pure _).congr (by simp) (.refl _)
  | .expr e =>
    rw [lowerInit, Stmt.definitions]
    exact (makes_lowerExpr hc e h).map _
  | .block _ | .bare .. | .whileLoop .. | .forLoop .. | .foreachLoop .. | .ifChain .. | .verb ..
  | .tailCall .. | .ret .. | .sub .. => cases hinit

theorem makes_lowerStmt {c : Context} {p : Spot} (hc : c.origin = origin) (s : Stmt) (h : s.Regular) :
    Makes origin (NoneStray s.definitions) s.definitions (lowerStmt c p s) := by
  match s with
  | .missing =>
    rw [lowerStmt, Stmt.definitions]
    exact (Makes.pure _).congr (by simp) (.refl _)
  | .expr e =>
    rw [lowerStmt, Stmt.definitions]
    exact (makes_lowerExpr hc e h).map _
  | .block body =>
    rw [lowerStmt, Stmt.definitions]
    exact makes_lowerBlock hc body h
  | .bare label body _ =>
    rw [lowerStmt, Stmt.definitions]
    exact (makes_lowerScope (by exact hc) body h).map _
  | .whileLoop label test negate body _ =>
    rw [lowerStmt, Stmt.definitions, noneStray_append]
    refine (makes_lowerExpr ?_ test h.1).bind fun _ => (makes_lowerScope (by exact hc) body h.2).map _
    split <;> exact hc
  | .forLoop label init test step body span =>
    obtain ⟨hshape, hinit, htest, hstep, hbody⟩ := h
    have hheader : (forHeader c p label init test step body).origin = origin := by
      unfold forHeader headerContext
      split <;> exact hc
    rw [lowerStmt_forLoop, Stmt.definitions]
    -- The step stands before the body in the text and is lowered after it.
    refine ((makes_lowerInit hheader init hshape hinit).bind fun _ =>
      (makes_lowerOptional (makes_lowerExpr hheader test htest)).bind fun _ =>
      (makes_lowerScope (by exact hc) body hbody).bind fun _ =>
      (makes_lowerOptional (makes_lowerExpr hheader step hstep)).map _).congr ?_ ?_
    · simp only [noneStray_append]
      tauto
    · exact (List.perm_append_comm.append_left _).append_left _
  | .foreachLoop label item iterable body _ =>
    rw [lowerStmt, Stmt.definitions, noneStray_append]
    exact (makes_lowerExpr hc iterable h.1).bind fun _ => (makes_lowerScope (by exact hc) body h.2).map _
  | .ifChain test negate body clauses otherwise _ =>
    obtain ⟨htest, hbody, hclauses, hotherwise⟩ := h
    rw [lowerStmt, Stmt.definitions, noneStray_append, noneStray_append, noneStray_append]
    exact (makes_lowerExpr hc test htest).bind fun _ => (makes_lowerBlock hc body hbody).bind fun _ =>
      (makes_lowerClauses hc clauses hclauses).bind fun _ => (makes_lowerBlock hc otherwise hotherwise).map _
  | .verb kind label span =>
    rw [lowerStmt, Stmt.definitions]
    cases kind with
    | other spelling => cases h
    | last | next | redo | goto => exact (Makes.pure _).congr (by simp) (.refl _)
  | .tailCall callee args reuse _ =>
    obtain ⟨hargs, hcallee, hregular⟩ := h
    rw [lowerStmt, Stmt.definitions, noneStray_append]
    refine (makes_lowerExpr hc callee hcallee).bind fun _ => ?_
    cases reuse with
    | false => exact (makes_lowerExprs hc args hregular).map _
    | true =>
      rw [hargs rfl, exprsDefinitions]
      exact (Makes.pure _).congr (by simp) (.refl _)
  | .ret argument _ =>
    rw [lowerStmt, Stmt.definitions]
    exact (makes_lowerExpr hc argument h).map _
  | .sub name params body _ =>
    rw [Stmt.definitions, noneStray_cons]
    exact .sub hc (makes_lowerBody body h)

theorem makes_lowerBlock {c : Context} {p : Spot} (hc : c.origin = origin) (body : Block) (h : body.Regular) :
    Makes origin (NoneStray body.definitions) body.definitions (lowerBlock c p body) := by
  match body with
  | .missing =>
    rw [lowerBlock, Block.definitions]
    exact (Makes.pure _).congr (by simp) (.refl _)
  | .mk stmts _ =>
    rw [lowerBlock, Block.definitions]
    exact (makes_lowerStmts hc stmts h).map _

theorem makes_lowerScope {c : Context} {mode : DispatchMode} {point : Instruction} {p : Spot} (hc : c.origin = origin)
    (body : Block) (h : body.Regular) :
    Makes origin (NoneStray body.definitions) body.definitions (lowerScope c mode point p body) := by
  match body with
  | .missing =>
    rw [lowerScope, Block.definitions]
    exact (Makes.pure _).congr (by simp) (.refl _)
  | .mk stmts _ =>
    rw [Block.definitions]
    cases mode with
    | none => simpa only [lowerScope] using makes_lowerStmts hc stmts h
    | loopEnd =>
      simp only [lowerScope]
      exact (makes_lowerStmts (by exact hc) stmts h).map _
    | perStatement =>
      simp only [lowerScope]
      cases hempty : stmts.isEmpty with
      | true =>
        obtain rfl := List.isEmpty_iff.mp hempty
        exact (Makes.pure _).congr (by simp [stmtsDefinitions]) (.refl _)
      | false => exact makes_lowerEach hc stmts h

theorem makes_lowerStmts {c : Context} {p : Spot} (hc : c.origin = origin) (stmts : List Stmt)
    (h : stmtsRegular stmts) :
    Makes origin (NoneStray (stmtsDefinitions stmts)) (stmtsDefinitions stmts) (lowerStmts c p stmts) := by
  match stmts with
  | [] =>
    rw [lowerStmts, stmtsDefinitions]
    exact (Makes.pure _).congr (by simp) (.refl _)
  | s :: rest =>
    rw [lowerStmts, stmtsDefinitions, noneStray_append]
    exact (makes_lowerStmt hc s h.1).bind fun _ => (makes_lowerStmts hc rest h.2).map _

theorem makes_lowerEach {c : Context} {point : Instruction} {p : Spot} (hc : c.origin = origin) (stmts : List Stmt)
    (h : stmtsRegular stmts) :
    Makes origin (NoneStray (stmtsDefinitions stmts)) (stmtsDefinitions stmts) (lowerEach c point p stmts) := by
  match stmts with
  | [] =>
    rw [lowerEach, stmtsDefinitions]
    exact (Makes.pure _).congr (by simp) (.refl _)
  | s :: rest =>
    rw [lowerEach, stmtsDefinitions, noneStray_append]
    exact (makes_lowerStmt (by exact hc) s h.1).bind fun _ => (makes_lowerEach hc rest h.2).map _

theorem makes_lowerClauses {c : Context} {stop : Nat} {p : Spot} (hc : c.origin = origin) (clauses : List Clause)
    (h : clausesRegular clauses) :
    Makes origin (NoneStray (clausesDefinitions clauses)) (clausesDefinitions clauses)
      (lowerClauses c stop p clauses) := by
  match clauses with
  | [] =>
    rw [lowerClauses, clausesDefinitions]
    exact (Makes.pure _).congr (by simp) (.refl _)
  | .mk test body :: rest =>
    obtain ⟨htest, hbody, hrest⟩ := h
    rw [lowerClauses, clausesDefinitions, noneStray_append, noneStray_append]
    exact (makes_lowerExpr hc test htest).bind fun _ => (makes_lowerBlock hc body hbody).bind fun _ =>
      (makes_lowerClauses hc rest hrest).map _

theorem makes_lowerBody {name : String} {params : List Name} {span : Span} (body : Block) (h : body.Regular) :
    Makes origin (¬ HasStray true false (stmtAt? body.stmts) ∧ NoneStray body.definitions) body.definitions
      (lowerBody (.ofUnit true origin) name params span body) := by
  match body with
  | .missing =>
    rw [lowerBody, Block.definitions]
    have hempty : stmtsRegular [] := trivial
    exact ((Makes.openUnit hempty).map _).congr (by simp [Block.stmts, Context.ofUnit]) (.refl _)
  | .mk stmts _ =>
    rw [lowerBody, Block.definitions]
    have hopen : Makes origin _ [] (openUnit (.ofUnit true origin) stmts) := .openUnit h
    exact hopen.bind fun _ => (makes_lowerStmts rfl stmts h).map _

end

end Code

end KestrelLang
