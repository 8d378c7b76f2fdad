import KestrelLang.Proofs.Code.Definitions

/-! # Which modules have a program

* `Module.IllFormed` — the ways in which a module may break the rules of the language.
* `Program.Complete` — a program has a unit for the main chunk and for every definition, and no other.
* `compile_rejects_exactly_illFormed` — of the modules that texts have, exactly the ill-formed ones have no program. -/

namespace KestrelLang

open KestrelLang.Label KestrelLang.Code

/-- A verb without a label stands outside the loops of its unit, a tail call stands outside all subs, or two subs have
    the same name. -/
inductive Module.IllFormed (m : Module) : Prop where
  | strayVerb {body : List Stmt} {p : Path} (hbody : body = m.body ∨ ∃ d ∈ m.definitions, d.body = body)
      (hp : StrayVerb false (stmtAt? body) p)
  | strayTailCall {p : Path} (hp : StrayTailCall false (stmtAt? m.body) p)
  | sameName (hnames : ¬ (subNames m.definitions).Nodup)

/-- The program has one unit for the main chunk, one for each named sub and one for each closure. -/
structure Program.Complete (origin : String) (m : Module) (p : Program) : Prop where
  main : CodeOf m.body p.main
  main_name : p.main.name = "main" ∧ p.main.isSub = false ∧ p.main.origin = origin
  subs : Units origin (namedSubs m.definitions) p.subs
  closures : Units origin (closuresOf m.definitions) p.closures
  names : (p.subs.map (·.name)).Nodup
  count : p.units.length = 1 + m.definitions.length

theorem hasStray_inSub {inLoop : Bool} {at? : Path → Option Stmt} :
    HasStray true inLoop at? ↔ ∃ p, StrayVerb inLoop at? p := by
  simp [HasStray, Stray, StrayTailCall]

theorem Module.illFormed_iff {m : Module} :
    m.IllFormed ↔ HasStray false false (stmtAt? m.body) ∨ ¬ NoneStray m.definitions ∨
      ¬ (subNames m.definitions).Nodup := by
  constructor
  · rintro (⟨rfl | ⟨d, hd, rfl⟩, hp⟩ | hp | hnames)
    · exact .inl ⟨_, .inl hp⟩
    · exact .inr (.inl fun hnone => hnone d hd (hasStray_inSub.mpr ⟨_, hp⟩))
    · exact .inl ⟨_, .inr hp⟩
    · exact .inr (.inr hnames)
  · rintro (⟨p, hp | hp⟩ | hstray | hnames)
    · exact .strayVerb (.inl rfl) hp
    · exact .strayTailCall hp
    · simp only [NoneStray, not_forall, not_not] at hstray
      obtain ⟨d, hd, hstray⟩ := hstray
      obtain ⟨p, hp⟩ := hasStray_inSub.mp hstray
      exact .strayVerb (.inr ⟨d, hd, rfl⟩) hp
    · exact .sameName hnames

namespace Code

theorem Units.length_eq {origin : String} {ds : List Definition} {us : List CodeUnit} (h : Units origin ds us) :
    us.length = ds.length := by
  obtain ⟨order, horder, hunits⟩ := h
  rw [horder.length_eq, hunits.length_eq]

theorem map_name_namedSubs (ds : List Definition) : (namedSubs ds).map (·.name?.getD "") = subNames ds := by
  induction ds with
  | nil => rfl
  | cons d ds ih =>
    obtain ⟨name?, params, body, span⟩ := d
    cases name? with
    | none => exact ih
    | some name => exact congrArg (name :: ·) ih

theorem Units.names_perm {origin : String} {ds : List Definition} {us : List CodeUnit}
    (h : Units origin (namedSubs ds) us) : (us.map (·.name)).Perm (subNames ds) := by
  obtain ⟨order, horder, hunits⟩ := h
  have hnames : us.map (·.name) = order.map (·.name?.getD "") := by
    clear horder
    induction hunits with
    | nil => rfl
    | cons hu _ ih => rw [List.map_cons, List.map_cons, hu.name, ih]
  rw [hnames, ← map_name_namedSubs]
  exact horder.symm.map _

theorem length_namedSubs_add (ds : List Definition) : (namedSubs ds).length + (closuresOf ds).length = ds.length := by
  induction ds with
  | nil => rfl
  | cons d ds ih =>
    obtain ⟨name?, params, body, span⟩ := d
    cases name? <;> simp [namedSubs, closuresOf] at ih ⊢ <;> omega

theorem makes_lowerMain (origin : String) {m : Module} (h : stmtsRegular m.body) :
    Makes origin (¬ HasStray false false (stmtAt? m.body) ∧ NoneStray m.definitions) m.definitions
      (lowerMain origin m) := by
  have hopen : Makes origin _ [] (openUnit (.ofUnit false origin) m.body) := .openUnit h
  have hbody : Makes origin (NoneStray m.definitions) m.definitions
    (lowerStmts (.ofUnit false origin) .start m.body) := makes_lowerStmts (by rfl) m.body h
  exact hopen.bind fun _ => hbody.map _

theorem complete_of_compile {origin : String} {m : Module} {p : Program} (hregular : stmtsRegular m.body)
    (h : compile origin m = .ok p) : p.Complete origin m := by
  have hmakes := makes_lowerMain origin hregular
  have hmain := codeOf_main h
  obtain ⟨main, b, hlower, rfl⟩ := lowerMain_of_compile h
  obtain ⟨hnames, hsubs, hclosures⟩ := hmakes.adds hlower
  obtain ⟨-, hnodup⟩ := (hmakes.succeeds_iff List.nodup_nil).mp ⟨main, b, hlower⟩
  have hsubs : Units origin (namedSubs m.definitions) b.subs := by
    simpa using hsubs [] ⟨[], .refl _, .nil⟩
  have hclosures : Units origin (closuresOf m.definitions) b.closures := by
    simpa using hclosures [] ⟨[], .refl _, .nil⟩
  rw [List.append_nil] at hnodup
  simp only [lowerMain, Lower.bind_eq_ok, Lower.pure_eq_ok] at hlower
  obtain ⟨r, b₁, -, code, b₂, -, rfl, -⟩ := hlower
  exact
    { main := hmain.1
      main_name := ⟨rfl, rfl, rfl⟩
      subs := hsubs
      closures := hclosures
      names := hsubs.names_perm.nodup_iff.mpr hnodup
      count := by
        have htotal := length_namedSubs_add m.definitions
        simp only [Program.units, List.length_append, List.length_cons, hsubs.length_eq, hclosures.length_eq]
        omega }

end Code

/-- **Compilation rejects exactly the ill-formed modules.** Of the modules that a text has, those without a program
    are those with a verb outside the loops of its unit, a tail call outside all subs, or two subs of the same name.
    The error is never about a tree that the language does not have. A program that is made is complete, and no
    program comes with an error. -/
theorem compile_rejects_exactly_illFormed {name : String} {text : List Char} {m : Module}
    (h : Parser.parseModule name text = .ok m) (origin : String) :
    ((∃ e, compile origin m = .error e) ↔ m.IllFormed) ∧
      (∀ e, compile origin m = .error e → e.kind ≠ .unsupported) ∧
      ∀ p, compile origin m = .ok p → p.Complete origin m := by
  have hregular := Parser.regular_of_parseModule h
  have hmakes := makes_lowerMain origin hregular
  refine ⟨?_, fun e he => ?_, fun p hp => complete_of_compile hregular hp⟩
  -- There is a program exactly if the main chunk can be lowered while no name is taken.
  · have hsucceeds := hmakes.succeeds_iff (b := ⟨[], [], [], []⟩) List.nodup_nil
    rw [List.append_nil] at hsucceeds
    rw [Module.illFormed_iff]
    unfold compile
    cases hlower : lowerMain origin m ⟨[], [], [], []⟩ with
    | error e =>
      refine iff_of_true ⟨e, rfl⟩ ?_
      by_contra hwell
      simp only [not_or, not_not] at hwell
      obtain ⟨hmain, hnone, hnames⟩ := hwell
      obtain ⟨a, b', hok⟩ := hsucceeds.mpr ⟨⟨hmain, hnone⟩, hnames⟩
      rw [hlower] at hok
      cases hok
    | ok r =>
      obtain ⟨⟨hmain, hnone⟩, hnames⟩ := hsucceeds.mp ⟨r.1, r.2, hlower⟩
      refine iff_of_false (by simp) ?_
      rintro (hstray | hstray | hsame)
      · exact hmain hstray
      · exact hstray hnone
      · exact hsame hnames
  · unfold compile at he
    split at he
    · rename_i hlower
      cases he
      exact hmakes.supported hlower
    · cases he

/-- A text that is `next` and nothing else. -/
theorem lone_next_is_rejected :
    ∃ m, Parser.parseModule "a" ['n', 'e', 'x', 't'] = .ok m ∧ m.IllFormed ∧
      ∃ e, compile "a" m = .error e ∧ e.kind ≠ .unsupported := by
  have htokens : Lexer.tokenize ['n', 'e', 'x', 't'] = .ok ⟨[⟨.keyword .nextWord, ⟨1, 1⟩, ⟨1, 5⟩⟩], ⟨1, 5⟩⟩ := by
    have htoken : Lexer.scanToken 'n' ['e', 'x', 't'] = .ok (.keyword .nextWord, 4) := by decide +kernel
    have hend : Lexer.scan ⟨1, 5⟩ [] = .ok ⟨[], ⟨1, 5⟩⟩ := Lexer.scan_of_end rfl
    refine (Lexer.scan_of_token rfl htoken).trans ?_
    exact congrArg (Except.map _) hend
  let m : Module := ⟨[.verb .next none ⟨⟨1, 1⟩, ⟨1, 5⟩⟩], ⟨⟨1, 1⟩, ⟨1, 5⟩⟩⟩
  have hm : Parser.parseModule "a" ['n', 'e', 'x', 't'] = .ok m := by
    unfold Parser.parseModule
    rw [htokens]
    rfl
  have hstray : StrayVerb false (stmtAt? m.body) [0] := by
    refine ⟨rfl, ⟨_, rfl, _, _, _, rfl, by simp, rfl⟩, ?_⟩
    exact forall_encloses_cons.mpr ⟨noLoop_none, fun q hq => absurd hq (not_encloses_nil q)⟩
  have hill : m.IllFormed := .strayVerb (.inl rfl) hstray
  obtain ⟨hiff, hkind, -⟩ := compile_rejects_exactly_illFormed hm "a"
  obtain ⟨e, he⟩ := hiff.mpr hill
  exact ⟨m, hm, hill, e, he, hkind e he⟩

end KestrelLang
