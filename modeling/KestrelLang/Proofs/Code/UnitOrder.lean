import KestrelLang.Proofs.Code.Reports
import KestrelLang.Proofs.Code.Straight

/-! # The order of units

A program lists its main chunk first, then the named subs, then the closures.

* `closed_files` — every lowering keeps the subs sorted and their names different.
* `sequential_appends` — every lowering adds the units of the closures behind those there are, in the order in which it
  has done with the closures.
* `units_in_order` — the units of the program of a text. -/

namespace KestrelLang

namespace Code

variable {origin : String}

/-! ## Named subs -/

theorem sorted_insertUnit {u : CodeUnit} {us : List CodeUnit} (h : us.Pairwise (·.name ≤ ·.name)) :
    (insertUnit u us).Pairwise (·.name ≤ ·.name) := by
  induction us with
  | nil => exact List.pairwise_singleton _ _
  | cons v vs ih =>
    obtain ⟨hv, hvs⟩ := List.pairwise_cons.mp h
    unfold insertUnit
    split
    case isTrue hlt =>
      have hle : u.name ≤ v.name := String.not_lt.mp (String.lt_asymm hlt)
      refine List.pairwise_cons.mpr ⟨fun w hw => ?_, h⟩
      obtain rfl | hw := List.mem_cons.mp hw
      · exact hle
      · exact String.le_trans hle (hv w hw)
    case isFalse hnlt =>
      refine List.pairwise_cons.mpr ⟨fun w hw => ?_, ih hvs⟩
      obtain rfl | hw := mem_insertUnit.mp hw
      · exact String.not_lt.mp hnlt
      · exact hv w hw

/-- No name was taken twice, and the subs are sorted by name. -/
structure Build.Filed (b : Build) : Prop where
  names : b.names.Nodup
  subs : b.subs.Pairwise (·.name ≤ ·.name)

/-- If the names and the subs are filed, then the lowering leaves them so. -/
def Files {α : Type} (x : Lower α) : Prop := ∀ b a b', x b = .ok (a, b') → b.Filed → b'.Filed

theorem closed_files (bodies : List (List Stmt)) : Closed bodies Files where
  pure a := by
    intro b a' b' h hb
    obtain ⟨-, rfl⟩ := Lower.pure_eq_ok.mp h
    exact hb
  bind hx hf := by
    intro b a b' h hb
    obtain ⟨y, b₁, h₁, h₂⟩ := Lower.bind_eq_ok.mp h
    exact hf y b₁ a b' h₂ (hx b y b₁ h₁ hb)
  unsupported cause span := by
    intro b a b' h
    exact (Lower.unsupported_eq_ok.mp h).elim
  openUnit c body := by
    intro b r b' h hb
    obtain ⟨-, rfl⟩ := openUnit_eq_ok.mp h
    exact ⟨hb.names, hb.subs⟩
  closure _ hbody := by
    intro b code b' h hb
    simp only [lowerExpr, Lower.bind_eq_ok, Lower.modify_eq_ok, Lower.pure_eq_ok] at h
    obtain ⟨u, b₁, h₁, _, _, rfl, -, rfl⟩ := h
    obtain ⟨hnames, hsubs⟩ := hbody _ _ _ h₁ hb
    exact ⟨hnames, hsubs⟩
  sub _ hbody := by
    intro b code b' h hb
    simp only [lowerStmt, Lower.bind_eq_ok, Lower.modify_eq_ok, Lower.pure_eq_ok] at h
    obtain ⟨_, b₁, h₁, u, b₂, h₂, _, _, rfl, -, rfl⟩ := h
    obtain ⟨hnew, rfl⟩ := reserve_eq_ok h₁
    obtain ⟨hnames, hsubs⟩ := hbody _ _ _ h₂ ⟨List.nodup_cons.mpr ⟨hnew, hb.names⟩, hb.subs⟩
    exact ⟨hnames, sorted_insertUnit hsubs⟩

theorem map_namedSubs (ds : List Definition) : (namedSubs ds).map (·.name?.getD "") = subNames ds := by
  induction ds with
  | nil => rfl
  | cons d ds ih =>
    obtain ⟨_ | name, params, body, span⟩ := d
    · exact ih
    · exact congrArg (name :: ·) ih

theorem map_eq_of_forall₂ {α β γ : Type} {R : α → β → Prop} {f : α → γ} {g : β → γ} {as : List α} {bs : List β}
    (h : List.Forall₂ R as bs) (hR : ∀ a b, R a b → f a = g b) : as.map f = bs.map g := by
  induction h with
  | nil => rfl
  | cons hab _ ih => rw [List.map_cons, List.map_cons, hR _ _ hab, ih]

theorem Units.names {ds : List Definition} {us : List CodeUnit} (h : Units origin (namedSubs ds) us) :
    (us.map (·.name)).Perm (subNames ds) := by
  obtain ⟨order, horder, hunits⟩ := h
  have hus : order.map (·.name?.getD "") = us.map (·.name) := map_eq_of_forall₂ hunits fun _ _ hu => hu.name.symm
  rw [← hus, ← map_namedSubs]
  exact (horder.map _).symm

/-! ## Closures -/

/-- The units of the closures are added behind those there are, in the order of the closures. -/
def Appends (origin : String) (ds : List Definition) {α : Type} (x : Lower α) : Prop :=
  ∀ b a b', x b = .ok (a, b') → ∃ us, b'.closures = b.closures ++ us ∧ List.Forall₂ (UnitOf origin) (closuresOf ds) us

theorem sequential_appends (origin : String) : Sequential origin (Appends origin) where
  pure a := by
    intro b a' b' h
    obtain ⟨-, rfl⟩ := Lower.pure_eq_ok.mp h
    exact ⟨[], (List.append_nil _).symm, .nil⟩
  bind hx hf := by
    intro b a b' h
    obtain ⟨y, b₁, h₁, h₂⟩ := Lower.bind_eq_ok.mp h
    obtain ⟨us, hus, hunits⟩ := hx b y b₁ h₁
    obtain ⟨us', hus', hunits'⟩ := hf h₁ b₁ a b' h₂
    refine ⟨us ++ us', by rw [hus', hus, List.append_assoc], ?_⟩
    rw [closuresOf_append]
    exact List.rel_append hunits hunits'
  unsupported ds _ span _ := by
    intro b a b' h
    exact (Lower.unsupported_eq_ok.mp h).elim
  openUnit body _ := by
    intro b r b' h
    obtain ⟨-, rfl⟩ := openUnit_eq_ok.mp h
    exact ⟨[], (List.append_nil _).symm, .nil⟩
  closure {_ _ params body span _} hc hbody := by
    subst hc
    intro b code b' h
    simp only [lowerExpr, Lower.bind_eq_ok, Lower.modify_eq_ok, Lower.pure_eq_ok] at h
    obtain ⟨u, b₁, h₁, _, _, rfl, -, rfl⟩ := h
    obtain ⟨us, hus, hunits⟩ := hbody b u b₁ h₁
    -- The unit of the closure itself comes behind those of the closures in its body.
    have hown : UnitOf _ ⟨none, params, body.stmts, span⟩ u := unitOf_lowerBody rfl rfl h₁
    refine ⟨us ++ [u], by rw [hus, List.append_assoc], ?_⟩
    rw [closuresOf_append]
    exact List.rel_append hunits (.cons hown .nil)
  sub hc hbody := by
    subst hc
    intro b code b' h
    simp only [lowerStmt, Lower.bind_eq_ok, Lower.modify_eq_ok, Lower.pure_eq_ok] at h
    obtain ⟨_, b₁, h₁, u, b₂, h₂, _, _, rfl, -, rfl⟩ := h
    obtain ⟨-, rfl⟩ := reserve_eq_ok h₁
    obtain ⟨us, hus, hunits⟩ := hbody _ u b₂ h₂
    exact ⟨us, hus, by rwa [closuresOf_append_sub rfl]⟩

/-! ## Programs -/

/-- The subs of a program are sorted by name, and no two have the same. -/
theorem sorted_subs {m : Module} {p : Program} (h : compile origin m = .ok p) :
    p.subs.Pairwise (·.name < ·.name) := by
  obtain ⟨b, hlower, hsubs, -, hadds⟩ := adds_of_compile h
  have hclosed := closed_files (stmtsBodies m.body)
  have hfiles : Files (lowerMain origin m) :=
    hclosed.bind (hclosed.openUnit _ _) fun _ => hclosed.bind (hclosed.lowerStmts m.body (.refl _)) fun _ => hclosed.pure _
  obtain ⟨hnames, hsorted⟩ := hfiles _ _ _ hlower ⟨.nil, .nil⟩
  have hnodup : (subNames m.reached).Nodup := List.append_nil (subNames _) ▸ hadds.names.nodup_iff.mp hnames
  have hdiffer : p.subs.Pairwise (·.name ≠ ·.name) :=
    List.pairwise_map.mp ((subs_of_compile h).names.nodup_iff.mpr hnodup)
  rw [← hsubs] at hsorted
  refine hsorted.imp₂ (fun u v hle hne => ?_) hdiffer
  by_contra hnlt
  exact hne (String.le_antisymm hle (String.not_lt.mp hnlt))

/-- The closures of a program are in the order in which the lowering has done with them. -/
theorem closures_of_compile {m : Module} {p : Program} (h : compile origin m = .ok p) :
    List.Forall₂ (UnitOf origin) (closuresOf m.finished) p.closures := by
  obtain ⟨b, hlower, -, hclosures, -⟩ := adds_of_compile h
  obtain ⟨us, hus, hunits⟩ := (sequential_appends origin).lowerMain m _ _ _ hlower
  rw [hclosures, hus]
  exact hunits

/-- **The order of units.** The program of a text lists its main chunk, then its named subs in increasing order of their
    names, no two of which are the same, then its closures. The closures come in the order in which the lowering has done
    with them: that of the text, except that a closure comes after those inside of it, the step of a loop after the
    body of the loop, and a statement after the modifier behind it. So their starts increase exactly if no closure has
    another one inside, no loop has closures both in its step and in its body, and no statement with a modifier has
    closures both in itself and in the modifier. -/
theorem units_in_order {name : String} {text : List Char} {m : Module} {p : Program}
    (hm : Parser.parseModule name text = .ok m) (hp : compile origin m = .ok p) :
    p.units = p.main :: (p.subs ++ p.closures) ∧ CodeOf m.body p.main ∧
      p.subs.Pairwise (·.name < ·.name) ∧ Units origin (namedSubs m.definitions) p.subs ∧
      (closuresOf m.finished).Perm (closuresOf m.definitions) ∧
      List.Forall₂ (UnitOf origin) (closuresOf m.finished) p.closures ∧
      (p.closures.Pairwise (·.span.start < ·.span.start) ↔ m.Straight) := by
  have hreached : m.reached = m.definitions := Module.reached_eq_definitions hm
  have hunits := closures_of_compile hp
  have hspans : (closuresOf m.finished).map (·.span.start) = p.closures.map (·.span.start) :=
    map_eq_of_forall₂ hunits fun _ _ hu => congrArg Span.start hu.span.symm
  refine ⟨rfl, (codeOf_main hp).1, sorted_subs hp, hreached ▸ subs_of_compile hp, ?_, hunits, ?_⟩
  · rw [← hreached]
    exact (stmtsFinished_perm m.body).filter _
  · have hstarts : (p.closures.map (·.span.start)).Pairwise (· < ·) ↔ Ascending m.finished := by
      rw [← hspans]
      exact List.pairwise_map
    exact List.pairwise_map.symm.trans (hstarts.trans (ascending_finished_iff hm))

namespace Listed

open FirstLine (columns)

/-- Two subs, the second of which has a closure in it, and another closure. -/
def text : List Char :=
  ['s', 'u', 'b', ' ', 'b', '{', '}', 's', 'u', 'b', ' ', 'a', '{', 's', 'u', 'b', '{', '}', ';', '}',
    's', 'u', 'b', '{', '}', ';']

def script : Module :=
  ⟨[.sub ⟨"b", columns 5 6⟩ [] (.mk [] (columns 6 8)) (columns 1 8),
    .sub ⟨"a", columns 12 13⟩ []
      (.mk [.expr (.closure [] (.mk [] (columns 17 19)) (columns 14 19))] (columns 13 21)) (columns 8 21),
    .expr (.closure [] (.mk [] (columns 24 26)) (columns 21 26))], columns 1 27⟩

theorem tokenize_text : Lexer.tokenize text =
    .ok ⟨[⟨.keyword .subWord, ⟨1, 1⟩, ⟨1, 4⟩⟩, ⟨.ident "b", ⟨1, 5⟩, ⟨1, 6⟩⟩, ⟨.punct .lbrace, ⟨1, 6⟩, ⟨1, 7⟩⟩,
      ⟨.punct .rbrace, ⟨1, 7⟩, ⟨1, 8⟩⟩, ⟨.keyword .subWord, ⟨1, 8⟩, ⟨1, 11⟩⟩, ⟨.ident "a", ⟨1, 12⟩, ⟨1, 13⟩⟩,
      ⟨.punct .lbrace, ⟨1, 13⟩, ⟨1, 14⟩⟩, ⟨.keyword .subWord, ⟨1, 14⟩, ⟨1, 17⟩⟩, ⟨.punct .lbrace, ⟨1, 17⟩, ⟨1, 18⟩⟩,
      ⟨.punct .rbrace, ⟨1, 18⟩, ⟨1, 19⟩⟩, ⟨.punct .semicolon, ⟨1, 19⟩, ⟨1, 20⟩⟩, ⟨.punct .rbrace, ⟨1, 20⟩, ⟨1, 21⟩⟩,
      ⟨.keyword .subWord, ⟨1, 21⟩, ⟨1, 24⟩⟩, ⟨.punct .lbrace, ⟨1, 24⟩, ⟨1, 25⟩⟩, ⟨.punct .rbrace, ⟨1, 25⟩, ⟨1, 26⟩⟩,
      ⟨.punct .semicolon, ⟨1, 26⟩, ⟨1, 27⟩⟩], ⟨1, 27⟩⟩ := by
  have hb : Lexer.scanToken 's' (text.drop 1) = .ok (.keyword .subWord, 3) := by decide +kernel
  have hbname : Lexer.scanToken 'b' (text.drop 5) = .ok (.ident "b", 1) := by decide +kernel
  have ha : Lexer.scanToken 's' (text.drop 8) = .ok (.keyword .subWord, 3) := by decide +kernel
  have haname : Lexer.scanToken 'a' (text.drop 12) = .ok (.ident "a", 1) := by decide +kernel
  have hinner : Lexer.scanToken 's' (text.drop 14) = .ok (.keyword .subWord, 3) := by decide +kernel
  have hlast : Lexer.scanToken 's' (text.drop 21) = .ok (.keyword .subWord, 3) := by decide +kernel
  have hend : Lexer.scan ⟨1, 27⟩ [] = .ok ⟨[], ⟨1, 27⟩⟩ := Lexer.scan_of_end rfl
  have hbraces := Lexer.scan_cons ⟨1, 24⟩ (text.drop 23) rfl rfl
    (Lexer.scan_cons ⟨1, 25⟩ (text.drop 24) rfl rfl (Lexer.scan_cons ⟨1, 26⟩ (text.drop 25) rfl rfl hend))
  have hclosure := Lexer.scan_cons ⟨1, 20⟩ (text.drop 19) rfl rfl
    (Lexer.scan_cons ⟨1, 21⟩ (text.drop 20) rfl hlast hbraces)
  have hbody := Lexer.scan_cons ⟨1, 17⟩ (text.drop 16) rfl rfl
    (Lexer.scan_cons ⟨1, 18⟩ (text.drop 17) rfl rfl (Lexer.scan_cons ⟨1, 19⟩ (text.drop 18) rfl rfl hclosure))
  have hsub := Lexer.scan_cons ⟨1, 11⟩ (text.drop 10) rfl haname
    (Lexer.scan_cons ⟨1, 13⟩ (text.drop 12) rfl rfl (Lexer.scan_cons ⟨1, 14⟩ (text.drop 13) rfl hinner hbody))
  have hrest := Lexer.scan_cons ⟨1, 6⟩ (text.drop 5) rfl rfl
    (Lexer.scan_cons ⟨1, 7⟩ (text.drop 6) rfl rfl (Lexer.scan_cons ⟨1, 8⟩ (text.drop 7) rfl ha hsub))
  exact Lexer.scan_cons ⟨1, 1⟩ text rfl hb (Lexer.scan_cons ⟨1, 4⟩ (text.drop 3) rfl hbname hrest)

theorem parse_text : Parser.parseModule "t.kst" text = .ok script := by
  unfold Parser.parseModule
  rw [tokenize_text]
  rfl

theorem straight_script : script.Straight := ⟨trivial, ⟨rfl, trivial⟩, rfl, trivial⟩

/-- The subs change places, and the closures, none of which is in another one, are in the order of the text. -/
theorem subs_come_by_name :
    Parser.parseModule "t.kst" text = .ok script ∧ ∃ p, compile "t.kst" script = .ok p ∧
      p.units.map (·.name) = ["main", "a", "b", "", ""] ∧ p.closures.map (·.span.start) = [⟨1, 14⟩, ⟨1, 21⟩] ∧
      p.closures.Pairwise (·.span.start < ·.span.start) := by
  refine ⟨parse_text, _, rfl, by decide +kernel, rfl, ?_⟩
  have hcompile : compile "t.kst" script = .ok _ := rfl
  obtain ⟨-, -, -, -, -, -, hincreasing⟩ := units_in_order parse_text hcompile
  exact hincreasing.mpr straight_script

/-- A closure with another one inside. -/
def nestedText : List Char := ['s', 'u', 'b', '{', 's', 'u', 'b', '{', '}', ';', '}', ';']

def nestedScript : Module :=
  ⟨[.expr (.closure []
    (.mk [.expr (.closure [] (.mk [] (columns 8 10)) (columns 5 10))] (columns 4 12)) (columns 1 12))], columns 1 13⟩

theorem parse_nestedText : Parser.parseModule "t.kst" nestedText = .ok nestedScript := by
  have houter : Lexer.scanToken 's' (nestedText.drop 1) = .ok (.keyword .subWord, 3) := by decide +kernel
  have hinner : Lexer.scanToken 's' (nestedText.drop 5) = .ok (.keyword .subWord, 3) := by decide +kernel
  have hend : Lexer.scan ⟨1, 13⟩ [] = .ok ⟨[], ⟨1, 13⟩⟩ := Lexer.scan_of_end rfl
  have hclose := Lexer.scan_cons ⟨1, 10⟩ (nestedText.drop 9) rfl rfl
    (Lexer.scan_cons ⟨1, 11⟩ (nestedText.drop 10) rfl rfl (Lexer.scan_cons ⟨1, 12⟩ (nestedText.drop 11) rfl rfl hend))
  have hbraces := Lexer.scan_cons ⟨1, 8⟩ (nestedText.drop 7) rfl rfl
    (Lexer.scan_cons ⟨1, 9⟩ (nestedText.drop 8) rfl rfl hclose)
  have hbody := Lexer.scan_cons ⟨1, 4⟩ (nestedText.drop 3) rfl rfl
    (Lexer.scan_cons ⟨1, 5⟩ (nestedText.drop 4) rfl hinner hbraces)
  have htokens : Lexer.tokenize nestedText = .ok _ := Lexer.scan_cons ⟨1, 1⟩ nestedText rfl houter hbody
  unfold Parser.parseModule
  rw [htokens]
  rfl

/-- The closure inside comes first, though it starts behind the one that it is in. -/
theorem inner_closure_comes_first :
    Parser.parseModule "t.kst" nestedText = .ok nestedScript ∧ ∃ p, compile "t.kst" nestedScript = .ok p ∧
      p.closures.map (·.span.start) = [⟨1, 5⟩, ⟨1, 1⟩] ∧ ¬ p.closures.Pairwise (·.span.start < ·.span.start) := by
  refine ⟨parse_nestedText, _, rfl, rfl, fun hincreasing => ?_⟩
  have hlt : (⟨1, 5⟩ : Position) < ⟨1, 1⟩ := (List.pairwise_cons.mp hincreasing).1 _ List.mem_cons_self
  exact absurd (Position.lt_iff.mp hlt) (by decide)

end Listed

end Code

end KestrelLang
