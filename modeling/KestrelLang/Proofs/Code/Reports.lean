import KestrelLang.Proofs.Code.Reached
import KestrelLang.Proofs.Label.Tally

/-! # The label report of a program

* `compositional_adds` — every lowering adds the units of the definitions that it comes to, one for each.
* `Module.unitBodies` — the bodies that become units.
* `exists_order_of_compile` — the units of a program, put in another order, are those of these bodies.
* `labelReport_tallies` — the label report counts every label of the module, and every verb that names one, once. -/

namespace KestrelLang

open KestrelLang.Label KestrelLang.Code

namespace Code

theorem compositional_adds (origin : String) :
    Compositional origin fun ds _ x => ∀ {b a b'}, x b = .ok (a, b') → Adds origin ds b b' where
  pure a := by
    intro b a' b' h
    obtain ⟨-, rfl⟩ := Lower.pure_eq_ok.mp h
    exact .nothing rfl rfl rfl
  bind hx hf := by
    intro b a b' h
    obtain ⟨y, b₁, h₁, h₂⟩ := Lower.bind_eq_ok.mp h
    exact (hx h₁).append (hf h₁ h₂)
  perm hx hperm := fun h => (hx h).reorder hperm
  unsupported ds _ span _ := by
    intro b a b' h
    exact (Lower.unsupported_eq_ok.mp h).elim
  openUnit body _ := by
    intro b r b' h
    obtain ⟨-, rfl⟩ := openUnit_eq_ok.mp h
    exact .nothing rfl rfl rfl
  closure hc hbody := fun h => adds_closure hc hbody h
  sub hc hbody := fun h => adds_sub hc hbody h

end Code

/-! ## Bodies and units -/

def Module.unitBodies (m : Module) : List (List Stmt) := m.body :: m.reached.map (·.body)

namespace Code

variable {origin : String}

theorem Units.append {ds ds' : List Definition} {us us' : List CodeUnit} (h : Units origin ds us)
    (h' : Units origin ds' us') : Units origin (ds ++ ds') (us ++ us') := by
  obtain ⟨order, horder, hunits⟩ := h
  obtain ⟨order', horder', hunits'⟩ := h'
  exact ⟨order ++ order', horder.append horder', List.rel_append hunits hunits'⟩

theorem perm_namedSubs_append (ds : List Definition) : ds.Perm (namedSubs ds ++ closuresOf ds) := by
  have hnot : closuresOf ds = ds.filter fun d => !d.name?.isSome := by
    simp [closuresOf]
  rw [hnot]
  exact (List.filter_append_perm _ ds).symm

theorem adds_of_compile {m : Module} {p : Program} (h : compile origin m = .ok p) :
    ∃ b, lowerMain origin m ⟨[], [], [], []⟩ = .ok (p.main, b) ∧ p.subs = b.subs ∧ p.closures = b.closures ∧
      Adds origin m.reached ⟨[], [], [], []⟩ b := by
  obtain ⟨main, b, hlower, rfl⟩ := lowerMain_of_compile h
  exact ⟨b, hlower, rfl, rfl, (compositional_adds origin).lowerMain m hlower⟩

theorem subs_of_compile {m : Module} {p : Program} (h : compile origin m = .ok p) :
    Units origin (namedSubs m.reached) p.subs := by
  obtain ⟨b, -, hsubs, -, hadds⟩ := adds_of_compile h
  rw [hsubs, ← List.append_nil (namedSubs _)]
  exact hadds.subs [] ⟨[], .refl _, .nil⟩

/-- Apart from the main chunk the units of a program are those of the definitions that a lowering comes to. -/
theorem units_of_compile {m : Module} {p : Program} (h : compile origin m = .ok p) :
    Units origin m.reached (p.subs ++ p.closures) := by
  obtain ⟨b, -, -, hclosures, hadds⟩ := adds_of_compile h
  have hunits : Units origin (closuresOf m.reached) p.closures := by
    rw [hclosures, ← List.append_nil (closuresOf _)]
    exact hadds.closures [] ⟨[], .refl _, .nil⟩
  exact ((subs_of_compile h).append hunits).reorder (perm_namedSubs_append _)

/-- Put in another order, the bodies that become units are those of the units of a program, one by one. -/
theorem exists_order_of_compile {m : Module} {p : Program} (h : compile origin m = .ok p) :
    ∃ bodies, bodies.Perm m.unitBodies ∧ List.Forall₂ CodeOf bodies p.units := by
  obtain ⟨order, horder, hunits⟩ := units_of_compile h
  refine ⟨m.body :: order.map (·.body), (horder.symm.map _).cons _, .cons (codeOf_main h).1 ?_⟩
  exact List.forall₂_map_left_iff.mpr (hunits.imp fun _ _ hu => hu.code)

end Code

/-! ## The report -/

/-- **The label report conserves every use of a label.** It has one row for each label that a loop or bare block of the
    module carries or a verb names, in increasing order. A row counts the scopes with its label, the verbs that name it
    in a scope of that label in their own unit, and all other verbs that name it, so the rows together count every verb
    with a label once. Closures among the arguments of a tail call that passes the current ones on have no units and
    are not counted; a text has none of those, so there everything counts. -/
theorem labelReport_tallies {origin : String} {m : Module} {p : Program} (h : compile origin m = .ok p) :
    Tallies m.unitBodies p.labelReport ∧
      ∀ (name : String) (text : List Char), Parser.parseModule name text = .ok m →
        Tallies (m.body :: m.definitions.map (·.body)) p.labelReport := by
  obtain ⟨bodies, hperm, hunits⟩ := exists_order_of_compile h
  have hcounts : List.Forall₂ Counts bodies (p.units.map (·.resolution)) :=
    List.forall₂_map_right_iff.mpr (hunits.imp fun _ _ hu => counts_of_resolve hu.resolved)
  have htallies : Tallies m.unitBodies p.labelReport := (tallies_report hcounts).perm hperm
  refine ⟨htallies, fun name text htext => ?_⟩
  rw [← Module.reached_eq_definitions htext]
  exact htallies

/-- A loop with a sub in it. Both name the label of the loop, but the sub is not in its scope. -/
def sharedLabel : Module :=
  let a : Option Name := some ⟨"A", ⟨⟨3, 6⟩, ⟨3, 7⟩⟩⟩
  ⟨[.whileLoop a (.int 1 ⟨⟨1, 10⟩, ⟨1, 11⟩⟩) false
    (.mk [.sub ⟨"f", ⟨⟨2, 5⟩, ⟨2, 6⟩⟩⟩ [] (.mk [.verb .last a ⟨⟨2, 11⟩, ⟨2, 17⟩⟩] ⟨⟨2, 9⟩, ⟨2, 20⟩⟩)
      ⟨⟨2, 1⟩, ⟨2, 20⟩⟩, .verb .last a ⟨⟨3, 1⟩, ⟨3, 7⟩⟩] ⟨⟨1, 13⟩, ⟨4, 2⟩⟩) ⟨⟨1, 1⟩, ⟨4, 2⟩⟩], ⟨⟨1, 1⟩, ⟨4, 2⟩⟩⟩

theorem shared_label_is_tallied :
    ∃ p, compile "t.kst" sharedLabel = .ok p ∧ p.labelReport = [⟨"A", 1, 1, 1⟩] ∧
      Tallies sharedLabel.unitBodies p.labelReport := by
  refine ⟨_, rfl, ?_, (labelReport_tallies rfl).1⟩
  decide +kernel

/-- A sub that passes its arguments on, with a closure written in their place that has a label. -/
def unusedArgument : Module :=
  let l : Option Name := some ⟨"L", ⟨⟨2, 16⟩, ⟨2, 17⟩⟩⟩
  ⟨[.sub ⟨"f", ⟨⟨1, 5⟩, ⟨1, 6⟩⟩⟩ []
    (.mk [.tailCall (.ident "f" ⟨⟨2, 7⟩, ⟨2, 8⟩⟩)
      [.closure [] (.mk [.bare l (.mk [] ⟨⟨2, 19⟩, ⟨2, 21⟩⟩) ⟨⟨2, 16⟩, ⟨2, 21⟩⟩] ⟨⟨2, 14⟩, ⟨2, 23⟩⟩)
        ⟨⟨2, 9⟩, ⟨2, 23⟩⟩] true ⟨⟨2, 1⟩, ⟨2, 24⟩⟩] ⟨⟨1, 9⟩, ⟨3, 2⟩⟩) ⟨⟨1, 1⟩, ⟨3, 2⟩⟩], ⟨⟨1, 1⟩, ⟨3, 2⟩⟩⟩

theorem unused_argument_has_no_row :
    ∃ p, compile "t.kst" unusedArgument = .ok p ∧ p.labelReport = [] ∧
      ¬ Tallies (unusedArgument.body :: unusedArgument.definitions.map (·.body)) p.labelReport := by
  have hreport : ∀ p, compile "t.kst" unusedArgument = .ok p → p.labelReport = [] := by
    intro p hp
    cases hp
    decide +kernel
  refine ⟨_, rfl, hreport _ rfl, fun htallies => ?_⟩
  have hcarried : ∃ body ∈ unusedArgument.body :: unusedArgument.definitions.map (·.body),
      ∃ q, Carries body "L" q ∨ NamesLabel body "L" q :=
    ⟨_, .tail _ (.tail _ (.head _)), [0], .inl ⟨_, rfl, rfl⟩⟩
  have hrow := (htallies.complete "L").mpr ⟨by decide, hcarried⟩
  rw [hreport _ rfl] at hrow
  cases hrow

end KestrelLang
