import Mathlib.Data.Set.Card
import KestrelLang.Proofs.Label.Lexical

/-! # Labels counted in the text

* `Carries`, `NamesLabel`, `InScopeOf` — what a place of a unit has to do with a label.
* `placesIn` — the number of places with a property, over several units.
* `Tallies` — rows say of every label how often it is carried and named in some units.
* `Counts` — the views of a resolution count the places of its unit; `counts_of_resolve` finds all of them right.
* `tallies_report` — the report of several resolutions counts the labels of their units. -/

namespace KestrelLang

open KestrelLang.Label

/-! ## Places of labels -/

/-- At the place is a loop or bare block with the label. -/
def Carries (body : List Stmt) (l : String) (p : Path) : Prop := Headed body (·.label = l) p

/-- At the place is a verb that names the label. -/
def NamesLabel (body : List Stmt) (l : String) (p : Path) : Prop :=
  ∃ kind label span, stmtAt? body p = some (.verb kind label span) ∧ labelText label = l

/-- The place lies in a loop or bare block with the label. -/
def InScopeOf (body : List Stmt) (l : String) (p : Path) : Prop := ∃ q, Encloses q p ∧ Carries body l q

/-- In how many places of the bodies the property holds. -/
noncomputable def placesIn (bodies : List (List Stmt)) (P : List Stmt → Path → Prop) : ℕ∞ :=
  (bodies.map fun body => {p | P body p}.encard).sum

/-- The rows count the labels of the bodies, those of one body apart from those of another: a verb is local if it lies
    in a scope of its label in its own body. -/
structure Tallies (bodies : List (List Stmt)) (rows : List LabelStat) : Prop where
  sorted : (rows.map (·.label)).Pairwise (· < ·)
  complete : ∀ l, l ∈ rows.map (·.label) ↔ l ≠ "" ∧ ∃ body ∈ bodies, ∃ p, Carries body l p ∨ NamesLabel body l p
  definitions : ∀ row ∈ rows, row.definitions = placesIn bodies (Carries · row.label)
  locals : ∀ row ∈ rows,
    row.locals = placesIn bodies fun body p => NamesLabel body row.label p ∧ InScopeOf body row.label p
  nonLocals : ∀ row ∈ rows,
    row.nonLocals = placesIn bodies fun body p => NamesLabel body row.label p ∧ ¬ InScopeOf body row.label p
  total : (rows.map fun row => row.locals + row.nonLocals).sum =
    placesIn bodies fun body p => ∃ l, l ≠ "" ∧ NamesLabel body l p

theorem placesIn_perm {bodies bodies' : List (List Stmt)} (h : bodies.Perm bodies') (P : List Stmt → Path → Prop) :
    placesIn bodies P = placesIn bodies' P :=
  (h.map _).sum_eq

theorem Tallies.perm {bodies bodies' : List (List Stmt)} {rows : List LabelStat} (h : Tallies bodies rows)
    (hperm : bodies.Perm bodies') : Tallies bodies' rows where
  sorted := h.sorted
  complete l := by simp only [h.complete, hperm.mem_iff]
  definitions row hrow := by rw [h.definitions row hrow, placesIn_perm hperm]
  locals row hrow := by rw [h.locals row hrow, placesIn_perm hperm]
  nonLocals row hrow := by rw [h.nonLocals row hrow, placesIn_perm hperm]
  total := by rw [h.total, placesIn_perm hperm]

theorem Lists.encard_eq {P : Path → Prop} {places : List Path} (h : Lists P places) :
    {p | P p}.encard = places.length := by
  have hset : {p | P p} = (places.toFinset : Set Path) := by
    ext p
    simp [h.complete]
  have hnodup : places.Nodup := h.sorted.imp ne_of_lt
  rw [hset, Set.encard_coe_eq_coe_finsetCard, List.toFinset_card_of_nodup hnodup]

namespace Label

/-! ## Places of one unit -/

namespace Tagging

variable {info : UnitInfo} {n' : Nat} {body : List Stmt} {tags : List (Path × Item)}

/-- The items of which `f` makes something with the property `q` are as many as their places. -/
theorem encard_eq {β : Type} {f : Item → Option β} {q : β → Bool} {P : Path → Prop}
    (h : Tagging info [] 0 n' (stmtAt? body) tags)
    (hP : ∀ p, P p ↔ ∃ item b, (p, item) ∈ tags ∧ f item = some b ∧ q b = true) :
    {p | P p}.encard = ((tags.map (·.2)).filterMap f).countP q := by
  let picked : Item → Option β := fun item => (f item).filter q
  have hlists : Lists P (placesOf picked tags) := by
    refine lists_placesOf h.sorted fun p => ?_
    simp only [hP, picked, Option.filter_eq_some_iff]
  have hlength : (placesOf picked tags).length = ((tags.map (·.2)).filterMap picked).length :=
    (forall₂_placesOf (R := fun _ _ => True) fun _ _ _ _ _ => trivial).length_eq
  rw [hlists.encard_eq, hlength, List.countP_eq_length_filter, List.filter_filterMap]

theorem carries_iff (h : Tagging info [] 0 n' (stmtAt? body) tags) {l : String} {p : Path} :
    Carries body l p ↔ ∃ item s, (p, item) ∈ tags ∧ scopeOf? item = some s ∧ s.label = l := by
  rw [Carries, h.headed_iff]
  constructor
  · rintro ⟨s, hs, hlabel⟩
    obtain ⟨labels, hs⟩ := mem_scopeTags.mp hs
    exact ⟨_, s, hs, rfl, hlabel⟩
  · rintro ⟨item, s, hmem, hs, hlabel⟩
    cases item with
    | scope s' labels =>
      cases hs
      exact ⟨s, mem_scopeTags.mpr ⟨labels, hmem⟩, hlabel⟩
    | verb v => cases hs

theorem namesLabel_iff (h : Tagging info [] 0 n' (stmtAt? body) tags) {l : String} {p : Path} :
    NamesLabel body l p ↔ ∃ item v, (p, item) ∈ tags ∧ verbOf? item = some v ∧ v.label = l := by
  -- What is written at the place of a verb is the verb that the walk met.
  have hlabel : ∀ {v : VerbUse} {kind label span}, (p, .verb v) ∈ tags →
      stmtAt? body p = some (.verb kind label span) → v.label = labelText label := by
    intro v kind label span hmem hstmt
    obtain ⟨kind', label', span', hstmt', hclass⟩ := h.fits p _ hmem
    rw [hstmt] at hstmt'
    cases hstmt'
    exact congrArg Written.label (classify_eq_ok hclass).2.1
  constructor
  · rintro ⟨kind, label, span, hstmt, rfl⟩
    obtain ⟨item, v, hmem, hv⟩ := (h.hasVerb_iff p).mp ⟨kind, label, span, hstmt⟩
    cases item with
    | scope s labels => cases hv
    | verb v' =>
      cases hv
      exact ⟨_, v, hmem, rfl, hlabel hmem hstmt⟩
  · rintro ⟨item, v, hmem, hv, rfl⟩
    obtain ⟨kind, label, span, hstmt⟩ := (h.hasVerb_iff p).mpr ⟨item, v, hmem, hv⟩
    cases item with
    | scope s labels => cases hv
    | verb v' =>
      cases hv
      exact ⟨kind, label, span, hstmt, (hlabel hmem hstmt).symm⟩

/-- A verb with a label stays in its unit if it lies in a scope of that label. -/
theorem isLocal_iff (h : Tagging info [] 0 n' (stmtAt? body) tags) {v : VerbUse} {p : Path}
    (hmem : (p, .verb v) ∈ tags) (hlabel : v.label ≠ "") : v.isLocal = true ↔ InScopeOf body v.label p := by
  obtain ⟨kind, label, span, -, hclass⟩ := h.fits p _ hmem
  obtain ⟨-, hwritten, hlocal, -⟩ := classify_eq_ok hclass
  have hsame : v.label = labelText label := congrArg Written.label hwritten
  rw [hlocal, ← hsame, boundary?, if_neg hlabel, List.find?_isSome]
  constructor
  · rintro ⟨s, hs, hsame⟩
    obtain ⟨q, hq, hencl⟩ := mem_around.mp hs
    exact ⟨q, hencl, h.headed_iff.mpr ⟨s, hq, of_decide_eq_true hsame⟩⟩
  · rintro ⟨q, hencl, hq⟩
    obtain ⟨s, hs, hsame⟩ := h.headed_iff.mp hq
    exact ⟨s, mem_around.mpr ⟨q, hs, hencl⟩, decide_eq_true hsame⟩

end Tagging

/-- The views of the resolution count the places of the unit. -/
structure Counts (body : List Stmt) (r : Resolution) : Prop where
  used : ∀ l, l ∈ r.usedLabels ↔ l ≠ "" ∧ ∃ p, Carries body l p ∨ NamesLabel body l p
  definitions : ∀ l, {p | Carries body l p}.encard = (r.stat l).definitions
  locals : ∀ l, l ≠ "" → {p | NamesLabel body l p ∧ InScopeOf body l p}.encard = (r.stat l).locals
  nonLocals : ∀ l, l ≠ "" → {p | NamesLabel body l p ∧ ¬ InScopeOf body l p}.encard = (r.stat l).nonLocals
  labeled : {p | ∃ l, l ≠ "" ∧ NamesLabel body l p}.encard = r.verbs.countP (·.label ≠ "")

theorem counts_of_resolve {info : UnitInfo} {body : List Stmt} {r : Resolution} (h : resolve info body = .ok r) :
    Counts body r := by
  simp only [resolve, bind_eq_ok, pure_eq_ok, Prod.exists] at h
  obtain ⟨items, n, hwalk, rfl⟩ := h
  obtain ⟨tags, rfl, htags⟩ := exists_tagging hwalk
  have hlocal : ∀ {l}, l ≠ "" → ∀ {p item v}, (p, item) ∈ tags → verbOf? item = some v → v.label = l →
      (v.isLocal = true ↔ InScopeOf body l p) := by
    rintro l hl p item v hmem hv rfl
    cases item with
    | scope s labels => cases hv
    | verb v' =>
      cases hv
      exact htags.isLocal_iff hmem hl
  -- The verbs of a label that stay in the unit and those that leave it are counted in the same way.
  have huses : ∀ {l}, l ≠ "" → ∀ stays : Bool,
      {p | NamesLabel body l p ∧ (InScopeOf body l p ↔ stays = true)}.encard =
        ((tags.map (·.2)).filterMap verbOf?).countP fun v => v.label = l && v.isLocal == stays := by
    intro l hl stays
    refine htags.encard_eq fun p => ?_
    simp only [htags.namesLabel_iff, Bool.and_eq_true, decide_eq_true_eq, beq_iff_eq]
    constructor
    · rintro ⟨⟨item, v, hmem, hv, hlabel⟩, hscope⟩
      exact ⟨item, v, hmem, hv, hlabel, Bool.eq_iff_iff.mpr ((hlocal hl hmem hv hlabel).trans hscope)⟩
    · rintro ⟨item, v, hmem, hv, hlabel, rfl⟩
      exact ⟨⟨item, v, hmem, hv, hlabel⟩, (hlocal hl hmem hv hlabel).symm⟩
  constructor
  case used =>
    intro l
    simp only [Resolution.usedLabels, Text.mem_sortTexts, List.mem_filter, List.mem_append, List.mem_map,
      decide_eq_true_eq, htags.carries_iff, htags.namesLabel_iff]
    rw [and_comm]
    refine and_congr_right fun _ => ?_
    constructor
    · rintro (⟨sc, hsc, rfl⟩ | ⟨v, hv, rfl⟩)
      · obtain ⟨item, hitem, hpick⟩ := List.mem_filterMap.mp hsc
        obtain ⟨⟨p, item⟩, hmem, rfl⟩ := List.mem_map.mp hitem
        exact ⟨p, .inl ⟨item, sc, hmem, hpick, rfl⟩⟩
      · obtain ⟨item, hitem, hpick⟩ := List.mem_filterMap.mp hv
        obtain ⟨⟨p, item⟩, hmem, rfl⟩ := List.mem_map.mp hitem
        exact ⟨p, .inr ⟨item, v, hmem, hpick, rfl⟩⟩
    · rintro ⟨p, ⟨item, sc, hmem, hpick, rfl⟩ | ⟨item, v, hmem, hpick, rfl⟩⟩
      · exact .inl ⟨sc, List.mem_filterMap.mpr ⟨item, List.mem_map.mpr ⟨_, hmem, rfl⟩, hpick⟩, rfl⟩
      · exact .inr ⟨v, List.mem_filterMap.mpr ⟨item, List.mem_map.mpr ⟨_, hmem, rfl⟩, hpick⟩, rfl⟩
  case definitions =>
    intro l
    refine htags.encard_eq (f := scopeOf?) fun p => ?_
    simp only [htags.carries_iff, decide_eq_true_eq]
  case locals =>
    intro l hl
    have hstay := huses hl true
    simp only [iff_true, beq_true] at hstay
    exact hstay
  case nonLocals =>
    intro l hl
    have hleave := huses hl false
    simp only [Bool.false_eq_true, iff_false, beq_false] at hleave
    exact hleave
  case labeled =>
    refine htags.encard_eq (f := verbOf?) fun p => ?_
    simp only [htags.namesLabel_iff, decide_eq_true_eq]
    constructor
    · rintro ⟨l, hl, item, v, hmem, hv, rfl⟩
      exact ⟨item, v, hmem, hv, hl⟩
    · rintro ⟨item, v, hmem, hv, hlabel⟩
      exact ⟨v.label, hlabel, item, v, hmem, hv, rfl⟩

/-! ## Several units -/

/-- The sum is a fold, so what it comes to is said for any total to start from. -/
theorem foldl_add_stat (rs : List Resolution) (l : String) (total : LabelStat) :
    rs.foldl (fun total r => total.add (r.stat l)) total =
      ⟨total.label, total.definitions + (rs.map fun r => (r.stat l).definitions).sum,
        total.locals + (rs.map fun r => (r.stat l).locals).sum,
        total.nonLocals + (rs.map fun r => (r.stat l).nonLocals).sum⟩ := by
  induction rs generalizing total with
  | nil => rfl
  | cons r rs ih =>
    rw [List.foldl_cons, ih]
    simp only [LabelStat.add, List.map_cons, List.sum_cons, Nat.add_assoc]

theorem sumStat_eq (rs : List Resolution) (l : String) :
    sumStat rs l = ⟨l, (rs.map fun r => (r.stat l).definitions).sum, (rs.map fun r => (r.stat l).locals).sum,
      (rs.map fun r => (r.stat l).nonLocals).sum⟩ := by
  rw [sumStat, foldl_add_stat]
  simp only [Nat.zero_add]

theorem label_sumStat (rs : List Resolution) (l : String) : (sumStat rs l).label = l := by
  rw [sumStat_eq]

theorem Resolution.stat_verbs (r : Resolution) (l : String) :
    (r.stat l).locals + (r.stat l).nonLocals = r.verbs.countP (·.label = l) := by
  rw [List.countP_eq_countP_filter_add r.verbs _ VerbUse.isLocal, List.countP_filter, List.countP_filter]
  simp [Resolution.stat]

theorem sum_countP_label {labels : List String} (h : labels.Nodup) (vs : List VerbUse) :
    (labels.map fun l => vs.countP (·.label = l)).sum = vs.countP (·.label ∈ labels) := by
  induction labels with
  | nil => simp
  | cons l labels ih =>
    obtain ⟨hnew, hrest⟩ := List.nodup_cons.mp h
    -- A verb names the first label or one of the others, and not both.
    rw [List.map_cons, List.sum_cons, ih hrest,
      List.countP_eq_countP_filter_add vs (·.label ∈ l :: labels) (·.label = l), List.countP_filter,
      List.countP_filter]
    congr 1
    · refine List.countP_congr fun v _ => ?_
      simp +contextual
    · refine List.countP_congr fun v _ => ?_
      simp only [List.mem_cons, decide_eq_true_eq, Bool.and_eq_true, Bool.not_eq_true', decide_eq_false_iff_not]
      constructor
      · intro hv
        exact ⟨.inr hv, fun heq => hnew (heq ▸ hv)⟩
      · rintro ⟨hv, hne⟩
        exact hv.resolve_left hne

theorem placesIn_eq {bodies : List (List Stmt)} {rs : List Resolution} {P : List Stmt → Path → Prop}
    {count : Resolution → Nat} (h : List.Forall₂ (fun body r => {p | P body p}.encard = count r) bodies rs) :
    placesIn bodies P = (rs.map count).sum := by
  induction h with
  | nil => simp [placesIn]
  | cons hbody _ ih =>
    simp only [placesIn, List.map_cons, List.sum_cons] at ih ⊢
    rw [hbody, ih, Nat.cast_add]

theorem map_label_report (rs : List Resolution) :
    (report rs).map (·.label) = Text.sortTexts (rs.flatMap Resolution.usedLabels) := by
  rw [report, List.map_map, Function.comp_def]
  simp only [label_sumStat, List.map_id']

theorem exists_used_iff {bodies : List (List Stmt)} {rs : List Resolution} (h : List.Forall₂ Counts bodies rs)
    (l : String) :
    (∃ r ∈ rs, l ∈ r.usedLabels) ↔ l ≠ "" ∧ ∃ body ∈ bodies, ∃ p, Carries body l p ∨ NamesLabel body l p := by
  induction h with
  | nil => simp
  | cons hbody _ ih =>
    simp only [List.mem_cons, exists_eq_or_imp, hbody.used, ih]
    exact and_or_left.symm

theorem sum_uses_report (rs : List Resolution) (hne : ∀ r ∈ rs, ∀ l ∈ r.usedLabels, l ≠ "") :
    ((report rs).map fun row => row.locals + row.nonLocals).sum =
      (rs.map fun r => r.verbs.countP (·.label ≠ "")).sum := by
  let labels := Text.sortTexts (rs.flatMap Resolution.usedLabels)
  have hlabel : ∀ r ∈ rs, ∀ v ∈ r.verbs, v.label ∈ labels ↔ v.label ≠ "" := by
    intro r hr v hv
    rw [Text.mem_sortTexts, List.mem_flatMap]
    constructor
    · rintro ⟨r', hr', hmem⟩
      exact hne r' hr' _ hmem
    · intro hv'
      refine ⟨r, hr, Text.mem_sortTexts.mpr (List.mem_filter.mpr ⟨?_, by simpa using hv'⟩)⟩
      exact List.mem_append_right _ (List.mem_map.mpr ⟨v, hv, rfl⟩)
  -- A row counts the verbs of one label in all units; together the rows count those of all labels.
  calc ((report rs).map fun row => row.locals + row.nonLocals).sum
      = (labels.map fun l => (rs.flatMap Resolution.verbs).countP (·.label = l)).sum := by
        rw [report, List.map_map]
        congr 1
        refine List.map_congr_left fun l _ => ?_
        simp only [Function.comp_apply, sumStat_eq, ← List.sum_map_add, Resolution.stat_verbs, List.countP_flatMap]
        rfl
    _ = (rs.flatMap Resolution.verbs).countP (·.label ∈ labels) :=
        sum_countP_label ((Text.sorted_sortTexts _).imp fun hlt => String.ne_of_lt hlt) _
    _ = (rs.map fun r => r.verbs.countP (·.label ≠ "")).sum := by
        rw [List.countP_flatMap]
        congr 1
        refine List.map_congr_left fun r hr => List.countP_congr fun v hv => ?_
        simpa using hlabel r hr v hv

theorem tallies_report {bodies : List (List Stmt)} {rs : List Resolution} (h : List.Forall₂ Counts bodies rs) :
    Tallies bodies (report rs) := by
  have hlabels := map_label_report rs
  have hne : ∀ r ∈ rs, ∀ l ∈ r.usedLabels, l ≠ "" := fun r hr l hl =>
    ((exists_used_iff h l).mp ⟨r, hr, hl⟩).1
  -- A row is the sum of what the resolutions say about its label, and no label is empty.
  have hrow : ∀ row ∈ report rs, row = sumStat rs row.label ∧ row.label ≠ "" := by
    intro row hrow
    obtain ⟨l, hl, rfl⟩ := List.mem_map.mp hrow
    obtain ⟨r, hr, hused⟩ := List.mem_flatMap.mp (Text.mem_sortTexts.mp hl)
    rw [label_sumStat]
    exact ⟨rfl, hne r hr l hused⟩
  constructor
  case sorted =>
    rw [hlabels]
    exact Text.sorted_sortTexts _
  case complete =>
    intro l
    rw [hlabels, Text.mem_sortTexts, List.mem_flatMap, exists_used_iff h]
  case definitions =>
    intro row hmem
    rw [placesIn_eq (h.imp fun _ _ hbody => hbody.definitions row.label), (hrow row hmem).1, sumStat_eq]
  case locals =>
    intro row hmem
    obtain ⟨hrow, hlabel⟩ := hrow row hmem
    rw [placesIn_eq (h.imp fun _ _ hbody => hbody.locals row.label hlabel), hrow, sumStat_eq]
  case nonLocals =>
    intro row hmem
    obtain ⟨hrow, hlabel⟩ := hrow row hmem
    rw [placesIn_eq (h.imp fun _ _ hbody => hbody.nonLocals row.label hlabel), hrow, sumStat_eq]
  case total =>
    rw [sum_uses_report rs hne, placesIn_eq (h.imp fun _ _ hbody => hbody.labeled)]

end Label

end KestrelLang
