import KestrelLang.Proofs.Label.Tagging

/-! # Lexical scoping of labels

The scopes and verbs of a resolution are those of the text, in the order of the text, and every number in it is that
of the scope which encloses a place most closely. Nothing here mentions a walk, a stack or a set of visible labels.

* `Lists` — a listing of the places with a property, in the order of the text.
* `NearestIs` — the number of the innermost scope with a property around a place.
* `Lexical` — a resolution says about a unit what its nesting says.
* `resolve_lexical` — every resolution is of this sort. -/

namespace KestrelLang

/-! ## Sorted texts -/

namespace Text

theorem mem_insertSorted {s t : String} {texts : List String} : t ∈ insertSorted s texts ↔ t = s ∨ t ∈ texts := by
  induction texts with
  | nil => simp [insertSorted]
  | cons u texts ih =>
    unfold insertSorted
    split
    · simp
    · split
      · simp_all
      · simp only [List.mem_cons, ih]
        exact or_left_comm

theorem sorted_insertSorted {s : String} {texts : List String} (h : texts.Pairwise (· < ·)) :
    (insertSorted s texts).Pairwise (· < ·) := by
  induction texts with
  | nil => exact List.pairwise_singleton _ _
  | cons u texts ih =>
    obtain ⟨hu, htexts⟩ := List.pairwise_cons.mp h
    unfold insertSorted
    split
    case isTrue hlt =>
      refine List.pairwise_cons.mpr ⟨fun t ht => ?_, h⟩
      obtain rfl | ht := List.mem_cons.mp ht
      · exact hlt
      · exact String.lt_trans hlt (hu t ht)
    case isFalse hnlt =>
      split
      · exact h
      · rename_i hne
        -- Neither smaller nor the same, the text has its place somewhere after the first one.
        refine List.pairwise_cons.mpr ⟨fun t ht => ?_, ih htexts⟩
        obtain rfl | ht := mem_insertSorted.mp ht
        · by_contra hcon
          exact hne (String.le_antisymm (String.not_lt.mp hcon) (String.not_lt.mp hnlt))
        · exact hu t ht

theorem mem_sortTexts {t : String} {texts : List String} : t ∈ sortTexts texts ↔ t ∈ texts := by
  induction texts with
  | nil => rfl
  | cons s texts ih => rw [show sortTexts (s :: texts) = insertSorted s (sortTexts texts) from rfl,
      mem_insertSorted, ih, List.mem_cons]

theorem sorted_sortTexts (texts : List String) : (sortTexts texts).Pairwise (· < ·) := by
  induction texts with
  | nil => exact .nil
  | cons s texts ih => exact sorted_insertSorted ih

end Text

/-! ## Listings -/

/-- The listing holds the places with the property, each once and in the order of the text. -/
structure Lists (P : Path → Prop) (places : List Path) : Prop where
  sorted : places.Pairwise (· < ·)
  complete : ∀ p, p ∈ places ↔ P p

def Headed (body : List Stmt) (P : Heading → Prop) (p : Path) : Prop := ∃ h, headingAt? body p = some h ∧ P h

def HasVerb (body : List Stmt) (p : Path) : Prop := ∃ kind label span, stmtAt? body p = some (.verb kind label span)

/-- At the place is a labeled scope inside another scope of the same label. -/
def Shadows (body : List Stmt) (p : Path) : Prop :=
  ∃ h, headingAt? body p = some h ∧ h.label ≠ "" ∧ ∃ q, Encloses q p ∧ Headed body (·.label = h.label) q

/-- The number is that of the innermost scope around the place with the property. There is no number exactly when no
    scope around the place has it. -/
def NearestIs (scopes : List Path) (P : Path → Prop) (p : Path) : Option Nat → Prop
  | some k => ∃ q, scopes[k]? = some q ∧ Innermost P p q
  | none => ∀ q, P q → ¬ Encloses q p

namespace Label

def Scope.heading (s : Scope) : Heading := ⟨s.node, s.label, s.isLoop, s.span⟩

def shadowRemark (origin : String) (h : Heading) : String :=
  located origin h.span ("label " ++ h.label ++ " shadows an enclosing label of the same name")

/-- The scope at `p` is described by its own heading and the scope around it. -/
def ScopeAt (body : List Stmt) (scopes : List Path) (p : Path) (s : Scope) : Prop :=
  headingAt? body p = some s.heading ∧ NearestIs scopes (Headed body fun _ => True) p s.parent

/-- The verb at `p` aims at the innermost loop around it if it has no label, and there is one; with a label it aims at
    the innermost scope around it that carries the label, and leaves the unit if there is none. -/
structure VerbAt (body : List Stmt) (scopes : List Path) (p : Path) (v : VerbUse) : Prop where
  written : ∃ label, stmtAt? body p = some (.verb v.verb label v.span) ∧ labelText label = v.label
  marker : MarkerKind.ofVerb? v.verb = some v.marker
  unlabeled : v.label = "" → v.isLocal = true ∧ NearestIs scopes (Headed body (·.isLoop = true)) p v.boundary
  labeled : v.label ≠ "" → NearestIs scopes (Headed body (·.label = v.label)) p v.boundary

/-- The resolution says about the unit what its nesting says. -/
structure Lexical (body : List Stmt) (r : Resolution) (scopes verbs shadowing : List Path) : Prop where
  scopes_listed : Lists (Headed body fun _ => True) scopes
  scopes_at : List.Forall₂ (ScopeAt body scopes) scopes r.scopes
  numbered : ∀ (n : Nat) (s : Scope), r.scopes[n]? = some s → s.id = n
  verbs_listed : Lists (HasVerb body) verbs
  verbs_at : List.Forall₂ (VerbAt body scopes) verbs r.verbs
  labels_sorted : r.labels.Pairwise (· < ·)
  labels_complete : ∀ l, l ∈ r.labels ↔ l ≠ "" ∧ ∃ p, Headed body (·.label = l) p
  shadowing_listed : Lists (Shadows body) shadowing
  warnings_at : List.Forall₂ (fun p w => ∃ h, headingAt? body p = some h ∧ w = shadowRemark r.origin h)
    shadowing r.warnings

/-! ## Places of items -/

section Picking

variable {β : Type} {f : Item → Option β} {tags : List (Path × Item)}

/-- The places of the items of which `f` makes something. -/
def placesOf (f : Item → Option β) (tags : List (Path × Item)) : List Path :=
  tags.filterMap fun e => (f e.2).map fun _ => e.1

theorem mem_placesOf {p : Path} : p ∈ placesOf f tags ↔ ∃ item b, (p, item) ∈ tags ∧ f item = some b := by
  simp only [placesOf, List.mem_filterMap, Option.map_eq_some_iff]
  constructor
  · rintro ⟨⟨q, item⟩, hmem, b, hb, rfl⟩
    exact ⟨item, b, hmem, hb⟩
  · rintro ⟨item, b, hmem, hb⟩
    exact ⟨_, hmem, b, hb, rfl⟩

theorem lists_placesOf {P : Path → Prop} (hsorted : tags.Pairwise (·.1 < ·.1))
    (h : ∀ p, P p ↔ ∃ item b, (p, item) ∈ tags ∧ f item = some b) : Lists P (placesOf f tags) := by
  refine ⟨?_, fun p => by rw [mem_placesOf, h]⟩
  refine List.pairwise_filterMap.mpr (hsorted.imp fun {e e'} hlt q hq q' hq' => ?_)
  obtain ⟨-, -, rfl⟩ := Option.map_eq_some_iff.mp hq
  obtain ⟨-, -, rfl⟩ := Option.map_eq_some_iff.mp hq'
  exact hlt

theorem forall₂_placesOf {R : Path → β → Prop} (h : ∀ p item b, (p, item) ∈ tags → f item = some b → R p b) :
    List.Forall₂ R (placesOf f tags) ((tags.map (·.2)).filterMap f) := by
  induction tags with
  | nil => exact .nil
  | cons e tags ih =>
    obtain ⟨p, item⟩ := e
    have hrest := ih fun q item' b hmem => h q item' b (List.mem_cons_of_mem _ hmem)
    cases hf : f item with
    | none => simpa [placesOf, hf] using hrest
    | some b =>
      have hcons := List.Forall₂.cons (h p item b List.mem_cons_self hf) hrest
      simpa [placesOf, hf] using hcons

end Picking

def scopeOf? : Item → Option Scope
  | .scope s _ => some s
  | .verb _ => none

def verbOf? : Item → Option VerbUse
  | .scope _ _ => none
  | .verb v => some v

def remarkOf? (origin : String) : Item → Option String
  | .scope s labels =>
    if s.label ≠ "" && labels.contains s.label then some (shadowRemark origin s.heading) else none
  | .verb _ => none

theorem Resolution.warnings_eq (r : Resolution) : r.warnings = r.items.filterMap (remarkOf? r.origin) := by
  refine congrArg (List.filterMap · r.items) ?_
  funext item
  cases item <;> rfl

theorem placesOf_scopeOf? (tags : List (Path × Item)) : placesOf scopeOf? tags = (scopeTags tags).map (·.1) := by
  induction tags with
  | nil => rfl
  | cons e tags ih =>
    obtain ⟨p, item⟩ := e
    cases item with
    | scope s labels => exact congrArg (p :: ·) ih
    | verb v => exact ih

theorem filterMap_scopeOf? (tags : List (Path × Item)) :
    (tags.map (·.2)).filterMap scopeOf? = (scopeTags tags).map (·.2) := by
  induction tags with
  | nil => rfl
  | cons e tags ih =>
    obtain ⟨p, item⟩ := e
    cases item with
    | scope s labels => exact congrArg (s :: ·) ih
    | verb v => exact ih

namespace Tagging

variable {info : UnitInfo} {n' : Nat} {body : List Stmt} {tags : List (Path × Item)}

theorem scopes_sorted (h : Tagging info [] 0 n' (stmtAt? body) tags) : (scopeTags tags).Pairwise (·.1 < ·.1) := by
  have hlisted := (lists_placesOf (f := scopeOf?) h.sorted fun _ => Iff.rfl).sorted
  rw [placesOf_scopeOf?] at hlisted
  exact List.pairwise_map.mp hlisted

theorem id_eq (h : Tagging info [] 0 n' (stmtAt? body) tags) {k : Nat} {e : Path × Scope}
    (he : (scopeTags tags)[k]? = some e) : e.2.id = k := by
  have hid := congrArg (·[k]?) h.numbered
  simp only [List.getElem?_map, he, Option.map_some] at hid
  have hk : k < (scopeTags tags).length := (List.getElem?_eq_some_iff.mp he).1
  rw [List.getElem?_range' hk] at hid
  simpa using hid

theorem heading_eq (h : Tagging info [] 0 n' (stmtAt? body) tags) {p : Path} {s : Scope}
    (hs : (p, s) ∈ scopeTags tags) : headingAt? body p = some s.heading := by
  obtain ⟨labels, hs⟩ := mem_scopeTags.mp hs
  obtain ⟨⟨hd, hhd, hscope⟩, -⟩ := h.fits p _ hs
  rw [hscope]
  exact hhd

theorem headed_iff (h : Tagging info [] 0 n' (stmtAt? body) tags) {P : Heading → Prop} {p : Path} :
    Headed body P p ↔ ∃ s, (p, s) ∈ scopeTags tags ∧ P s.heading := by
  constructor
  · rintro ⟨hd, hhd, hP⟩
    obtain ⟨t, ht, hheading⟩ := Option.bind_eq_some_iff.mp hhd
    have hmarked : isMarked t = true := by cases t <;> first | rfl | cases hheading
    obtain ⟨item, hmem⟩ := (h.complete p).mpr ⟨t, ht, hmarked⟩
    -- What is tagged at the place is a scope: a verb has no heading.
    cases item with
    | scope s labels =>
      have hs := mem_scopeTags.mpr ⟨labels, hmem⟩
      have heq := hhd.symm.trans (h.heading_eq hs)
      cases heq
      exact ⟨s, hs, hP⟩
    | verb v =>
      obtain ⟨kind, label, span, hverb, -⟩ := h.fits p _ hmem
      rw [hverb] at ht
      cases ht
      cases hheading
  · rintro ⟨s, hs, hP⟩
    exact ⟨s.heading, h.heading_eq hs, hP⟩

theorem nearest (h : Tagging info [] 0 n' (stmtAt? body) tags) {f : Scope → Bool} {P : Heading → Prop}
    (hf : ∀ s : Scope, f s = true ↔ P s.heading) (p : Path) :
    NearestIs ((scopeTags tags).map (·.1)) (Headed body P) p
      (((around (scopeTags tags) [] p).find? f).map (·.id)) := by
  cases hfind : (around (scopeTags tags) [] p).find? f with
  | none =>
    intro q hq hencl
    obtain ⟨s, hs, hP⟩ := h.headed_iff.mp hq
    exact List.find?_eq_none.mp hfind s (mem_around.mpr ⟨q, hs, hencl⟩) ((hf s).mpr hP)
  | some s =>
    obtain ⟨q, hs, hfs, hencl, hinner⟩ := innermost_of_find? h.scopes_sorted hfind
    obtain ⟨k, hk⟩ := List.getElem?_of_mem hs
    refine ⟨q, ?_, h.headed_iff.mpr ⟨s, hs, (hf s).mp hfs⟩, hencl, fun q' hq' hencl' => ?_⟩
    · obtain rfl : s.id = k := h.id_eq hk
      simp [hk]
    · obtain ⟨s', hs', hP'⟩ := h.headed_iff.mp hq'
      exact hinner q' s' hs' ((hf s').mpr hP') hencl'

theorem scopeAt (h : Tagging info [] 0 n' (stmtAt? body) tags) {p : Path} {s : Scope}
    (hs : (p, s) ∈ scopeTags tags) : ScopeAt body ((scopeTags tags).map (·.1)) p s := by
  refine ⟨h.heading_eq hs, ?_⟩
  have hnearest := h.nearest (f := fun _ => true) (P := fun _ => True) (fun s => by simp) p
  obtain ⟨labels, hs⟩ := mem_scopeTags.mp hs
  obtain ⟨⟨hd, -, hscope⟩, -⟩ := h.fits p _ hs
  have hparent : s.parent = ((around (scopeTags tags) [] p).find? fun _ => true).map (·.id) := by
    rw [hscope]
    cases hall : around (scopeTags tags) [] p <;> simp [scopeOf]
  rwa [hparent]

theorem verbAt (h : Tagging info [] 0 n' (stmtAt? body) tags) {p : Path} {v : VerbUse}
    (hv : (p, .verb v) ∈ tags) : VerbAt body ((scopeTags tags).map (·.1)) p v := by
  obtain ⟨kind, label, span, hstmt, hclass⟩ := h.fits p _ hv
  have hloop := h.nearest (f := Scope.isLoop) (P := (·.isLoop = true)) (fun s => Iff.rfl) p
  have hlabel := fun l => h.nearest (f := (·.label = l)) (P := (·.label = l))
    (fun s => by simp [Scope.heading]) p
  obtain ⟨hmarker, hwritten, -, hlabeled⟩ := classify_eq_ok hclass
  -- Whether the verb stays in the unit or leaves it, its boundary is what the lookup gives.
  have hboundary : v.boundary = (boundary? Scope.label Scope.isLoop (labelText label)
      (around (scopeTags tags) [] p)).map (·.id) := by
    unfold classify at hclass
    split at hclass
    · cases hclass
    · split at hclass
      · rename_i hsome
        cases hclass
        rw [hsome, Option.map_some]
      · rename_i hnone
        split at hclass
        · cases hclass
        · cases hclass
          rw [hnone, Option.map_none]
  obtain ⟨rfl, hname, rfl⟩ : v.verb = kind ∧ v.label = labelText label ∧ v.span = span := by
    simpa [VerbUse.written] using hwritten
  rw [← hname] at hboundary hlabeled
  refine ⟨⟨label, hstmt, hname.symm⟩, hmarker, fun hempty => ⟨?_, ?_⟩, fun hne => ?_⟩
  · by_contra hlocal
    exact hlabeled (by simpa using hlocal) hempty
  · rw [hboundary, boundary?, if_pos hempty]
    exact hloop
  · rw [hboundary, boundary?, if_neg hne]
    exact hlabel v.label

theorem hasVerb_iff (h : Tagging info [] 0 n' (stmtAt? body) tags) (p : Path) :
    HasVerb body p ↔ ∃ item v, (p, item) ∈ tags ∧ verbOf? item = some v := by
  constructor
  · rintro ⟨kind, label, span, hstmt⟩
    obtain ⟨item, hmem⟩ := (h.complete p).mpr ⟨_, hstmt, rfl⟩
    cases item with
    | scope s labels =>
      have hheading := h.heading_eq (mem_scopeTags.mpr ⟨labels, hmem⟩)
      rw [headingAt?, hstmt] at hheading
      cases hheading
    | verb v => exact ⟨_, v, hmem, rfl⟩
  · rintro ⟨item, v, hmem, hv⟩
    cases item with
    | scope s labels => cases hv
    | verb v =>
      obtain ⟨kind, label, span, hstmt, -⟩ := h.fits p _ hmem
      exact ⟨kind, label, span, hstmt⟩

theorem remarkOf?_eq_some {origin : String} {item : Item} {w : String} (hw : remarkOf? origin item = some w) :
    ∃ s labels, item = .scope s labels ∧ s.label ≠ "" ∧ s.label ∈ labels ∧ w = shadowRemark origin s.heading := by
  cases item with
  | scope s labels =>
    simp only [remarkOf?] at hw
    split at hw
    · rename_i hshadow
      cases hw
      simp only [ne_eq, Bool.and_eq_true, List.contains_iff_mem] at hshadow
      exact ⟨s, labels, rfl, by simpa using hshadow.1, hshadow.2, rfl⟩
    · cases hw
  | verb v => cases hw

theorem shadows_iff (h : Tagging info [] 0 n' (stmtAt? body) tags) (origin : String) (p : Path) :
    Shadows body p ↔ ∃ item w, (p, item) ∈ tags ∧ remarkOf? origin item = some w := by
  constructor
  · rintro ⟨hd, hhd, hne, q, hencl, hq⟩
    obtain ⟨s, hs, rfl⟩ := h.headed_iff.mp ⟨hd, hhd, rfl⟩
    obtain ⟨s', hs', hlabel⟩ := h.headed_iff.mp hq
    obtain ⟨labels, hs⟩ := mem_scopeTags.mp hs
    obtain ⟨-, rfl⟩ := h.fits p _ hs
    have hmem : s.label ∈ (around (scopeTags tags) [] p).map (·.label) :=
      List.mem_map.mpr ⟨s', mem_around.mpr ⟨q, hs', hencl⟩, hlabel⟩
    exact ⟨_, shadowRemark origin s.heading, hs, by simp_all [remarkOf?, Scope.heading]⟩
  · rintro ⟨item, w, hmem, hw⟩
    obtain ⟨s, labels, rfl, hne, hlabel, -⟩ := remarkOf?_eq_some hw
    obtain ⟨-, rfl⟩ := h.fits p _ hmem
    obtain ⟨s', hs', heq⟩ := List.mem_map.mp hlabel
    obtain ⟨q, hs', hencl⟩ := mem_around.mp hs'
    have hs := mem_scopeTags.mpr ⟨_, hmem⟩
    exact ⟨s.heading, h.heading_eq hs, hne, q, hencl, h.headed_iff.mpr ⟨s', hs', heq⟩⟩

end Tagging

/-- **Lexical label scoping.** A resolution lists the loops and bare blocks of its unit in the order of the text,
    each with its position as its number and the scope right around it as its parent; every verb aims at the innermost
    loop around it or, with a label, at the innermost scope around it that carries the label, and leaves the unit when
    there is none; its labels are those of the scopes; and its remarks are about the labeled scopes inside others of
    the same label. -/
theorem resolve_lexical {info : UnitInfo} {body : List Stmt} {r : Resolution} (h : resolve info body = .ok r) :
    r.origin = info.origin ∧ ∃ scopes verbs shadowing, Lexical body r scopes verbs shadowing := by
  simp only [resolve, bind_eq_ok, pure_eq_ok, Prod.exists] at h
  obtain ⟨items, n, hwalk, rfl⟩ := h
  obtain ⟨tags, rfl, htags⟩ := exists_tagging hwalk
  have hscopes : Resolution.scopes ⟨tags.map (·.2), info.origin⟩ = (scopeTags tags).map (·.2) :=
    filterMap_scopeOf? tags
  -- The witnesses are the places of the tagged items; each fact about them is one about the tagging.
  refine ⟨rfl, placesOf scopeOf? tags, placesOf verbOf? tags, placesOf (remarkOf? info.origin) tags, ?_⟩
  constructor
  case scopes_listed =>
    refine lists_placesOf htags.sorted fun p => ?_
    rw [htags.headed_iff]
    constructor
    · rintro ⟨s, hs, -⟩
      obtain ⟨labels, hs⟩ := mem_scopeTags.mp hs
      exact ⟨_, s, hs, rfl⟩
    · rintro ⟨item, s, hmem, hs⟩
      cases item with
      | scope s' labels => exact ⟨s', mem_scopeTags.mpr ⟨labels, hmem⟩, trivial⟩
      | verb v => cases hs
  case scopes_at =>
    refine forall₂_placesOf fun p item s hmem hs => ?_
    rw [placesOf_scopeOf?]
    cases item with
    | scope s' labels =>
      cases hs
      exact htags.scopeAt (mem_scopeTags.mpr ⟨labels, hmem⟩)
    | verb v => cases hs
  case numbered =>
    intro k s hs
    rw [hscopes, List.getElem?_map, Option.map_eq_some_iff] at hs
    obtain ⟨e, he, rfl⟩ := hs
    exact htags.id_eq he
  case verbs_listed => exact lists_placesOf htags.sorted htags.hasVerb_iff
  case verbs_at =>
    refine forall₂_placesOf fun p item v hmem hv => ?_
    rw [placesOf_scopeOf?]
    cases item with
    | scope s labels => cases hv
    | verb v' =>
      cases hv
      exact htags.verbAt hmem
  case labels_sorted => exact Text.sorted_sortTexts _
  case labels_complete =>
    intro l
    simp only [Resolution.labels, hscopes, Text.mem_sortTexts, List.mem_filter, List.map_map, List.mem_map,
      Function.comp_def, decide_eq_true_eq, Prod.exists, htags.headed_iff]
    constructor
    · rintro ⟨⟨p, s, hs, rfl⟩, hne⟩
      exact ⟨hne, p, s, hs, rfl⟩
    · rintro ⟨hne, p, s, hs, rfl⟩
      exact ⟨⟨p, s, hs, rfl⟩, hne⟩
  case shadowing_listed => exact lists_placesOf htags.sorted (htags.shadows_iff info.origin)
  case warnings_at =>
    rw [Resolution.warnings_eq]
    refine forall₂_placesOf fun p item w hmem hw => ?_
    obtain ⟨s, labels, rfl, -, -, rfl⟩ := Tagging.remarkOf?_eq_some hw
    exact ⟨s.heading, htags.heading_eq (mem_scopeTags.mpr ⟨labels, hmem⟩), rfl⟩

/-- A bare block inside a loop of the same label. Its verbs go to the loop, to the block and to a caller. -/
def nestedLabels : List Stmt :=
  let a : Option Name := some ⟨"A", ⟨⟨1, 1⟩, ⟨1, 2⟩⟩⟩
  let b : Option Name := some ⟨"B", ⟨⟨3, 15⟩, ⟨3, 16⟩⟩⟩
  [.whileLoop a (.int 1 ⟨⟨1, 11⟩, ⟨1, 12⟩⟩) false
    (.mk [.bare a
      (.mk [.verb .next none ⟨⟨3, 1⟩, ⟨3, 5⟩⟩, .verb .last a ⟨⟨3, 7⟩, ⟨3, 13⟩⟩, .verb .last b ⟨⟨3, 15⟩, ⟨3, 21⟩⟩]
        ⟨⟨2, 4⟩, ⟨4, 2⟩⟩) ⟨⟨2, 1⟩, ⟨4, 2⟩⟩] ⟨⟨1, 17⟩, ⟨5, 2⟩⟩) ⟨⟨1, 1⟩, ⟨5, 2⟩⟩]

theorem nestedLabels_lexical :
    ∃ r, resolve ⟨true, "a"⟩ nestedLabels = .ok r ∧
      r.scopes.map (·.parent) = [none, some 0] ∧ r.verbs.map (·.boundary) = [some 0, some 1, none] ∧
      r.labels = ["A"] ∧ r.warnings = ["a:2:1: label A shadows an enclosing label of the same name"] ∧
      r.origin = "a" ∧ ∃ scopes verbs shadowing, Lexical nestedLabels r scopes verbs shadowing := by
  refine ⟨_, rfl, rfl, rfl, rfl, ?_, ?_⟩
  · decide +kernel
  · exact @resolve_lexical ⟨true, "a"⟩ nestedLabels _ rfl

end Label

end KestrelLang
