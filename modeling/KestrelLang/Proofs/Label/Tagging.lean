import KestrelLang.Proofs.Label.Places
import KestrelLang.Proofs.Label.Verbs

/-! # What a walk meets, and where

* `Encloses` — a place lies inside another one.
* `around` — the scopes around a place, the innermost first.
* `Tagging` — the items of a walk with their places: all scopes and verbs, in the order of the text, each resolved
  among the scopes around its place.
* `exists_tagging` — every walk that succeeds has such a tagging.
* `innermost_of_find?` — looking a scope up among those around a place finds the innermost one. -/

namespace KestrelLang

open KestrelLang.Label

/-! ## Places inside places -/

/-- The place `p` lies inside the statement at `q`. -/
def Encloses (q p : Path) : Prop := q ≠ p ∧ q <+: p

instance (q p : Path) : Decidable (Encloses q p) := inferInstanceAs (Decidable (_ ∧ _))

theorem encloses_cons {i j : Nat} {q p : Path} : Encloses (i :: q) (j :: p) ↔ i = j ∧ Encloses q p := by
  simp only [Encloses, ne_eq, List.cons.injEq, List.cons_prefix_cons]
  constructor
  · rintro ⟨hne, rfl, hpre⟩
    exact ⟨rfl, fun heq => hne ⟨rfl, heq⟩, hpre⟩
  · rintro ⟨rfl, hne, hpre⟩
    exact ⟨fun heq => hne heq.2, rfl, hpre⟩

theorem not_encloses_nil (q : Path) : ¬ Encloses q [] := by
  rintro ⟨hne, hpre⟩
  exact hne (List.prefix_nil.mp hpre)

theorem nil_encloses_cons (i : Nat) (p : Path) : Encloses [] (i :: p) := ⟨nofun, List.nil_prefix⟩

theorem prefix_not_lt {q p : Path} (h : q <+: p) : ¬ p < q := by
  obtain ⟨rest, rfl⟩ := h
  induction q with
  | nil => exact List.not_lt_nil _
  | cons i q ih =>
    rw [List.cons_append, List.cons_lt_cons_iff]
    rintro (hlt | ⟨-, hlt⟩)
    · exact Nat.lt_irrefl i hlt
    · exact ih hlt

theorem prefix_of_encloses {q q' p : Path} (h : Encloses q p) (h' : Encloses q' p) (hlt : q' < q) : q' <+: q := by
  obtain hpre | hpre := List.prefix_or_prefix_of_prefix h'.2 h.2
  · exact hpre
  · exact absurd hlt (prefix_not_lt hpre)

/-- Of the places with a property that enclose `p`, the innermost one. -/
structure Innermost (P : Path → Prop) (p q : Path) : Prop where
  holds : P q
  encloses : Encloses q p
  innermost : ∀ q', P q' → Encloses q' p → q' <+: q

namespace Label

/-! ## Tagged items -/

def scopeTags (tags : List (Path × Item)) : List (Path × Scope) :=
  tags.filterMap fun e =>
    match e.2 with
    | .scope s _ => some (e.1, s)
    | .verb _ => none

/-- The scopes around a place, the innermost first; those of `enclosing` are around all places. -/
def around (scopes : List (Path × Scope)) (enclosing : List Scope) (p : Path) : List Scope :=
  (scopes.filter fun e => Encloses e.1 p).reverse.map (·.2) ++ enclosing

def isMarked : Stmt → Bool
  | .bare .. | .whileLoop .. | .forLoop .. | .foreachLoop .. | .verb .. => true
  | .missing | .expr _ | .block _ | .ifChain .. | .tailCall .. | .ret .. | .sub .. => false

/-- The item says what there is to say about the statement, in the middle of the scopes `outer`. -/
def Fits (info : UnitInfo) (outer : List Scope) (s? : Option Stmt) : Item → Prop
  | .scope sc labels =>
    (∃ h, s?.bind Stmt.heading? = some h ∧ sc = scopeOf outer sc.id h) ∧ labels = outer.map (·.label)
  | .verb v =>
    ∃ kind label span, s? = some (.verb kind label span) ∧ classify info outer kind (labelText label) span = .ok v

/-- The tags are the loops, bare blocks and verbs of a tree in the order of the text, with what a walk that numbers
    scopes from `next` up to `next'` says about them. -/
structure Tagging (info : UnitInfo) (enclosing : List Scope) (next next' : Nat) (at? : Path → Option Stmt)
    (tags : List (Path × Item)) : Prop where
  sorted : tags.Pairwise (·.1 < ·.1)
  complete : ∀ p, (∃ item, (p, item) ∈ tags) ↔ ∃ s, at? p = some s ∧ isMarked s = true
  numbered : (scopeTags tags).map (·.2.id) = List.range' next (scopeTags tags).length
  next : next' = next + (scopeTags tags).length
  fits : ∀ p item, (p, item) ∈ tags → Fits info (around (scopeTags tags) enclosing p) (at? p) item

def relocate (f : Path → Path) (tags : List (Path × Item)) : List (Path × Item) := tags.map fun e => (f e.1, e.2)

@[simp] theorem scopeTags_nil : scopeTags [] = [] := rfl

@[simp] theorem scopeTags_scope (p : Path) (s : Scope) (labels : List String) (tags : List (Path × Item)) :
    scopeTags ((p, .scope s labels) :: tags) = (p, s) :: scopeTags tags := rfl

@[simp] theorem scopeTags_append (tags tags' : List (Path × Item)) :
    scopeTags (tags ++ tags') = scopeTags tags ++ scopeTags tags' :=
  List.filterMap_append ..

@[simp] theorem scopeTags_relocate (f : Path → Path) (tags : List (Path × Item)) :
    scopeTags (relocate f tags) = (scopeTags tags).map fun e => (f e.1, e.2) := by
  induction tags with
  | nil => rfl
  | cons e tags ih =>
    obtain ⟨p, item⟩ := e
    cases item with
    | scope s labels => exact congrArg (_ :: ·) ih
    | verb v => exact ih

theorem mem_scopeTags {tags : List (Path × Item)} {p : Path} {s : Scope} :
    (p, s) ∈ scopeTags tags ↔ ∃ labels, (p, .scope s labels) ∈ tags := by
  simp only [scopeTags, List.mem_filterMap]
  constructor
  · rintro ⟨⟨q, item⟩, hmem, heq⟩
    cases item with
    | scope s' labels =>
      cases heq
      exact ⟨labels, hmem⟩
    | verb v => cases heq
  · rintro ⟨labels, hmem⟩
    exact ⟨_, hmem, rfl⟩

theorem mem_relocate {f : Path → Path} {tags : List (Path × Item)} {p : Path} {item : Item} :
    (p, item) ∈ relocate f tags ↔ ∃ q, (q, item) ∈ tags ∧ f q = p := by
  simp only [relocate, List.mem_map, Prod.mk.injEq]
  constructor
  · rintro ⟨⟨q, item'⟩, hmem, rfl, rfl⟩
    exact ⟨q, hmem, rfl⟩
  · rintro ⟨q, hmem, rfl⟩
    exact ⟨_, hmem, rfl, rfl⟩

theorem filter_encloses_eq_nil {scopes : List (Path × Scope)} {p : Path} (h : ∀ e ∈ scopes, ¬ Encloses e.1 p) :
    (scopes.filter fun e => Encloses e.1 p) = [] := by
  rw [List.filter_eq_nil_iff]
  simpa using h

theorem around_map {f : Path → Path} {scopes : List (Path × Scope)} {p : Path}
    (hf : ∀ e ∈ scopes, Encloses (f e.1) (f p) ↔ Encloses e.1 p) (enclosing : List Scope) :
    around (scopes.map fun e => (f e.1, e.2)) enclosing (f p) = around scopes enclosing p := by
  have hfilter : (scopes.filter fun e => Encloses (f e.1) (f p)) = scopes.filter fun e => Encloses e.1 p :=
    List.filter_congr fun e he => by simp [hf e he]
  unfold around
  rw [List.filter_map, ← List.map_reverse, List.map_map, show ((fun e : Path × Scope =>
    decide (Encloses e.1 (f p))) ∘ fun e : Path × Scope => (f e.1, e.2)) =
    fun e => decide (Encloses (f e.1) (f p)) from rfl, hfilter]
  rfl

section Lookup

variable {scopes : List (Path × Scope)} {f : Scope → Bool} {p : Path}

theorem mem_around {s : Scope} : s ∈ around scopes [] p ↔ ∃ q, (q, s) ∈ scopes ∧ Encloses q p := by
  simp [around]

/-- The scope that is found first among those around a place is the innermost one: later places come first in
    `around`, and of two places around a third one the later lies inside the earlier. -/
theorem innermost_of_find? (hsorted : scopes.Pairwise (·.1 < ·.1)) {s : Scope}
    (h : (around scopes [] p).find? f = some s) :
    ∃ q, (q, s) ∈ scopes ∧ f s = true ∧ Encloses q p ∧
      ∀ q' s', (q', s') ∈ scopes → f s' = true → Encloses q' p → q' <+: q := by
  unfold around at h
  rw [List.append_nil, List.find?_map, Option.map_eq_some_iff] at h
  obtain ⟨⟨q, s⟩, hfind, rfl⟩ := h
  obtain ⟨hs, inner, outer, hsplit, hinner⟩ := List.find?_eq_some_iff_append.mp hfind
  have hmem : ∀ e, e ∈ inner ++ (q, s) :: outer ↔ e ∈ scopes ∧ Encloses e.1 p := by
    intro e
    rw [← hsplit]
    simp
  have hq := (hmem (q, s)).mp (List.mem_append_right _ List.mem_cons_self)
  have hlater : ∀ e ∈ outer, e.1 < q := by
    have hdecreasing : (inner ++ (q, s) :: outer).Pairwise fun e e' => e'.1 < e.1 := by
      rw [← hsplit, List.pairwise_reverse]
      exact hsorted.filter _
    exact (List.pairwise_cons.mp (List.pairwise_append.mp hdecreasing).2.1).1
  refine ⟨q, hq.1, hs, hq.2, fun q' s' hs' hf' hq' => ?_⟩
  -- Nothing before the scope that is found has the property, and what comes after it is further out.
  obtain hmem' | hmem' := List.mem_append.mp ((hmem (q', s')).mpr ⟨hs', hq'⟩)
  · have hnot := hinner _ hmem'
    simp [hf'] at hnot
  · obtain heq | hmem' := List.mem_cons.mp hmem'
    · cases heq
      exact List.prefix_refl _
    · exact prefix_of_encloses hq.2 hq' (hlater _ hmem')

end Lookup

/-! ## Taggings of walks -/

def afterFirst : Path → Path
  | [] => []
  | i :: p => (i + 1) :: p

def joinTags (tags tags' : List (Path × Item)) : List (Path × Item) :=
  relocate (List.cons 0) tags ++ relocate afterFirst tags'

section Joining

-- A place in a list of statements begins with the index of a statement.
variable {tags tags' : List (Path × Item)} (hplaced : ∀ e ∈ tags', ∃ i q, e.1 = i :: q)

include hplaced

theorem mem_joinTags {p : Path} {item : Item} :
    (p, item) ∈ joinTags tags tags' ↔
      match p with
      | [] => False
      | 0 :: q => (q, item) ∈ tags
      | (i + 1) :: q => (i :: q, item) ∈ tags' := by
  have hlater : ∀ {q}, (q, item) ∈ tags' → ∃ i q', q = i :: q' := fun hmem => hplaced _ hmem
  simp only [joinTags, List.mem_append, mem_relocate]
  constructor
  · rintro (⟨q, hmem, rfl⟩ | ⟨q, hmem, rfl⟩)
    · exact hmem
    · obtain ⟨i, q, rfl⟩ := hlater hmem
      exact hmem
  · intro h
    match p, h with
    | 0 :: q, h => exact .inl ⟨q, h, rfl⟩
    | (i + 1) :: q, h => exact .inr ⟨i :: q, h, rfl⟩

theorem sorted_joinTags (h : tags.Pairwise (·.1 < ·.1)) (h' : tags'.Pairwise (·.1 < ·.1)) :
    (joinTags tags tags').Pairwise (·.1 < ·.1) := by
  refine List.pairwise_append.mpr ⟨?_, ?_, ?_⟩
  · refine List.pairwise_map.mpr (h.imp fun {a b} hlt => ?_)
    exact List.cons_lt_cons_iff.mpr (.inr ⟨rfl, hlt⟩)
  · refine List.pairwise_map.mpr (h'.imp_of_mem fun {a b} ha hb hlt => ?_)
    obtain ⟨i, p, hp⟩ := hplaced a ha
    obtain ⟨j, q, hq⟩ := hplaced b hb
    rw [hp, hq] at hlt ⊢
    obtain hij | ⟨rfl, hpq⟩ := List.cons_lt_cons_iff.mp hlt
    · exact List.cons_lt_cons_iff.mpr (.inl (Nat.succ_lt_succ hij))
    · exact List.cons_lt_cons_iff.mpr (.inr ⟨rfl, hpq⟩)
  · rintro ⟨p, item⟩ hp ⟨q, item'⟩ hq
    obtain ⟨p', -, rfl⟩ := mem_relocate.mp hp
    obtain ⟨q', hq', rfl⟩ := mem_relocate.mp hq
    obtain ⟨j, q'', rfl⟩ := hplaced _ hq'
    exact List.cons_lt_cons_iff.mpr (.inl (Nat.succ_pos j))

/-- The scopes of the statements after the first one are not around its places. -/
theorem around_joinTags_first (enclosing : List Scope) (p : Path) :
    around (scopeTags (joinTags tags tags')) enclosing (0 :: p) = around (scopeTags tags) enclosing p := by
  have hothers : ((scopeTags tags').map fun e => (afterFirst e.1, e.2)).filter
      (fun e => Encloses e.1 (0 :: p)) = [] := by
    refine filter_encloses_eq_nil fun e he => ?_
    obtain ⟨⟨q, sc⟩, hsc, rfl⟩ := List.mem_map.mp he
    obtain ⟨labels, hsc⟩ := mem_scopeTags.mp hsc
    obtain ⟨j, q', rfl⟩ := hplaced _ hsc
    simp [afterFirst, encloses_cons]
  refine Eq.trans ?_ (around_map (f := List.cons 0) (fun e _ => by simp [encloses_cons]) enclosing)
  unfold around
  rw [joinTags, scopeTags_append, scopeTags_relocate, scopeTags_relocate, List.filter_append, hothers,
    List.append_nil]

theorem around_joinTags_later (enclosing : List Scope) (i : Nat) (p : Path) :
    around (scopeTags (joinTags tags tags')) enclosing ((i + 1) :: p) =
      around (scopeTags tags') enclosing (i :: p) := by
  have hfirst : ((scopeTags tags).map fun e => (0 :: e.1, e.2)).filter
      (fun e => Encloses e.1 ((i + 1) :: p)) = [] := by
    refine filter_encloses_eq_nil fun e he => ?_
    obtain ⟨⟨q, sc⟩, -, rfl⟩ := List.mem_map.mp he
    simp [encloses_cons]
  refine Eq.trans ?_ (around_map (f := afterFirst) (p := i :: p) (fun e he => ?_) enclosing)
  · unfold around
    rw [joinTags, scopeTags_append, scopeTags_relocate, scopeTags_relocate, List.filter_append, hfirst,
      List.nil_append]
    rfl
  · obtain ⟨labels, he⟩ := mem_scopeTags.mp he
    obtain ⟨j, q, hq⟩ : ∃ j q, e.1 = j :: q := hplaced _ he
    simp [hq, afterFirst, encloses_cons]

end Joining

namespace Tagging

variable {info : UnitInfo} {enclosing : List Scope} {n n₁ n₂ : Nat} {s : Stmt} {rest : List Stmt}
  {tags tags' : List (Path × Item)}

theorem nil : Tagging info enclosing n n (stmtAt? []) [] := by
  refine ⟨.nil, fun p => ?_, rfl, rfl, fun p item hmem => absurd hmem List.not_mem_nil⟩
  have hnone : stmtAt? [] p = none := by cases p <;> rfl
  simp [hnone]

theorem ne_nil (h : Tagging info enclosing n n₁ (stmtAt? rest) tags) {p : Path} {item : Item}
    (hmem : (p, item) ∈ tags) : ∃ i q, p = i :: q := by
  obtain ⟨t, ht, -⟩ := (h.complete p).mp ⟨item, hmem⟩
  cases p with
  | nil => cases ht
  | cons i q => exact ⟨i, q, rfl⟩

theorem cons (h : Tagging info enclosing n n₁ s.at? tags) (h' : Tagging info enclosing n₁ n₂ (stmtAt? rest) tags') :
    Tagging info enclosing n n₂ (stmtAt? (s :: rest)) (joinTags tags tags') := by
  have hplaced : ∀ e ∈ tags', ∃ i q, e.1 = i :: q := fun e he => h'.ne_nil he
  constructor
  · exact sorted_joinTags hplaced h.sorted h'.sorted
  · intro p
    match p with
    | [] => simp [mem_joinTags hplaced, stmtAt?]
    | 0 :: q =>
      simp only [mem_joinTags hplaced]
      exact h.complete q
    | (i + 1) :: q =>
      simp only [mem_joinTags hplaced]
      exact h'.complete (i :: q)
  · simp only [joinTags, scopeTags_append, scopeTags_relocate, List.map_append, List.map_map, List.length_append,
      List.length_map, Function.comp_def, h.numbered, h'.numbered, h.next, List.range'_append_1]
  · simp only [joinTags, scopeTags_append, scopeTags_relocate, List.length_append, List.length_map, h'.next, h.next]
    omega
  · intro p item hmem
    rw [mem_joinTags hplaced] at hmem
    match p, hmem with
    | 0 :: q, hmem =>
      rw [around_joinTags_first hplaced]
      exact h.fits q item hmem
    | (i + 1) :: q, hmem =>
      rw [around_joinTags_later hplaced]
      exact h'.fits (i :: q) item hmem

theorem heading {h : Heading} (hs : s.heading? = some h)
    (hparts : Tagging info (scopeOf enclosing n h :: enclosing) (n + 1) n₁ (stmtAt? s.parts) tags) :
    Tagging info enclosing n n₁ s.at? (([], scopeItem enclosing (scopeOf enclosing n h)) :: tags) := by
  have hmarked : isMarked s = true := by cases s <;> first | rfl | cases hs
  -- A path into the parts has one scope more around it than the same path of the parts alone.
  have haround : ∀ i q, around (([], scopeOf enclosing n h) :: scopeTags tags) enclosing (i :: q) =
      around (scopeTags tags) (scopeOf enclosing n h :: enclosing) (i :: q) := by
    intro i q
    simp [around, nil_encloses_cons]
  constructor
  · refine List.pairwise_cons.mpr ⟨fun e he => ?_, hparts.sorted⟩
    obtain ⟨i, q, hq⟩ := hparts.ne_nil he
    rw [hq]
    exact List.nil_lt_cons i q
  · intro p
    cases p with
    | nil => exact ⟨fun _ => ⟨s, rfl, hmarked⟩, fun _ => ⟨_, List.mem_cons_self⟩⟩
    | cons i p =>
      rw [Stmt.at?_cons, ← hparts.complete (i :: p)]
      simp
  · simp only [scopeItem, scopeTags_scope, List.map_cons, List.length_cons, hparts.numbered, List.range'_succ]
    rfl
  · simp only [scopeItem, scopeTags_scope, List.length_cons, hparts.next]
    omega
  · intro p item hmem
    simp only [scopeItem, scopeTags_scope]
    obtain heq | hmem := List.mem_cons.mp hmem
    · cases heq
      have hnone : around (([], scopeOf enclosing n h) :: scopeTags tags) enclosing [] = enclosing := by
        unfold around
        rw [filter_encloses_eq_nil fun e _ => not_encloses_nil _]
        rfl
      rw [hnone]
      exact ⟨⟨h, hs, rfl⟩, rfl⟩
    · obtain ⟨i, q, rfl⟩ := hparts.ne_nil hmem
      rw [haround]
      exact hparts.fits _ item hmem

theorem unmarked (hs : isMarked s = false) (hparts : Tagging info enclosing n n₁ (stmtAt? s.parts) tags) :
    Tagging info enclosing n n₁ s.at? tags := by
  have hat : ∀ i q, s.at? (i :: q) = stmtAt? s.parts (i :: q) := fun i q => rfl
  refine ⟨hparts.sorted, fun p => ?_, hparts.numbered, hparts.next, fun p item hmem => ?_⟩
  · cases p with
    | nil =>
      constructor
      · rintro ⟨item, hmem⟩
        obtain ⟨i, q, hq⟩ := hparts.ne_nil hmem
        cases hq
      · rintro ⟨t, ht, hmarked⟩
        cases ht
        rw [hs] at hmarked
        cases hmarked
    | cons i q => exact hparts.complete (i :: q)
  · obtain ⟨i, q, rfl⟩ := hparts.ne_nil hmem
    exact hparts.fits _ item hmem

theorem verb {kind : Verb} {label : Option Name} {span : Span} {v : VerbUse}
    (hv : classify info enclosing kind (labelText label) span = .ok v) :
    Tagging info enclosing n n (Stmt.at? (.verb kind label span)) [([], .verb v)] := by
  refine ⟨List.pairwise_singleton _ _, fun p => ?_, rfl, rfl, fun p item hmem => ?_⟩
  · cases p with
    | nil => exact ⟨fun _ => ⟨_, rfl, rfl⟩, fun _ => ⟨_, List.mem_singleton_self _⟩⟩
    | cons i q =>
      constructor
      · rintro ⟨item, hmem⟩
        cases List.mem_singleton.mp hmem
      · rintro ⟨t, ht, -⟩
        cases ht
  · cases List.mem_singleton.mp hmem
    exact ⟨kind, label, span, rfl, hv⟩

end Tagging

def Taggable (s : Stmt) : Prop :=
  ∀ (info : UnitInfo) (enclosing : List Scope) (n n' : Nat) (items : List Item),
    walkStmt info enclosing n s = .ok (items, n') →
    ∃ tags, tags.map (·.2) = items ∧ Tagging info enclosing n n' s.at? tags

theorem exists_tagging_of_parts {info : UnitInfo} {enclosing : List Scope} {n n' : Nat} {items : List Item}
    {stmts : List Stmt} (hparts : ∀ s ∈ stmts, Taggable s)
    (h : walkStmts info enclosing n stmts = .ok (items, n')) :
    ∃ tags, tags.map (·.2) = items ∧ Tagging info enclosing n n' (stmtAt? stmts) tags := by
  induction stmts generalizing n items with
  | nil =>
    simp only [walkStmts] at h
    cases h
    exact ⟨[], rfl, .nil⟩
  | cons s rest ih =>
    obtain ⟨hs, hrest⟩ := List.forall_mem_cons.mp hparts
    simp only [walkStmts, bind_eq_ok, pure_eq_ok, Prod.mk.injEq, Prod.exists] at h
    obtain ⟨first, n₁, hfirst, more, n₂, hmore, rfl, rfl⟩ := h
    obtain ⟨tags, rfl, htags⟩ := hs _ _ _ _ _ hfirst
    obtain ⟨tags', rfl, htags'⟩ := ih hrest hmore
    refine ⟨_, ?_, htags.cons htags'⟩
    simp [joinTags, relocate, Function.comp_def]

theorem taggable (s : Stmt) : Taggable s := by
  refine Stmt.parts_induction (fun s hparts => ?_) s
  intro info enclosing n n' items h
  obtain hplain | ⟨hd, hhd⟩ | ⟨kind, label, span, rfl⟩ | ⟨callee, args, reuse, span, rfl⟩ := isPlain_cases s
  · rw [walkStmt_of_plain _ _ _ hplain] at h
    obtain ⟨tags, hitems, htags⟩ := exists_tagging_of_parts hparts h
    refine ⟨tags, hitems, htags.unmarked ?_⟩
    cases s <;> first | rfl | cases hplain
  · rw [walkStmt_of_heading _ _ _ hhd] at h
    simp only [bind_eq_ok, pure_eq_ok, Prod.mk.injEq, Prod.exists] at h
    obtain ⟨inside, n₁, hinside, rfl, rfl⟩ := h
    obtain ⟨tags, rfl, htags⟩ := exists_tagging_of_parts hparts hinside
    exact ⟨_, rfl, htags.heading hhd⟩
  · simp only [walkStmt, bind_eq_ok, pure_eq_ok, Prod.mk.injEq] at h
    obtain ⟨v, hv, rfl, rfl⟩ := h
    exact ⟨_, rfl, .verb hv⟩
  -- A tail call leaves no trace in the items, if the walk gets past it.
  · simp only [walkStmt] at h
    split at h
    · cases h
      exact ⟨[], rfl, Tagging.nil.unmarked rfl⟩
    · cases h

theorem exists_tagging {info : UnitInfo} {enclosing : List Scope} {n n' : Nat} {items : List Item}
    {stmts : List Stmt} (h : walkStmts info enclosing n stmts = .ok (items, n')) :
    ∃ tags, tags.map (·.2) = items ∧ Tagging info enclosing n n' (stmtAt? stmts) tags :=
  exists_tagging_of_parts (fun s _ => taggable s) h

end Label

end KestrelLang
