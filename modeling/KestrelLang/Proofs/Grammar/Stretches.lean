import KestrelLang.Proofs.Grammar.TreeProperties
import Mathlib.Data.List.TakeWhile

/-! # Where the tokens stand

The tokens of a text and what stands between them make up the whole text.

* `Position.after` — line and column after some characters, counted from the characters alone.
* `Trivia` — white space and comments.
* `Token.Stands` — a token is what a stretch of text says, and it stands where that stretch stands.
* `Covers` — the stretches of some tokens, one after the other, with trivia around them.
* `eof_tokenize` — the tokens of a text end where the text ends.
* `tokens_cover_text` — nothing but trivia is lost when a text is split. -/

namespace KestrelLang

/-! ## Lines and columns -/

/-- The place after `read` has been read from the start of a text: one line for each line break, and one column
    for each character since the last of them. -/
def Position.after (read : List Char) : Position :=
  ⟨read.count '\n' + 1, (read.reverse.takeWhile (· ≠ '\n')).length + 1⟩

theorem Position.advanceAll_append (p : Position) (cs ds : List Char) :
    p.advanceAll (cs ++ ds) = (p.advanceAll cs).advanceAll ds := List.foldl_append

theorem Position.after_concat (read : List Char) (c : Char) :
    Position.after (read ++ [c]) = (Position.after read).advance c := by
  by_cases hbreak : c = '\n'
  · subst hbreak
    simp [Position.after, Position.advance]
  · simp [Position.after, Position.advance, hbreak]

theorem Position.after_append (before read : List Char) :
    Position.after (before ++ read) = (Position.after before).advanceAll read := by
  induction read generalizing before with
  | nil => simp [Position.advanceAll]
  | cons c read ih =>
    show Position.after (before ++ c :: read) = ((Position.after before).advance c).advanceAll read
    rw [← Position.after_concat, ← ih, List.append_assoc, List.singleton_append]

theorem Position.after_eq (read : List Char) : Position.after read = Position.first.advanceAll read :=
  Position.after_append [] read

/-! ## Between the tokens -/

/-- White space and comments. A comment runs up to the end of its line, and only the last line of a text, where
    `atEnd` holds, may end without a line break. -/
inductive Trivia (atEnd : Bool) : List Char → Prop
  | nil : Trivia atEnd []
  | blank {c : Char} {cs : List Char} : Text.isBlank c = true → Trivia atEnd cs → Trivia atEnd (c :: cs)
  | comment {words cs : List Char} : '\n' ∉ words → Trivia atEnd cs → Trivia atEnd ('#' :: (words ++ '\n' :: cs))
  | unfinished {words : List Char} : atEnd = true → '\n' ∉ words → Trivia atEnd ('#' :: words)

theorem Trivia.word {atEnd : Bool} {c : Char} {cs : List Char} (h : Trivia atEnd ('#' :: cs)) (hc : c ≠ '\n') :
    Trivia atEnd ('#' :: c :: cs) := by
  cases h with
  | blank hblank _ => exact absurd hblank (by decide)
  | @comment words cs hwords htail =>
    have hlonger : '\n' ∉ c :: words := List.not_mem_cons_of_ne_of_not_mem hc.symm hwords
    exact .comment hlonger htail
  | unfinished hend hwords => exact .unfinished hend (List.not_mem_cons_of_ne_of_not_mem hc.symm hwords)

/-! ## Tokens and their stretches -/

/-- The token is what the characters `stretch` say by themselves, and it stands where they stand behind `before`. -/
structure Token.Stands (t : Token) (before stretch : List Char) : Prop where
  nonempty : stretch ≠ []
  start : t.start = .after before
  stop : t.stop = .after (before ++ stretch)
  alone : Lexer.tokenize stretch = .ok ⟨[⟨t.lexeme, .first, .after stretch⟩], .after stretch⟩

/-- Behind the characters `before`, the text is made of the stretches of the tokens in their order, and of trivia. -/
inductive Covers : List Char → List Char → List Token → Prop
  | done {before cs : List Char} : Trivia true cs → Covers before cs []
  | token {before gap stretch cs : List Char} {t : Token} {ts : List Token} : Trivia false gap →
    t.Stands (before ++ gap) stretch → Covers (before ++ gap ++ stretch) cs ts →
    Covers before (gap ++ stretch ++ cs) (t :: ts)

namespace Lexer

open KestrelLang.Text

variable {pos start stop : Position} {c : Char} {cs rest : List Char} {lexeme : Lexeme} {n : Nat}

/-! ## Trivia is what is passed over -/

/-- What is passed over is trivia, and the place moves along with it. Inside of a comment the sign that opened the
    comment is missing. -/
theorem trivia_skipTrivia (inComment : Bool) (pos : Position) (cs : List Char) :
    ∃ gap, cs = gap ++ (skipTrivia inComment pos cs).rest ∧
      (skipTrivia inComment pos cs).pos = pos.advanceAll gap ∧
      Trivia (skipTrivia inComment pos cs).rest.isEmpty (if inComment then '#' :: gap else gap) := by
  fun_induction skipTrivia inComment pos cs with
  | case1 inComment pos =>
    refine ⟨[], rfl, rfl, ?_⟩
    cases inComment with
    | false => exact .nil
    | true => exact .unfinished rfl (List.not_mem_nil)
  | case2 pos c cs ih =>
    obtain ⟨gap, hcs, hpos, hgap⟩ := ih
    refine ⟨c :: gap, congrArg (c :: ·) hcs, hpos, ?_⟩
    by_cases hbreak : c = '\n'
    · subst hbreak
      have hnone : '\n' ∉ ([] : List Char) := List.not_mem_nil
      exact .comment hnone hgap
    · simp only [hbreak, ne_eq, not_false_eq_true, decide_true, if_true] at hgap ⊢
      exact hgap.word hbreak
  | case3 inComment pos c cs hopen hblank ih =>
    obtain ⟨gap, hcs, hpos, hgap⟩ := ih
    refine ⟨c :: gap, congrArg (c :: ·) hcs, hpos, ?_⟩
    rw [if_neg hopen]
    exact .blank hblank hgap
  | case4 inComment pos cs hopen hblank ih =>
    obtain ⟨gap, hcs, hpos, hgap⟩ := ih
    refine ⟨'#' :: gap, congrArg ('#' :: ·) hcs, hpos, ?_⟩
    rw [if_neg hopen]
    exact hgap
  | case5 inComment pos c cs hopen hblank hcomment =>
    refine ⟨[], rfl, rfl, ?_⟩
    rw [if_neg hopen]
    exact .nil

theorem skipTrivia_again {inComment : Bool} (h : skipTrivia inComment pos cs = ⟨start, c :: rest⟩)
    (p : Position) (more : List Char) : skipTrivia false p (c :: more) = ⟨p, c :: more⟩ := by
  fun_induction skipTrivia inComment pos cs with
  | case1 => cases h
  | case2 pos d cs ih => exact ih h
  | case3 inComment pos d cs hopen hblank ih => exact ih h
  | case4 inComment pos cs hopen hblank ih => exact ih h
  | case5 inComment pos d cs hopen hblank hcomment =>
    cases h
    simp [skipTrivia, hblank, hcomment]

/-! ## Scanners on their own stretch

A scanner looks at most at the characters behind its token to see that the token ends there, and it takes the end of
the text for the same sign. -/

theorem take_takeWhile (p : Char → Bool) (cs : List Char) : cs.take (cs.takeWhile p).length = cs.takeWhile p :=
  (List.prefix_iff_eq_take.mp (List.takeWhile_prefix p)).symm

theorem scanWord_alone (cs : List Char) : scanWord (cs.take (scanWord cs).2) = scanWord cs := by
  unfold scanWord
  dsimp only
  rw [take_takeWhile, List.takeWhile_idem]

theorem scanNumber_whole {whole : List Char} (hwhole : ∀ w ∈ whole, isNumberChar w = true) :
    scanNumber whole = (.int (String.ofList (whole.filter (· ≠ '_'))), whole.length) := by
  have hsplit : whole.takeWhile isNumberChar = whole := List.takeWhile_eq_self_iff.mpr hwhole
  simp [scanNumber, hsplit]

theorem scanNumber_fraction {whole fraction : List Char} {d : Char} (hwhole : ∀ w ∈ whole, isNumberChar w = true)
    (hfraction : ∀ w ∈ d :: fraction, isDigit w = true) :
    scanNumber (whole ++ '.' :: d :: fraction) =
      (.float (String.ofList (whole.filter (· ≠ '_') ++ '.' :: d :: fraction)),
        whole.length + 1 + (d :: fraction).length) := by
  have hsplit : (whole ++ '.' :: d :: fraction).takeWhile isNumberChar = whole := by
    rw [List.takeWhile_append_of_pos hwhole, List.takeWhile_cons_of_neg (by decide), List.append_nil]
  have hdigits : (d :: fraction).takeWhile isDigit = d :: fraction := List.takeWhile_eq_self_iff.mpr hfraction
  simp only [scanNumber, hsplit, hdigits, List.drop_left, hfraction d List.mem_cons_self, if_true]

theorem scanNumber_alone (cs : List Char) : scanNumber (cs.take (scanNumber cs).2) = scanNumber cs := by
  have hwhole : ∀ w ∈ cs.takeWhile isNumberChar, isNumberChar w = true := fun w => List.mem_takeWhile_imp
  rw [scanNumber.eq_def cs]
  dsimp only
  split
  · rename_i d more hdrop
    split
    · rename_i hd
      have hfraction : ∀ w ∈ d :: more.takeWhile isDigit, isDigit w = true := by
        rw [← List.takeWhile_cons_of_pos hd]
        exact fun w => List.mem_takeWhile_imp
      have htake : cs.take ((cs.takeWhile isNumberChar).length + 1 + (d :: more.takeWhile isDigit).length) =
          cs.takeWhile isNumberChar ++ '.' :: d :: more.takeWhile isDigit := by
        rw [Nat.add_assoc, List.take_add, take_takeWhile, hdrop, Nat.add_comm 1, List.take_succ_cons, List.length_cons,
          List.take_succ_cons, take_takeWhile]
      rw [List.takeWhile_cons_of_pos hd, htake]
      exact scanNumber_fraction hwhole hfraction
    · rw [take_takeWhile]
      exact scanNumber_whole hwhole
  · rw [take_takeWhile]
    exact scanNumber_whole hwhole

theorem scanContents_alone {mark : Char} {contents : List Char} (h : scanContents mark cs = some (contents, n)) :
    scanContents mark (cs.take n) = some (contents, n) := by
  fun_induction scanContents mark cs generalizing contents n with
  | case1 => cases h
  | case2 cs =>
    cases h
    simp [scanContents]
  | case3 => cases h
  | case4 e cs hmark ih =>
    obtain ⟨⟨inner, k⟩, hinner, hparts⟩ := Option.map_eq_some_iff.mp h
    cases hparts
    simp [scanContents, hmark, ih hinner]
  | case5 d cs hmark hescape ih =>
    obtain ⟨⟨inner, k⟩, hinner, hparts⟩ := Option.map_eq_some_iff.mp h
    cases hparts
    rw [List.take_succ_cons, scanContents.eq_def]
    simp [hmark, hescape, ih hinner]

theorem scanPunct_alone (h : scanPunct c cs = some (lexeme, n + 1)) :
    scanPunct c (cs.take n) = some (lexeme, n + 1) := by
  cases cs with
  | nil => simpa using h
  | cons d cs =>
    cases hpair : Punct.ofPair? c d with
    | some p =>
      have hfound : some (Lexeme.punct p, 2) = some (lexeme, n + 1) := by simpa [scanPunct, hpair] using h
      cases hfound
      simp [scanPunct, hpair]
    | none =>
      have hfound : (Punct.ofChar? c).map (fun p => (Lexeme.punct p, 1)) = some (lexeme, n + 1) := by
        simpa [scanPunct, hpair] using h
      obtain ⟨p, hp, hparts⟩ := Option.map_eq_some_iff.mp hfound
      cases hparts
      simp [scanPunct, hp]

theorem scanToken_alone (h : scanToken c rest = .ok (lexeme, n + 1)) :
    scanToken c (rest.take n) = .ok (lexeme, n + 1) := by
  -- The four kinds of tokens in the order in which the lexer tries them; what rules a kind out is the first character.
  unfold scanToken at h ⊢
  by_cases hword : isWordStart c = true
  · rw [if_pos hword] at h ⊢
    have halone := scanWord_alone (c :: rest)
    rw [Except.ok.inj h, List.take_succ_cons] at halone
    rw [halone]
  rw [if_neg hword] at h ⊢
  by_cases hdigit : isDigit c = true
  · rw [if_pos hdigit] at h ⊢
    have halone := scanNumber_alone (c :: rest)
    rw [Except.ok.inj h, List.take_succ_cons] at halone
    rw [halone]
  rw [if_neg hdigit] at h ⊢
  by_cases hquote : (c = '"' || c = '\'') = true
  · rw [if_pos hquote] at h ⊢
    cases hcontents : scanContents c rest with
    | none =>
      rw [hcontents] at h
      cases h
    | some found =>
      rw [hcontents] at h
      cases h
      rw [scanContents_alone hcontents]
  rw [if_neg hquote] at h ⊢
  cases hmark : scanPunct c rest with
  | none =>
    rw [hmark] at h
    cases h
  | some found =>
    rw [hmark] at h
    cases h
    rw [scanPunct_alone hmark]

theorem scan_alone {inComment : Bool} (h : skipTrivia inComment pos cs = ⟨start, c :: rest⟩)
    (hs : scanToken c rest = .ok (lexeme, n)) (p : Position) :
    scan p ((c :: rest).take n) =
      .ok ⟨[⟨lexeme, p, p.advanceAll ((c :: rest).take n)⟩], p.advanceAll ((c :: rest).take n)⟩ := by
  obtain ⟨k, rfl⟩ : ∃ k, n = k + 1 := ⟨n - 1, (Nat.succ_pred_eq_of_pos (scanToken_pos hs)).symm⟩
  have hlength : (c :: rest.take k).length ≤ k + 1 := Nat.succ_le_succ (List.length_take_le k rest)
  have hall : (c :: rest.take k).take (k + 1) = c :: rest.take k := List.take_of_length_le hlength
  have hnone : (c :: rest.take k).drop (k + 1) = [] := List.drop_of_length_le hlength
  rw [List.take_succ_cons, scan_of_token (skipTrivia_again h p _) (scanToken_alone hs), hall, hnone, scan_of_end rfl]
  rfl

/-! ## The whole text -/

theorem trivia_of_end (h : skipTrivia false pos cs = ⟨stop, []⟩) : stop = pos.advanceAll cs ∧ Trivia true cs := by
  obtain ⟨gap, hcs, hpos, hgap⟩ := trivia_skipTrivia false pos cs
  rw [h] at hcs hpos hgap
  rw [List.append_nil] at hcs
  subst hcs
  exact ⟨hpos, hgap⟩

theorem parts_of_token (h : skipTrivia false pos cs = ⟨start, c :: rest⟩) (n : Nat) :
    ∃ gap, cs = gap ++ (c :: rest).take n ++ (c :: rest).drop n ∧ start = pos.advanceAll gap ∧ Trivia false gap := by
  obtain ⟨gap, hcs, hpos, hgap⟩ := trivia_skipTrivia false pos cs
  rw [h] at hcs hpos hgap
  refine ⟨gap, ?_, hpos, hgap⟩
  rw [List.append_assoc, List.take_append_drop]
  exact hcs

theorem eof_scan {l : TokenList} (h : scan pos cs = .ok l) : l.eof = pos.advanceAll cs := by
  induction pos, cs using scan_induction generalizing l with
  | atEnd pos cs stop htrivia =>
    cases (scan_of_end htrivia).symm.trans h
    exact (trivia_of_end htrivia).1
  | atError pos cs start c rest cause htrivia hs => cases (scan_of_error htrivia hs).symm.trans h
  | atToken pos cs start c rest lexeme n htrivia hs ih =>
    obtain ⟨more, hmore, rfl⟩ := scan_rest htrivia hs h
    obtain ⟨gap, hcs, hstart, -⟩ := parts_of_token htrivia n
    rw [ih hmore, hstart, ← Position.advanceAll_append, ← Position.advanceAll_append,
      ← List.append_assoc, ← hcs]

theorem covers_scan {before : List Char} {l : TokenList} (h : scan (.after before) cs = .ok l) :
    Covers before cs l.tokens := by
  generalize hpos : Position.after before = pos at h
  induction pos, cs using scan_induction generalizing before l with
  | atEnd pos cs stop htrivia =>
    cases (scan_of_end htrivia).symm.trans h
    exact .done (trivia_of_end htrivia).2
  | atError pos cs start c rest cause htrivia hs => cases (scan_of_error htrivia hs).symm.trans h
  | atToken pos cs start c rest lexeme n htrivia hs ih =>
    obtain ⟨more, hmore, rfl⟩ := scan_rest htrivia hs h
    obtain ⟨gap, hcs, hstart, hgap⟩ := parts_of_token htrivia n
    have hfrom : Position.after (before ++ gap) = start := by rw [Position.after_append, hpos, hstart]
    have hto : Position.after (before ++ gap ++ (c :: rest).take n) = start.advanceAll ((c :: rest).take n) := by
      rw [Position.after_append, hfrom]
    -- A token covers at least one character.
    have hsome : (c :: rest).take n ≠ [] := by
      have hpos := scanToken_pos hs
      simp [Nat.ne_of_gt hpos]
    rw [hcs]
    refine .token hgap ⟨hsome, hfrom.symm, hto.symm, ?_⟩ (ih hto hmore)
    rw [Position.after_eq]
    exact scan_alone htrivia hs .first

theorem ne_eof_of_tokenize {text : List Char} {l : TokenList} (h : tokenize text = .ok l) :
    ∀ t ∈ l.tokens, t.lexeme ≠ .eof := by
  intro t ht heof
  have hscanned := ((scanned_scan (show (0 : Int) < 1 by decide) h).1 t ht).2
  rw [heof] at hscanned
  cases hscanned

/-- Nothing is lost when a text is split. The tokens are what disjoint stretches of the text say by themselves, in
    their order, with nothing but white space and comments around them; none of them is the end of the text, and the
    end stands behind the last character. -/
theorem tokens_cover_text {text : List Char} {l : TokenList} (h : tokenize text = .ok l) :
    Covers [] text l.tokens ∧ (∀ t ∈ l.tokens, t.lexeme ≠ .eof) ∧ l.eofToken = ⟨.eof, .after text, .after text⟩ := by
  refine ⟨covers_scan h, ne_eof_of_tokenize h, ?_⟩
  unfold TokenList.eofToken
  rw [eof_scan h, ← Position.after_eq]

/-! ## A range behind a comment -/

namespace Ranged

/-- A name with a comment behind it, and a range on the next line. -/
def text : List Char := ['n', ' ', '#', 'x', '\n', '1', '.', '.', '5']

def tokens : TokenList :=
  ⟨[⟨.ident "n", ⟨1, 1⟩, ⟨1, 2⟩⟩, ⟨.int "1", ⟨2, 1⟩, ⟨2, 2⟩⟩, ⟨.punct .range, ⟨2, 2⟩, ⟨2, 4⟩⟩,
    ⟨.int "5", ⟨2, 4⟩, ⟨2, 5⟩⟩], ⟨2, 5⟩⟩

theorem tokenize_ranged : tokenize text = .ok tokens := by
  have hn : scanToken 'n' (text.drop 1) = .ok (.ident "n", 1) := by decide +kernel
  have hone : scanToken '1' (text.drop 6) = .ok (.int "1", 1) := by decide +kernel
  have hfive : scanToken '5' [] = .ok (.int "5", 1) := by decide +kernel
  have hend : scan ⟨2, 5⟩ [] = .ok ⟨[], ⟨2, 5⟩⟩ := scan_of_end rfl
  have hrange := scan_cons ⟨2, 2⟩ (text.drop 6) rfl rfl (scan_cons ⟨2, 4⟩ (text.drop 8) rfl hfive hend)
  exact scan_cons ⟨1, 1⟩ text rfl hn (scan_cons ⟨1, 2⟩ (text.drop 1) rfl hone hrange)

/-- The comment and the line break stand between the tokens, and the range is no fraction. -/
theorem comment_is_left_out :
    tokenize text = .ok tokens ∧ Covers [] text tokens.tokens ∧ (∀ t ∈ tokens.tokens, t.lexeme ≠ .eof) ∧
      tokens.eofToken = ⟨.eof, .after text, .after text⟩ :=
  ⟨tokenize_ranged, tokens_cover_text tokenize_ranged⟩

end Ranged

end Lexer

end KestrelLang
