import KestrelLang.Grammar.Lexer
import KestrelLang.Text.Utf8

/-! # The tokens of a text that goes on

A line break ends every token but a string, and it ends a comment. So the tokens of a text are the first
tokens of whatever text goes on after a line break.

* `decodeUtf8_append_newline` — bytes on the two sides of a line break are decoded apart.
* `scan_append_newline` — a text that was split is split in the same way when more lines follow.
* `scan_append_of_error` — a place where no token can be read stays one, unless a string is open there.
* `Lexer.scan_cons`, `FirstLine.token` — to spell out the tokens of a text of one line. -/

namespace KestrelLang

/-! ## Bytes -/

namespace Text

theorem leadingChar_append_newline (b : UInt8) (bytes rest : List UInt8) :
    leadingChar b (bytes ++ 10 :: rest) = leadingChar b bytes := by
  have hfeed : isContinuation 10 = false := rfl
  unfold leadingChar
  -- Only the three bytes after the first one count, so it matters how many come before the line feed.
  rcases bytes with _ | ⟨b₁, _ | ⟨b₂, _ | ⟨b₃, bytes⟩⟩⟩
  · rcases rest with _ | ⟨c, _ | ⟨d, rest⟩⟩ <;> simp [pairChar?, tripleChar?, quadChar?, hfeed]
  · rcases rest with _ | ⟨c, rest⟩ <;> simp [tripleChar?, quadChar?, hfeed]
  · simp [quadChar?, hfeed]
  · simp

theorem leadingChar_used_le (b : UInt8) (bytes : List UInt8) : (leadingChar b bytes).2 ≤ bytes.length := by
  unfold leadingChar
  split
  · exact Nat.zero_le _
  · rcases bytes with _ | ⟨b₁, _ | ⟨b₂, _ | ⟨b₃, bytes⟩⟩⟩ <;> dsimp only
    · exact Nat.zero_le _
    · cases pairChar? b b₁ <;> simp
    · cases pairChar? b b₁ <;> cases tripleChar? b b₁ b₂ <;> simp
    · cases pairChar? b b₁ <;> cases tripleChar? b b₁ b₂ <;> cases quadChar? b b₁ b₂ b₃ <;> simp

theorem decodeFrom_append_newline {skip : Nat} {bytes : List UInt8} (hskip : skip ≤ bytes.length)
    (rest : List UInt8) :
    decodeFrom skip (bytes ++ 10 :: rest) = decodeFrom skip bytes ++ '\n' :: decodeUtf8 rest := by
  induction bytes generalizing skip with
  | nil =>
    obtain rfl : skip = 0 := Nat.le_zero.mp hskip
    rfl
  | cons b bytes ih =>
    cases skip with
    | succ skip => exact ih (Nat.le_of_succ_le_succ hskip)
    | zero =>
      simp only [List.cons_append, decodeFrom, leadingChar_append_newline]
      rw [ih (leadingChar_used_le b bytes)]

theorem decodeUtf8_append_newline (bytes rest : List UInt8) :
    decodeUtf8 (bytes ++ 10 :: rest) = decodeUtf8 bytes ++ '\n' :: decodeUtf8 rest :=
  decodeFrom_append_newline (Nat.zero_le _) rest

end Text

namespace Lexer

open KestrelLang.Text

variable {pos start stop : Position} {c : Char} {cs rest : List Char} {lexeme : Lexeme} {n : Nat}

/-! ## Trivia -/

theorem skipTrivia_append {inComment : Bool} (h : skipTrivia inComment pos cs = ⟨start, c :: rest⟩)
    (more : List Char) : skipTrivia inComment pos (cs ++ more) = ⟨start, c :: (rest ++ more)⟩ := by
  fun_induction skipTrivia inComment pos cs with
  | case1 => cases h
  | case2 pos d cs ih => simpa [skipTrivia] using ih h
  | case3 inComment pos d cs hopen hblank ih => simpa [skipTrivia, hopen, hblank] using ih h
  | case4 inComment pos cs hopen hblank ih => simpa [skipTrivia, hopen, hblank] using ih h
  | case5 inComment pos d cs hopen hblank hcomment =>
    cases h
    simp [skipTrivia, hopen, hblank, hcomment]

/-- A line break ends a comment, and otherwise it is white space. -/
theorem skipTrivia_append_newline {inComment : Bool} (h : skipTrivia inComment pos cs = ⟨stop, []⟩)
    (more : List Char) :
    skipTrivia inComment pos (cs ++ '\n' :: more) = skipTrivia false (stop.advance '\n') more := by
  fun_induction skipTrivia inComment pos cs with
  | case1 inComment pos =>
    cases h
    cases inComment <;> rfl
  | case2 pos d cs ih => simpa [skipTrivia] using ih h
  | case3 inComment pos d cs hopen hblank ih => simpa [skipTrivia, hopen, hblank] using ih h
  | case4 inComment pos cs hopen hblank ih => simpa [skipTrivia, hopen, hblank] using ih h
  | case5 => cases h

/-! ## One token -/

theorem takeWhile_append_newline {p : Char → Bool} (hp : p '\n' = false) (cs more : List Char) :
    (cs ++ '\n' :: more).takeWhile p = cs.takeWhile p := by
  induction cs with
  | nil => simp [hp]
  | cons d cs ih => simp [List.takeWhile_cons, ih]

theorem scanWord_append_newline (cs more : List Char) :
    scanWord (cs ++ '\n' :: more) = scanWord cs := by
  unfold scanWord
  rw [takeWhile_append_newline rfl]

theorem scanNumber_append_newline (cs more : List Char) :
    scanNumber (cs ++ '\n' :: more) = scanNumber cs := by
  have hwhole : (cs.takeWhile isNumberChar).length ≤ cs.length := (List.takeWhile_sublist _).length_le
  have hdigit : isDigit '\n' = false := rfl
  unfold scanNumber
  simp only [takeWhile_append_newline (show isNumberChar '\n' = false from rfl),
    List.drop_append_of_le_length hwhole]
  rcases cs.drop (cs.takeWhile isNumberChar).length with _ | ⟨point, _ | ⟨d, fraction⟩⟩
  · simp
  · by_cases hpoint : point = '.' <;> simp [hpoint, hdigit]
  · by_cases hpoint : point = '.'
    · subst hpoint
      have htail := takeWhile_append_newline hdigit (d :: fraction) more
      simp only [List.cons_append] at htail
      simp only [List.cons_append, htail]
    · simp [hpoint]

theorem scanContents_append {mark : Char} {contents : List Char}
    (h : scanContents mark cs = some (contents, n)) (more : List Char) :
    scanContents mark (cs ++ more) = some (contents, n) ∧ n ≤ cs.length := by
  fun_induction scanContents mark cs generalizing contents n with
  | case1 => cases h
  | case2 cs =>
    cases h
    rw [List.cons_append, scanContents.eq_def]
    simp
  | case3 => cases h
  | case4 e cs hmark ih =>
    obtain ⟨⟨inner, k⟩, hinner, hparts⟩ := Option.map_eq_some_iff.mp h
    cases hparts
    obtain ⟨hmore, hle⟩ := ih hinner
    refine ⟨?_, by simpa using hle⟩
    rw [List.cons_append, List.cons_append, scanContents.eq_def]
    simp [hmark, hmore]
  | case5 d cs hmark hescape ih =>
    obtain ⟨⟨inner, k⟩, hinner, hparts⟩ := Option.map_eq_some_iff.mp h
    cases hparts
    obtain ⟨hmore, hle⟩ := ih hinner
    refine ⟨?_, by simpa using hle⟩
    rw [List.cons_append, scanContents.eq_def]
    simp [hmark, hescape, hmore]

theorem scanPunct_append_newline (c : Char) (cs more : List Char) :
    scanPunct c (cs ++ '\n' :: more) = scanPunct c cs := by
  cases cs with
  | nil =>
    have hpair : Punct.ofPair? c '\n' = none := by
      unfold Punct.ofPair?
      split <;> simp_all
    simp [scanPunct, hpair]
  | cons d cs => rfl

theorem scanWord_le (cs : List Char) : (scanWord cs).2 ≤ cs.length := (List.takeWhile_sublist _).length_le

theorem scanNumber_le (cs : List Char) : (scanNumber cs).2 ≤ cs.length := by
  have hwhole : (cs.takeWhile isNumberChar).length ≤ cs.length := (List.takeWhile_sublist _).length_le
  unfold scanNumber
  dsimp only
  split
  · rename_i d fraction hdrop
    have hlength := congrArg List.length hdrop
    have hdigits : ((d :: fraction).takeWhile isDigit).length ≤ (d :: fraction).length :=
      (List.takeWhile_sublist _).length_le
    rw [List.length_drop] at hlength
    simp only [List.length_cons] at hlength hdigits
    split
    · dsimp only
      omega
    · exact hwhole
  · exact hwhole

theorem scanPunct_le {found : Lexeme × Nat} (h : scanPunct c cs = some found) : found.2 ≤ cs.length + 1 := by
  cases cs with
  | nil =>
    obtain ⟨p, -, rfl⟩ := Option.map_eq_some_iff.mp (show _ = some found from h)
    exact Nat.le_refl 1
  | cons d cs =>
    unfold scanPunct at h
    cases hpair : Punct.ofPair? c d with
    | some p =>
      simp only [hpair] at h
      cases h
      exact Nat.le_add_left 2 cs.length
    | none =>
      simp only [hpair] at h
      obtain ⟨p, -, rfl⟩ := Option.map_eq_some_iff.mp (show _ = some found from h)
      exact Nat.le_add_left 1 _

theorem scanToken_append_newline (h : scanToken c rest = .ok (lexeme, n)) (more : List Char) :
    scanToken c (rest ++ '\n' :: more) = .ok (lexeme, n) ∧ n ≤ (c :: rest).length := by
  unfold scanToken at h ⊢
  -- Words, numbers and marks stop before a line break; a string must have been closed already.
  rw [← List.cons_append, scanWord_append_newline, scanNumber_append_newline, scanPunct_append_newline]
  by_cases hword : isWordStart c = true
  · rw [if_pos hword] at h ⊢
    have hle := scanWord_le (c :: rest)
    rw [Except.ok.inj h] at hle
    exact ⟨h, hle⟩
  rw [if_neg hword] at h ⊢
  by_cases hdigit : isDigit c = true
  · rw [if_pos hdigit] at h ⊢
    have hle := scanNumber_le (c :: rest)
    rw [Except.ok.inj h] at hle
    exact ⟨h, hle⟩
  rw [if_neg hdigit] at h ⊢
  by_cases hquote : (c = '"' || c = '\'') = true
  · rw [if_pos hquote] at h ⊢
    cases hcontents : scanContents c rest with
    | none =>
      rw [hcontents] at h
      cases h
    | some found =>
      rw [hcontents] at h
      cases h
      obtain ⟨hmore, hle⟩ := scanContents_append hcontents ('\n' :: more)
      rw [hmore]
      exact ⟨rfl, Nat.succ_le_succ hle⟩
  rw [if_neg hquote] at h ⊢
  cases hmark : scanPunct c rest with
  | none =>
    rw [hmark] at h
    cases h
  | some found =>
    rw [hmark] at h
    cases h
    exact ⟨rfl, scanPunct_le hmark⟩

/-- Nothing that follows a line break makes a token of a character that starts none. -/
theorem scanToken_append_of_error {cause : ParseCause} (h : scanToken c rest = .error cause)
    (hclosed : cause ≠ .unterminatedString) (more : List Char) :
    scanToken c (rest ++ '\n' :: more) = .error cause := by
  unfold scanToken at h ⊢
  rw [scanPunct_append_newline]
  by_cases hword : isWordStart c = true
  · rw [if_pos hword] at h
    cases h
  rw [if_neg hword] at h ⊢
  by_cases hdigit : isDigit c = true
  · rw [if_pos hdigit] at h
    cases h
  rw [if_neg hdigit] at h ⊢
  by_cases hquote : (c = '"' || c = '\'') = true
  · rw [if_pos hquote] at h
    cases hcontents : scanContents c rest <;> rw [hcontents] at h <;> cases h
    exact absurd rfl hclosed
  rw [if_neg hquote] at h ⊢
  exact h

/-! ## The whole text -/

/-- The tokens of `l`, and after them those of `l'`, whose text ends where the whole text ends. -/
def TokenList.append (l l' : TokenList) : TokenList := ⟨l.tokens ++ l'.tokens, l'.eof⟩

theorem scan_of_end (h : skipTrivia false pos cs = ⟨stop, []⟩) : scan pos cs = .ok ⟨[], stop⟩ := by
  rw [scan]
  split <;> rename_i htrivia <;> cases htrivia.symm.trans h
  rfl

theorem scan_of_error (h : skipTrivia false pos cs = ⟨start, c :: rest⟩) {cause : ParseCause}
    (hs : scanToken c rest = .error cause) : scan pos cs = .error ⟨cause, start, ""⟩ := by
  rw [scan]
  split <;> rename_i htrivia <;> cases htrivia.symm.trans h
  split <;> rename_i htoken <;> cases htoken.symm.trans hs
  rfl

theorem scan_of_token (h : skipTrivia false pos cs = ⟨start, c :: rest⟩)
    (hs : scanToken c rest = .ok (lexeme, n)) :
    scan pos cs =
      (scan (start.advanceAll ((c :: rest).take n)) ((c :: rest).drop n)).map fun l =>
        ⟨⟨lexeme, start, start.advanceAll ((c :: rest).take n)⟩ :: l.tokens, l.eof⟩ := by
  rw [scan]
  split <;> rename_i htrivia <;> cases htrivia.symm.trans h
  split <;> rename_i htoken <;> cases htoken.symm.trans hs
  dsimp only [Cursor.skip]
  cases scan (start.advanceAll ((c :: rest).take n)) ((c :: rest).drop n) <;> rfl

/-- The tokens behind the first one are those of the text behind it. -/
theorem scan_rest (htrivia : skipTrivia false pos cs = ⟨start, c :: rest⟩)
    (hs : scanToken c rest = .ok (lexeme, n)) {l : TokenList} (h : scan pos cs = .ok l) :
    ∃ more, scan (start.advanceAll ((c :: rest).take n)) ((c :: rest).drop n) = .ok more ∧
      l = ⟨⟨lexeme, start, start.advanceAll ((c :: rest).take n)⟩ :: more.tokens, more.eof⟩ := by
  rw [scan_of_token htrivia hs] at h
  cases hrest : scan (start.advanceAll ((c :: rest).take n)) ((c :: rest).drop n) with
  | error e =>
    rw [hrest] at h
    cases h
  | ok more =>
    rw [hrest] at h
    cases h
    exact ⟨more, rfl, rfl⟩

/-- Behind a token that can be read, the complaint is one about the text behind it. -/
theorem scan_rest_of_error (htrivia : skipTrivia false pos cs = ⟨start, c :: rest⟩)
    (hs : scanToken c rest = .ok (lexeme, n)) {e : ParseError} (h : scan pos cs = .error e) :
    scan (start.advanceAll ((c :: rest).take n)) ((c :: rest).drop n) = .error e := by
  rw [scan_of_token htrivia hs] at h
  cases hrest : scan (start.advanceAll ((c :: rest).take n)) ((c :: rest).drop n) with
  | ok more =>
    rw [hrest] at h
    cases h
  | error e' =>
    rw [hrest] at h
    cases h
    rfl

theorem scan_cons (pos : Position) (cs : List Char) (h : skipTrivia false pos cs = ⟨start, c :: rest⟩)
    (hs : scanToken c rest = .ok (lexeme, n)) {more : List Token} {eof : Position}
    (hmore : scan (start.advanceAll ((c :: rest).take n)) ((c :: rest).drop n) = .ok ⟨more, eof⟩) :
    scan pos cs = .ok ⟨⟨lexeme, start, start.advanceAll ((c :: rest).take n)⟩ :: more, eof⟩ := by
  rw [scan_of_token h hs, hmore]
  rfl

/-- To know something of every text, know it of a text without tokens, of one that starts with no token, and
    of one that starts with a token if it is known of what comes after the token. -/
theorem scan_induction {P : Position → List Char → Prop}
    (atEnd : ∀ pos cs stop, skipTrivia false pos cs = ⟨stop, []⟩ → P pos cs)
    (atError : ∀ pos cs start c rest cause, skipTrivia false pos cs = ⟨start, c :: rest⟩ →
      scanToken c rest = .error cause → P pos cs)
    (atToken : ∀ pos cs start c rest lexeme n, skipTrivia false pos cs = ⟨start, c :: rest⟩ →
      scanToken c rest = .ok (lexeme, n) →
      P (start.advanceAll ((c :: rest).take n)) ((c :: rest).drop n) → P pos cs)
    (pos : Position) (cs : List Char) : P pos cs := by
  induction hlength : cs.length using Nat.strongRecOn generalizing pos cs with
  | ind length ih =>
    rcases htrivia : skipTrivia false pos cs with ⟨start, _ | ⟨c, rest⟩⟩
    · exact atEnd pos cs start htrivia
    · rcases hs : scanToken c rest with cause | ⟨lexeme, n⟩
      · exact atError pos cs start c rest cause htrivia hs
      · refine atToken pos cs start c rest lexeme n htrivia hs (ih _ ?_ _ _ rfl)
        have hpos := scanToken_pos hs
        have hlen := length_skipTrivia false pos cs
        rw [htrivia] at hlen
        simp only [List.length_drop, List.length_cons] at hlen ⊢
        omega

theorem scan_congr {pos' : Position} {cs' : List Char}
    (h : skipTrivia false pos cs = skipTrivia false pos' cs') : scan pos cs = scan pos' cs' := by
  rcases htrivia : skipTrivia false pos' cs' with ⟨start, _ | ⟨c, rest⟩⟩
  · rw [scan_of_end (h.trans htrivia), scan_of_end htrivia]
  · rcases hs : scanToken c rest with cause | ⟨lexeme, n⟩
    · rw [scan_of_error (h.trans htrivia) hs, scan_of_error htrivia hs]
    · rw [scan_of_token (h.trans htrivia) hs, scan_of_token htrivia hs]

/-- When more lines follow, the tokens of a text come first, and the rest is split by itself from the next
    line on. -/
theorem scan_append_newline {l : TokenList} (h : scan pos cs = .ok l) (more : List Char) :
    scan pos (cs ++ '\n' :: more) = (scan (l.eof.advance '\n') more).map l.append := by
  induction pos, cs using scan_induction generalizing l with
  | atEnd pos cs stop htrivia =>
    cases (scan_of_end htrivia).symm.trans h
    rw [scan_congr (skipTrivia_append_newline htrivia more)]
    cases scan (stop.advance '\n') more <;> rfl
  | atError pos cs start c rest cause htrivia hs => cases (scan_of_error htrivia hs).symm.trans h
  | atToken pos cs start c rest lexeme n htrivia hs ih =>
    obtain ⟨hmore, hle⟩ := scanToken_append_newline hs more
    obtain ⟨l', hrest, rfl⟩ := scan_rest htrivia hs h
    rw [scan_of_token (skipTrivia_append htrivia _) hmore, ← List.cons_append,
      List.take_append_of_le_length hle, List.drop_append_of_le_length hle, ih hrest]
    cases scan (l'.eof.advance '\n') more <;> rfl

/-- A place where no token can be read stays one when more lines follow, unless a string is open there. -/
theorem scan_append_of_error {e : ParseError} (h : scan pos cs = .error e)
    (hclosed : e.cause ≠ .unterminatedString) (more : List Char) :
    scan pos (cs ++ '\n' :: more) = .error e := by
  induction pos, cs using scan_induction with
  | atEnd pos cs stop htrivia => cases (scan_of_end htrivia).symm.trans h
  | atError pos cs start c rest cause htrivia hs =>
    cases (scan_of_error htrivia hs).symm.trans h
    exact scan_of_error (skipTrivia_append htrivia _) (scanToken_append_of_error hs hclosed more)
  | atToken pos cs start c rest lexeme n htrivia hs ih =>
    obtain ⟨hmore, hle⟩ := scanToken_append_newline hs more
    rw [scan_of_token (skipTrivia_append htrivia _) hmore, ← List.cons_append,
      List.take_append_of_le_length hle, List.drop_append_of_le_length hle, ih (scan_rest_of_error htrivia hs h)]
    rfl

end Lexer

/-! ## Texts of one line -/

namespace FirstLine

/-- The stretch of the first line between two columns. -/
def columns (start stop : Int) : Span := ⟨⟨1, start⟩, ⟨1, stop⟩⟩

def token (lexeme : Lexeme) (start stop : Int) : Token := ⟨lexeme, ⟨1, start⟩, ⟨1, stop⟩⟩

end FirstLine

end KestrelLang
