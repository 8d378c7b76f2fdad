import KestrelLang.Proofs.Grammar.Stretches

/-! # Texts joined by a line break

What stands on the lines of a text does not depend on the lines above them, but for a string that is left open there.

* `Position.down`, `Token.down`, … — the same thing some lines further down.
* `scan_down` — a text is split in the same way on whichever line it starts.
* `count_decodeUtf8` — the line breaks of a text are its line feed bytes.
* `tokenize_join` — two texts with a line break between them are split apart. -/

namespace KestrelLang

/-! ## Further down -/

def Position.down (k : Nat) (p : Position) : Position := ⟨p.line + k, p.column⟩

def Token.down (k : Nat) (t : Token) : Token := ⟨t.lexeme, t.start.down k, t.stop.down k⟩

def ParseError.down (k : Nat) (e : ParseError) : ParseError := { e with place := e.place.down k }

namespace Lexer

def TokenList.down (k : Nat) (l : TokenList) : TokenList := ⟨l.tokens.map (·.down k), l.eof.down k⟩

end Lexer

theorem Position.advance_down (k : Nat) (p : Position) (c : Char) : (p.down k).advance c = (p.advance c).down k := by
  unfold Position.advance
  split
  · simp only [Position.down, Position.mk.injEq, and_true]
    omega
  · rfl

theorem Position.advanceAll_down (k : Nat) (p : Position) (cs : List Char) :
    (p.down k).advanceAll cs = (p.advanceAll cs).down k := by
  induction cs generalizing p with
  | nil => rfl
  | cons c cs ih =>
    show ((p.down k).advance c).advanceAll cs = ((p.advance c).advanceAll cs).down k
    rw [Position.advance_down, ih]

/-- Behind a text and a line break, the next line starts; it comes after all the lines of the text. -/
theorem Position.advance_after (cs : List Char) :
    (Position.after cs).advance '\n' = Position.first.down (1 + cs.count '\n') := by
  have hline : (cs.count '\n' + 1 : Int) + 1 = 1 + (1 + cs.count '\n' : Nat) := by omega
  exact congrArg (Position.mk · 1) hline

namespace Lexer

open KestrelLang.Text

variable {pos start stop : Position} {c : Char} {cs rest : List Char} {lexeme : Lexeme} {n : Nat}

theorem skipTrivia_down (k : Nat) (inComment : Bool) (pos : Position) (cs : List Char) :
    skipTrivia inComment (pos.down k) cs =
      ⟨(skipTrivia inComment pos cs).pos.down k, (skipTrivia inComment pos cs).rest⟩ := by
  fun_induction skipTrivia inComment pos cs with
  | case1 => rfl
  | case2 pos c cs ih => rw [skipTrivia, if_pos rfl, Position.advance_down, ih]
  | case3 inComment pos c cs hopen hblank ih =>
    rw [skipTrivia, if_neg hopen, if_pos hblank, Position.advance_down, ih]
  | case4 inComment pos cs hopen hblank ih =>
    rw [skipTrivia, if_neg hopen, if_neg hblank, if_pos rfl, Position.advance_down, ih]
  | case5 inComment pos c cs hopen hblank hcomment =>
    rw [skipTrivia, if_neg hopen, if_neg hblank, if_neg hcomment]

theorem scan_down {l : TokenList} (k : Nat) (h : scan pos cs = .ok l) : scan (pos.down k) cs = .ok (l.down k) := by
  induction pos, cs using scan_induction generalizing l with
  | atEnd pos cs stop htrivia =>
    cases (scan_of_end htrivia).symm.trans h
    have hdown := skipTrivia_down k false pos cs
    rw [htrivia] at hdown
    exact scan_of_end hdown
  | atError pos cs start c rest cause htrivia hs => cases (scan_of_error htrivia hs).symm.trans h
  | atToken pos cs start c rest lexeme n htrivia hs ih =>
    obtain ⟨more, hmore, rfl⟩ := scan_rest htrivia hs h
    have hdown := skipTrivia_down k false pos cs
    rw [htrivia] at hdown
    rw [scan_of_token hdown hs, Position.advanceAll_down, ih hmore]
    rfl

theorem scan_down_of_error {e : ParseError} (k : Nat) (h : scan pos cs = .error e) :
    scan (pos.down k) cs = .error (e.down k) := by
  induction pos, cs using scan_induction with
  | atEnd pos cs stop htrivia => cases (scan_of_end htrivia).symm.trans h
  | atError pos cs start c rest cause htrivia hs =>
    cases (scan_of_error htrivia hs).symm.trans h
    have hdown := skipTrivia_down k false pos cs
    rw [htrivia] at hdown
    exact scan_of_error hdown hs
  | atToken pos cs start c rest lexeme n htrivia hs ih =>
    have hdown := skipTrivia_down k false pos cs
    rw [htrivia] at hdown
    rw [scan_of_token hdown hs, Position.advanceAll_down, ih (scan_rest_of_error htrivia hs h)]
    rfl

end Lexer

/-! ## Line feeds -/

namespace Text

theorem ofNat_ne_newline {n : Nat} (h : n ≠ 10) : Char.ofNat n ≠ '\n' := by
  intro hbreak
  by_cases hvalid : n.isValidChar
  · have hcode : Char.ofNat n = Char.ofNatAux n hvalid := dif_pos hvalid
    exact h (congrArg Char.toNat (hcode.symm.trans hbreak))
  · have hzero : Char.ofNat n = '\x00' := dif_neg hvalid
    exact absurd (hzero.symm.trans hbreak) (by decide)

theorem pairChar_ne_newline (a b : UInt8) : pairChar? a b ≠ some '\n' := by
  intro h
  unfold pairChar? at h
  split at h
  · rename_i hrange
    simp only [Bool.and_eq_true, decide_eq_true_eq, UInt8.le_iff_toNat_le] at hrange
    have hlow : 0xc2 ≤ a.toNat := hrange.1.1
    have hhigh : a.toNat ≤ 0xdf := hrange.1.2
    exact ofNat_ne_newline (by omega) (Option.some.inj h)
  · cases h

theorem tripleChar_ne_newline (a b c : UInt8) : tripleChar? a b c ≠ some '\n' := by
  intro h
  unfold tripleChar? at h
  dsimp only at h
  split at h
  · rename_i hrange
    simp only [Bool.and_eq_true, decide_eq_true_eq] at hrange
    have hlow := hrange.1.2
    exact ofNat_ne_newline (by omega) (Option.some.inj h)
  · cases h

theorem quadChar_ne_newline (a b c d : UInt8) : quadChar? a b c d ≠ some '\n' := by
  intro h
  unfold quadChar? at h
  dsimp only at h
  split at h
  · rename_i hrange
    simp only [Bool.and_eq_true, decide_eq_true_eq] at hrange
    have hlow := hrange.1.2
    exact ofNat_ne_newline (by omega) (Option.some.inj h)
  · cases h

theorem reading_ne_newline {pair triple quad : Option Char} (hpair : pair ≠ some '\n') (htriple : triple ≠ some '\n')
    (hquad : quad ≠ some '\n') :
    ((pair.map (·, 1) <|> triple.map (·, 2) <|> quad.map (·, 3)).getD (replacement, 0)).1 ≠ '\n' := by
  cases pair <;> cases triple <;> cases quad <;> simp_all [replacement]

theorem leadingChar_ne_newline {b : UInt8} (h : b ≠ 10) (rest : List UInt8) : (leadingChar b rest).1 ≠ '\n' := by
  have hnone : (none : Option Char) ≠ some '\n' := nofun
  unfold leadingChar
  split
  · apply ofNat_ne_newline
    exact fun hten => h (UInt8.toNat_inj.mp hten)
  · rcases rest with _ | ⟨b₁, _ | ⟨b₂, _ | ⟨b₃, rest⟩⟩⟩
    · exact (reading_ne_newline hnone hnone hnone :)
    · exact (reading_ne_newline (pairChar_ne_newline b b₁) hnone hnone :)
    · exact (reading_ne_newline (pairChar_ne_newline b b₁) (tripleChar_ne_newline b b₁ b₂) hnone :)
    · exact reading_ne_newline (pairChar_ne_newline b b₁) (tripleChar_ne_newline b b₁ b₂)
        (quadChar_ne_newline b b₁ b₂ b₃)

theorem newline_notMem_decodeFrom {bytes : List UInt8} (h : 10 ∉ bytes) (skip : Nat) :
    '\n' ∉ decodeFrom skip bytes := by
  induction bytes generalizing skip with
  | nil => cases skip <;> exact List.not_mem_nil
  | cons b bytes ih =>
    obtain ⟨hb, hbytes⟩ := List.ne_and_not_mem_of_not_mem_cons h
    cases skip with
    | succ skip => exact ih hbytes skip
    | zero => exact List.not_mem_cons_of_ne_of_not_mem (leadingChar_ne_newline hb.symm bytes).symm (ih hbytes _)

theorem newline_notMem_decodeUtf8 {bytes : List UInt8} (h : 10 ∉ bytes) : '\n' ∉ decodeUtf8 bytes :=
  newline_notMem_decodeFrom h 0

theorem count_decodeUtf8 (bytes : List UInt8) : (decodeUtf8 bytes).count '\n' = bytes.count 10 := by
  induction hlength : bytes.length using Nat.strongRecOn generalizing bytes with
  | ind length ih =>
    by_cases hfeed : 10 ∈ bytes
    · -- Up to the first line feed there is none, and the bytes behind it are fewer.
      obtain ⟨line, rest, rfl, hline⟩ := List.eq_append_cons_of_mem hfeed
      have hrest := ih rest.length (by simp [← hlength]; omega) rest rfl
      rw [decodeUtf8_append_newline, List.count_append, List.count_cons_self, hrest, List.count_append,
        List.count_cons_self, List.count_eq_zero.mpr hline, List.count_eq_zero.mpr (newline_notMem_decodeUtf8 hline)]
    · rw [List.count_eq_zero.mpr hfeed, List.count_eq_zero.mpr (newline_notMem_decodeUtf8 hfeed)]

end Text

/-! ## Two texts -/

namespace Lexer

open KestrelLang.Text

/-- A text `s`, a line break and a text `t` are split apart. A complaint about `s` stays as it is, unless it is about
    a string that is left open. Otherwise the tokens of `t`, or the complaint about it, come behind the tokens of `s`,
    and what they say of lines counts the lines of `s` and the line break too. -/
theorem tokenize_join (s t : List UInt8) :
    (∀ e, tokenize (decodeUtf8 s) = .error e → e.cause ≠ .unterminatedString →
      tokenize (decodeUtf8 (s ++ 10 :: t)) = .error e) ∧
    (∀ l, tokenize (decodeUtf8 s) = .ok l →
      ((∃ joined, tokenize (decodeUtf8 (s ++ 10 :: t)) = .ok joined) ↔ ∃ l', tokenize (decodeUtf8 t) = .ok l') ∧
      (∀ l', tokenize (decodeUtf8 t) = .ok l' →
        tokenize (decodeUtf8 (s ++ 10 :: t)) = .ok (l.append (l'.down (1 + s.count 10)))) ∧
      (∀ e, tokenize (decodeUtf8 t) = .error e →
        tokenize (decodeUtf8 (s ++ 10 :: t)) = .error (e.down (1 + s.count 10)))) := by
  rw [decodeUtf8_append_newline]
  refine ⟨fun e hs hclosed => scan_append_of_error hs hclosed _, fun l hs => ?_⟩
  have hjoin : tokenize (decodeUtf8 s ++ '\n' :: decodeUtf8 t) =
      (scan (Position.first.down (1 + s.count 10)) (decodeUtf8 t)).map l.append := by
    rw [← count_decodeUtf8 s, ← Position.advance_after, Position.after_eq, ← eof_scan hs]
    exact scan_append_newline hs (decodeUtf8 t)
  cases ht : tokenize (decodeUtf8 t) with
  | ok l' =>
    rw [scan_down _ ht] at hjoin
    refine ⟨⟨fun _ => ⟨l', rfl⟩, fun _ => ⟨_, hjoin⟩⟩, fun l'' h => ?_, fun e h => ?_⟩
    · cases h
      exact hjoin
    · cases h
  | error e =>
    rw [scan_down_of_error _ ht] at hjoin
    refine ⟨⟨fun ⟨joined, h⟩ => ?_, fun ⟨l', h⟩ => ?_⟩, fun l' h => ?_, fun e' h => ?_⟩
    · cases hjoin.symm.trans h
    · cases h
    · cases h
    · cases h
      exact hjoin

/-! ## A third line -/

namespace Ranged

def bytes : List UInt8 := [110, 32, 35, 120, 10, 49, 46, 46, 53]

theorem decode_bytes : decodeUtf8 bytes = text := by decide

/-- A name on the line behind the text comes last and stands on the third line, and a sign that starts no token is
    complained about there. In front of the text, the same sign is complained about on the first line. -/
theorem third_line_is_split_alone :
    tokenize (decodeUtf8 (bytes ++ 10 :: [110])) =
        .ok ⟨tokens.tokens ++ [⟨.ident "n", ⟨3, 1⟩, ⟨3, 2⟩⟩], ⟨3, 2⟩⟩ ∧
      tokenize (decodeUtf8 (bytes ++ 10 :: [64])) = .error ⟨.unexpectedCharacter '@', ⟨3, 1⟩, ""⟩ ∧
      tokenize (decodeUtf8 ([64] ++ 10 :: bytes)) = .error ⟨.unexpectedCharacter '@', ⟨1, 1⟩, ""⟩ := by
  have hbytes : tokenize (decodeUtf8 bytes) = .ok tokens := by rw [decode_bytes, tokenize_ranged]
  have hname : tokenize (decodeUtf8 [110]) = .ok ⟨[⟨.ident "n", ⟨1, 1⟩, ⟨1, 2⟩⟩], ⟨1, 2⟩⟩ := by
    have hn : scanToken 'n' [] = .ok (.ident "n", 1) := by decide +kernel
    exact scan_cons ⟨1, 1⟩ ['n'] rfl hn (scan_of_end rfl)
  have hsign : tokenize (decodeUtf8 [64]) = .error ⟨.unexpectedCharacter '@', ⟨1, 1⟩, ""⟩ := by
    have hat : scanToken '@' [] = .error (.unexpectedCharacter '@') := by decide +kernel
    have hstart : skipTrivia false .first ['@'] = ⟨.first, ['@']⟩ := rfl
    exact scan_of_error hstart hat
  obtain ⟨-, hmore, -⟩ := (tokenize_join bytes [110]).2 tokens hbytes
  obtain ⟨-, -, hrefused⟩ := (tokenize_join bytes [64]).2 tokens hbytes
  exact ⟨hmore _ hname, hrefused _ hsign, (tokenize_join [64] bytes).1 _ hsign (by decide)⟩

end Ranged

end Lexer

end KestrelLang
