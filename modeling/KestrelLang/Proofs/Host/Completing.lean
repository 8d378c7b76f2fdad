import KestrelLang.Proofs.Grammar.Contexts
import KestrelLang.Proofs.Grammar.Wording

/-! # Texts that further lines complete

A text whose tokens end too early becomes a module once the lexemes that its parser lacks stand on further lines.

* `Filler.bytes`, `spelled` — the lexemes as lines of text.
* `completable_of_atEnd` — an error about the end of a text can be mended.
* `completable_iff_incomplete` — the texts that further lines complete are those whose error reads as incomplete,
  less those where a string only says so. -/

namespace KestrelLang

namespace Parser

/-! ## Lexemes as lines -/

def Filler.bytes (w : Filler) : List UInt8 := w.lexeme.text.toList.map fun c => UInt8.ofNat c.toNat

def spelled (words : List Filler) : List UInt8 := words.flatMap fun w => w.bytes ++ [10]

theorem scan_spelling {pos : Position} {c : Char} {rest : List Char} {lexeme : Lexeme}
    (htrivia : Lexer.skipTrivia false pos (c :: rest) = ⟨pos, c :: rest⟩)
    (htoken : Lexer.scanToken c rest = .ok (lexeme, (c :: rest).length)) :
    ∃ l, Lexer.scan pos (c :: rest) = .ok l ∧ l.tokens.map Token.lexeme = [lexeme] := by
  have hend : Lexer.scan (pos.advanceAll (c :: rest)) [] = .ok ⟨[], pos.advanceAll (c :: rest)⟩ := Lexer.scan_of_end rfl
  refine ⟨⟨[⟨lexeme, pos, pos.advanceAll (c :: rest)⟩], pos.advanceAll (c :: rest)⟩, ?_, rfl⟩
  rw [Lexer.scan_of_token htrivia htoken, List.take_length, List.drop_length]
  exact congrArg (Except.map _) hend

theorem scan_filler (w : Filler) (pos : Position) :
    ∃ l, Lexer.scan pos (Text.decodeUtf8 w.bytes) = .ok l ∧ l.tokens.map Token.lexeme = [w.lexeme] := by
  cases w with
  | name => exact scan_spelling rfl rfl
  | mark p => cases p <;> exact scan_spelling rfl rfl
  | word k => cases k <;> exact scan_spelling rfl rfl

theorem scan_spelled (words : List Filler) (pos : Position) :
    ∃ l, Lexer.scan pos (Text.decodeUtf8 (spelled words)) = .ok l ∧
      l.tokens.map Token.lexeme = words.map Filler.lexeme := by
  induction words generalizing pos with
  | nil => exact ⟨_, Lexer.scan_of_end rfl, rfl⟩
  | cons w words ih =>
    obtain ⟨l, hl, hw⟩ := scan_filler w pos
    obtain ⟨l', hl', hwords⟩ := ih (l.eof.advance '\n')
    refine ⟨l.append l', ?_, ?_⟩
    · rw [spelled, List.flatMap_cons, List.append_assoc, List.singleton_append, Text.decodeUtf8_append_newline,
        Lexer.scan_append_newline hl]
      exact congrArg (Except.map _) hl'
    · rw [Lexer.TokenList.append, List.map_append, hw, hwords]
      rfl

/-! ## Whole texts -/

def Completable (origin : String) (s : List UInt8) : Prop :=
  ∃ t m, parseModule origin (Text.decodeUtf8 (s ++ 10 :: t)) = .ok m

variable {origin : String} {s : List UInt8} {l : Lexer.TokenList} {e : ParseError}

theorem completable_of_atEnd (htokens : Lexer.tokenize (Text.decodeUtf8 s) = .ok l) (htree : parseTokens l = .error e)
    (hend : e.cause.AtEnd) : Completable origin s := by
  have hl : l.tokens ≠ [] := by
    -- The empty text is a module.
    intro hl
    obtain ⟨tokens, stop⟩ := l
    obtain rfl : tokens = [] := hl
    cases htree
  have hreal : ∀ t ∈ (Stream.ofTokens l).tokens, t.lexeme ≠ .eof := by
    intro t ht heof
    have hlexeme := ((scanned_ofTokens htokens).tokens t ht).2
    rw [heof] at hlexeme
    cases hlexeme
  have hrefused : Act.stmts none (Stream.ofTokens l) = .error e :=
    congrArg erase ((parseTokens_error_iff rfl e).mp htree)
  have hsteady := (below (Stream.ofTokens l).size).stmts (s := Stream.ofTokens l) none (Nat.lt_succ_self _)
  obtain ⟨words, hmends⟩ := hsteady.mend hreal hrefused hend
  obtain ⟨l', hl', hwords⟩ := scan_spelled words (l.eof.advance '\n')
  obtain ⟨body, last, hbody⟩ := hmends l'.tokens [] l'.eof hwords rfl
  have hlonger : Lexer.tokenize (Text.decodeUtf8 (s ++ 10 :: spelled words)) = .ok (l.append l') := by
    rw [Text.decodeUtf8_append_newline]
    exact (Lexer.scan_append_newline htokens _).trans (congrArg (Except.map _) hl')
  cases htree' : parseTokens (l.append l') with
  | ok m =>
    refine ⟨spelled words, m, ?_⟩
    rw [parseModule, hlonger]
    dsimp only
    rw [htree']
  | error e' =>
    have hrefused' := congrArg erase ((parseTokens_error_iff (Stream.ofTokens_append hl l') e').mp htree')
    rw [List.append_nil] at hbody
    cases hrefused'.symm.trans hbody

theorem atEnd_of_completable (h : parseModule origin (Text.decodeUtf8 s) = .error e) (hs : Completable origin s) :
    e.cause.AtEnd := by
  refine Classical.byContradiction fun hend => ?_
  obtain ⟨t, m, hm⟩ := hs
  obtain ⟨e', he'⟩ := parseModule_append_newline h hend (Text.decodeUtf8 t)
  rw [Text.decodeUtf8_append_newline, he'] at hm
  cases hm

end Parser

/-- Of the bytes that have tokens but are no module, those that further lines complete are those with an error that
    reads as incomplete, less those where it does so because it quotes a string about the end of the input. -/
theorem completable_iff_incomplete {origin : String} {s : List UInt8} {l : Lexer.TokenList} {e : ParseError}
    (htokens : Lexer.tokenize (Text.decodeUtf8 s) = .ok l)
    (h : Parser.parseModule origin (Text.decodeUtf8 s) = .error e) :
    Parser.Completable origin s ↔ e.isIncomplete = true ∧ ¬ e.cause.Misleads := by
  obtain ⟨e', rfl, hunreadable | ⟨l', hl', htree⟩⟩ := Parser.refused_cases h
  · cases htokens.symm.trans hunreadable
  cases htokens.symm.trans hl'
  have hfair : e'.cause.Fair := Parser.fair_of_parseTokens htokens htree
  rw [ParseError.isIncomplete_iff (e := { e' with origin := origin }) hfair]
  constructor
  · intro hs
    have hend := Parser.atEnd_of_completable h hs
    exact ⟨.inl hend, hend.not_misleads⟩
  · rintro ⟨hend | hmisleads, htrue⟩
    · exact Parser.completable_of_atEnd htokens htree hend
    · exact absurd hmisleads htrue

/-- An open brace can be closed. -/
theorem open_brace_is_completable :
    (∃ l, Lexer.tokenize (Text.decodeUtf8 [123]) = .ok l) ∧
      (∃ e, Parser.parseModule "a" (Text.decodeUtf8 [123]) = .error e ∧ e.isIncomplete = true ∧ ¬ e.cause.Misleads) ∧
      Parser.Completable "a" [123] := by
  have htokens : Lexer.tokenize (Text.decodeUtf8 [123]) = .ok ⟨[⟨.punct .lbrace, ⟨1, 1⟩, ⟨1, 2⟩⟩], ⟨1, 2⟩⟩ := by
    have htoken : Lexer.scanToken '\x7b' [] = .ok (.punct .lbrace, 1) := rfl
    have hend : Lexer.scan ⟨1, 2⟩ [] = .ok ⟨[], ⟨1, 2⟩⟩ := Lexer.scan_of_end rfl
    refine (Lexer.scan_of_token rfl htoken).trans ?_
    exact congrArg (Except.map _) hend
  have hrefused : Parser.parseModule "a" (Text.decodeUtf8 [123]) = .error ⟨.unterminatedBlock, ⟨1, 1⟩, "a"⟩ :=
    Parser.parseModule_of_refused htokens rfl
  have hincomplete : (ParseError.mk .unterminatedBlock ⟨1, 1⟩ "a").isIncomplete = true := by decide
  have htrue : ¬ ParseCause.Misleads .unterminatedBlock := by
    rintro ⟨found, hfound, -⟩
    cases hfound
  exact ⟨⟨_, htokens⟩, ⟨_, hrefused, hincomplete, htrue⟩,
    (completable_iff_incomplete htokens hrefused).mpr ⟨hincomplete, htrue⟩⟩

/-- The error about the text `1 "end of input"` reads as incomplete, because it quotes the string. But the statement
    lacks its semicolon before the string, and no further lines put it there. -/
theorem quoted_end_is_not_completable :
    ∃ (s : List UInt8) (l : Lexer.TokenList) (e : ParseError), Lexer.tokenize (Text.decodeUtf8 s) = .ok l ∧
      Parser.parseModule "a" (Text.decodeUtf8 s) = .error e ∧ e.isIncomplete = true ∧
      ∀ t m, Parser.parseModule "a" (Text.decodeUtf8 (s ++ 10 :: t)) ≠ .ok m := by
  let s : List UInt8 := [49, 32, 34, 101, 110, 100, 32, 111, 102, 32, 105, 110, 112, 117, 116, 34]
  let number : Token := ⟨.int "1", ⟨1, 1⟩, ⟨1, 2⟩⟩
  let quoted : Token := ⟨.string "end of input", ⟨1, 3⟩, ⟨1, 17⟩⟩
  have htext : Text.decodeUtf8 s = '1' :: ' ' :: '"' :: (ParseError.endWords ++ ['"']) := by decide
  have hcontents : String.ofList ParseError.endWords = "end of input" := by
    rw [← ParseError.toList_endWords, String.ofList_toList]
  have htokens : Lexer.tokenize (Text.decodeUtf8 s) = .ok ⟨[number, quoted], ⟨1, 17⟩⟩ := by
    have hend : Lexer.scan ⟨1, 17⟩ [] = .ok ⟨[], ⟨1, 17⟩⟩ := Lexer.scan_of_end rfl
    have hquoted : Lexer.scan ⟨1, 2⟩ (' ' :: '"' :: (ParseError.endWords ++ ['"'])) = .ok ⟨[quoted], ⟨1, 17⟩⟩ := by
      have htoken : Lexer.scanToken '"' (ParseError.endWords ++ ['"']) =
          .ok (.string (String.ofList ParseError.endWords), 14) := rfl
      rw [hcontents] at htoken
      exact (Lexer.scan_of_token rfl htoken).trans (congrArg (Except.map _) hend)
    have htoken : Lexer.scanToken '1' (' ' :: '"' :: (ParseError.endWords ++ ['"'])) = .ok (.int "1", 1) := rfl
    rw [htext]
    exact (Lexer.scan_of_token rfl htoken).trans (congrArg (Except.map _) hquoted)
  have hrefused : Parser.parseModule "a" (Text.decodeUtf8 s) =
      .error ⟨.expectedTerminator (.string "end of input"), ⟨1, 3⟩, "a"⟩ := Parser.parseModule_of_refused htokens rfl
  have hincomplete : (ParseError.mk (.expectedTerminator (.string "end of input")) ⟨1, 3⟩ "a").isIncomplete = true := by
    decide
  refine ⟨s, _, _, htokens, hrefused, hincomplete, fun t m hm => ?_⟩
  cases Parser.atEnd_of_completable hrefused ⟨t, m, hm⟩

end KestrelLang
