import KestrelLang.Host.Repl
import KestrelLang.Proofs.Grammar.Foresight

/-! # Texts that no further line can complete

A session waits for more lines as long as the text so far is incomplete. It gives up on a text only when
nothing that follows could have made a module of it.

* `Repl.reads` — the text that a session has once a line is read.
* `rejected_text_stays_rejected` — a text that is refused as complete is refused with any lines after it. -/

namespace KestrelLang

namespace Repl

/-- The text that the session has once `line` is read. -/
def reads (r : Repl) (line : String) : String := if r.pending = "" then line else r.pending ++ "\n" ++ line

/-- `text` with further lines, as a session puts them together. -/
def continued (text : String) (lines : List String) : String :=
  lines.foldl (fun text line => text ++ "\n" ++ line) text

theorem continued_cases (text : String) (lines : List String) :
    continued text lines = text ∨ ∃ more, continued text lines = text ++ "\n" ++ more := by
  induction lines generalizing text with
  | nil => exact .inl rfl
  | cons line lines ih =>
    right
    obtain hsame | ⟨more, hmore⟩ := ih (text ++ "\n" ++ line)
    · exact ⟨line, hsame⟩
    · refine ⟨line ++ "\n" ++ more, hmore.trans ?_⟩
      simp only [String.append_assoc]

theorem continued_fails {text : String} (hcomplete : isIncomplete text = false) {origin : String}
    {e : ParseError} (h : Parser.parseModule origin text.toList = .error e) (lines : List String) :
    ∃ e', Parser.parseModule origin (continued text lines).toList = .error e' := by
  have hnameless : Parser.parseModule "" text.toList = .error { e with origin := "" } :=
    Parser.parseModule_rename h ""
  have hend : ¬ e.cause.AtEnd := by
    intro hend
    rw [isIncomplete, hnameless] at hcomplete
    have hincomplete : { e with origin := "" }.isIncomplete = true := ParseError.isIncomplete_of_atEnd hend
    exact Bool.false_ne_true (hcomplete.symm.trans hincomplete)
  obtain hsame | ⟨more, hmore⟩ := continued_cases text lines
  · rw [hsame]
    exact ⟨e, h⟩
  · rw [hmore, String.toList_append, String.toList_append, List.append_assoc]
    exact Parser.parseModule_append_newline h hend more.toList

theorem feed_cases (workingDir : String) (fuel : Nat) (r : Repl) (line : String) :
    r.feed workingDir fuel (some line) = { r.ask with pending := r.reads line } ∨
      isIncomplete (r.reads line) = false ∧
        r.feed workingDir fuel (some line) = (r.ask.treat workingDir fuel (r.reads line)).advance := by
  by_cases hincomplete : isIncomplete (r.reads line) = true
  · left
    exact if_pos hincomplete
  · right
    exact ⟨Bool.eq_false_iff.mpr hincomplete, if_neg hincomplete⟩

end Repl

/-- Bytes that are refused otherwise than as incomplete are refused whatever follows them after a line break.
    So a session that treats a text has a module, or a text that no further lines could have completed. -/
theorem rejected_text_stays_rejected (origin : String) :
    (∀ (s : List UInt8) (e : ParseError), Parser.parseModule origin (Text.decodeUtf8 s) = .error e →
      e.isIncomplete = false →
      ∀ t : List UInt8, ∃ e', Parser.parseModule origin (Text.decodeUtf8 (s ++ 10 :: t)) = .error e') ∧
    ∀ (workingDir : String) (fuel : Nat) (r : Repl) (line : String),
      r.feed workingDir fuel (some line) = { r.ask with pending := r.reads line } ∨
      r.feed workingDir fuel (some line) = (r.ask.treat workingDir fuel (r.reads line)).advance ∧
        ((∃ m, Parser.parseModule origin (r.reads line).toList = .ok m) ∨
          ∀ lines, ∃ e', Parser.parseModule origin (Repl.continued (r.reads line) lines).toList = .error e') := by
  constructor
  · intro s e h hcomplete t
    have hend : ¬ e.cause.AtEnd := by
      intro hend
      rw [ParseError.isIncomplete_of_atEnd hend] at hcomplete
      cases hcomplete
    rw [Text.decodeUtf8_append_newline]
    exact Parser.parseModule_append_newline h hend _
  · intro workingDir fuel r line
    refine (r.feed_cases workingDir fuel line).imp_right fun ⟨hcomplete, htreated⟩ => ⟨htreated, ?_⟩
    cases htree : Parser.parseModule origin (r.reads line).toList with
    | ok m => exact .inl ⟨m, rfl⟩
    | error e => exact .inr (Repl.continued_fails hcomplete htree)

/-- A brace that closes nothing is refused at once. -/
theorem stray_brace_stays_rejected :
    (∃ e, Parser.parseModule "a" (Text.decodeUtf8 [125]) = .error e ∧ e.isIncomplete = false) ∧
      ∀ t : List UInt8, ∃ e', Parser.parseModule "a" (Text.decodeUtf8 ([125] ++ 10 :: t)) = .error e' := by
  have htokens : Lexer.tokenize ['\x7d'] = .ok ⟨[⟨.punct .rbrace, ⟨1, 1⟩, ⟨1, 2⟩⟩], ⟨1, 2⟩⟩ := by
    have htoken : Lexer.scanToken '\x7d' [] = .ok (.punct .rbrace, 1) := rfl
    have hend : Lexer.scan ⟨1, 2⟩ [] = .ok ⟨[], ⟨1, 2⟩⟩ := Lexer.scan_of_end rfl
    refine (Lexer.scan_of_token rfl htoken).trans ?_
    exact congrArg (Except.map _) hend
  have hrefused : Parser.parseModule "a" (Text.decodeUtf8 [125]) =
      .error ⟨.unexpectedInExpression (.punct .rbrace), ⟨1, 1⟩, "a"⟩ := Parser.parseModule_of_refused htokens rfl
  have hcomplete : (ParseError.mk (.unexpectedInExpression (.punct .rbrace)) ⟨1, 1⟩ "a").isIncomplete = false := by
    decide
  exact ⟨⟨_, hrefused, hcomplete⟩, (rejected_text_stays_rejected "a").1 _ _ hrefused hcomplete⟩

end KestrelLang
