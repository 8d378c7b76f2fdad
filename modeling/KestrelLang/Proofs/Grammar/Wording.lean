import KestrelLang.Proofs.Grammar.Foresight
import KestrelLang.Proofs.Grammar.Placed

/-! # When an error reads as the end of the text

An error counts as that of an incomplete text if its wording speaks of the end of the input. The wording quotes
lexemes of the text. Of these only a string has blanks, so only a string can speak of the end where there is none.

* `ParseCause.Misleads` — the cause quotes a string that speaks of the end of the input.
* `Apart`, `occursIn_mark` — an occurrence begins in no word of one piece, and runs across no mark that it has not.
* `Opening` — words that begin a wording and do not speak of the end.
* `isIncomplete_iff` — an error reads as incomplete if it is about the end of the text, or misleads. -/

namespace KestrelLang

def ParseCause.found? : ParseCause → Option Lexeme
  | .expectedLexeme _ found | .expectedName _ found | .expectedTerminator found
  | .unexpectedInExpression found | .misplacedLabel _ found => some found
  | _ => none

namespace ParseError

/-- The words that `isIncomplete` looks for. -/
def endWords : List Char := ['e', 'n', 'd', ' ', 'o', 'f', ' ', 'i', 'n', 'p', 'u', 't']

theorem toList_endWords : "end of input".toList = endWords := by decide

end ParseError

/-- The lexeme is a string, and its quoted contents speak of the end of the input. -/
def Lexeme.Misleads (l : Lexeme) : Prop :=
  ∃ contents, l = .string contents ∧ ParseError.occursIn ParseError.endWords (Text.quote contents).toList = true

def ParseCause.Misleads (c : ParseCause) : Prop := ∃ found, c.found? = some found ∧ found.Misleads

theorem ParseCause.AtEnd.not_misleads {c : ParseCause} (h : c.AtEnd) : ¬ c.Misleads := by
  rintro ⟨found, hfound, contents, rfl, -⟩
  cases c <;> cases hfound <;> cases h

namespace Text

variable {c : Char}

/-! ## Quoted words -/

theorem no_blank_toDigits (n : Nat) : ' ' ∉ Nat.toDigits 16 n := by
  induction n using Nat.strongRecOn with
  | ind n ih =>
    have hdigit : ∀ d < 16, ' ' ≠ Nat.digitChar d := by decide
    by_cases hn : n < 16
    · rw [Nat.toDigits_of_lt_base hn, List.mem_singleton]
      exact hdigit n hn
    · have hlast : n % 16 < 16 := Nat.mod_lt n (by decide)
      rw [← Nat.div_add_mod n 16, ← Nat.toDigits_append_toDigits (by decide) (by omega) hlast,
        Nat.toDigits_of_lt_base hlast, List.mem_append, List.mem_singleton, not_or]
      exact ⟨ih (n / 16) (by omega), hdigit _ hlast⟩

theorem no_blank_hexPadded (width n : Nat) : ' ' ∉ (hexPadded width n).toList := by
  simp only [hexPadded, String.toList_ofList, List.mem_append, List.mem_replicate, not_or, not_and]
  exact ⟨fun _ => by decide, no_blank_toDigits n⟩

theorem no_blank_escapeChar (hc : c ≠ ' ') : ' ' ∉ (escapeChar '"' c).toList := by
  have hescape : ∀ (mark : String) (width n : Nat), ' ' ∉ mark.toList →
      ' ' ∉ (mark ++ hexPadded width n).toList := by
    intro mark width n hmark
    rw [String.toList_append, List.mem_append, not_or]
    exact ⟨hmark, no_blank_hexPadded width n⟩
  unfold escapeChar
  split
  · simpa using hc.symm
  split
  · simpa using hc.symm
  split
  case h_8 =>
    split
    · exact hescape _ _ _ (by decide)
    split
    · exact hescape _ _ _ (by decide)
    · exact hescape _ _ _ (by decide)
  all_goals decide

def escaped (s : String) : List Char := s.toList.flatMap fun c => (escapeChar '"' c).toList

theorem toList_quote (s : String) : (quote s).toList = '"' :: (escaped s ++ ['"']) := by
  simp [quote, escaped, String.toList_append, String.toList_join, List.flatMap_map]

theorem no_blank_escaped {s : String} (h : ' ' ∉ s.toList) : ' ' ∉ escaped s := by
  intro hblank
  obtain ⟨c, hc, hmem⟩ := List.mem_flatMap.mp hblank
  have hne : c ≠ ' ' := by
    rintro rfl
    exact h hc
  exact no_blank_escapeChar hne hmem

end Text

namespace ParseError

variable {part w cs : List Char}

/-! ## Occurrences -/

def Apart (cs : List Char) : Prop := ∀ w, ' ' ∉ w → ¬ endWords <+: w ++ cs

theorem Apart.occursIn_word (h : Apart cs) (hw : ' ' ∉ w) :
    occursIn endWords (w ++ cs) = occursIn endWords cs := by
  induction w with
  | nil => rfl
  | cons c w ih =>
    have hhere : endWords.isPrefixOf (c :: (w ++ cs)) = false := by
      rw [Bool.eq_false_iff, ne_eq, List.isPrefixOf_iff_prefix]
      exact h (c :: w) hw
    rw [List.cons_append, occursIn, hhere, Bool.false_or, ih (List.not_mem_of_not_mem_cons hw)]

/-- What follows a word keeps an occurrence from beginning in it, if no end of the first of the words fits. -/
theorem apart_of_drop (h : ∀ n ≤ 3, ¬ endWords.drop n <+: cs) : Apart cs := by
  intro w hw hprefix
  by_cases hlength : w.length ≤ 3
  · refine h w.length hlength ?_
    obtain ⟨more, hmore⟩ := hprefix
    have hcut : endWords.drop w.length ++ more = cs := by
      rw [← List.drop_append_of_le_length (by simp only [endWords, List.length_cons]; omega), hmore,
        List.drop_left]
    exact ⟨more, hcut⟩
  · -- Then the blank after the first of the words is in the word.
    have hfirst : ['e', 'n', 'd', ' '] <+: w :=
      List.prefix_of_prefix_length_le (List.IsPrefix.trans (by decide) hprefix) (List.prefix_append w cs)
        (Nat.succ_le_of_lt (Nat.lt_of_not_le hlength))
    exact hw (hfirst.mem (by decide))

theorem apart_nil : Apart [] := apart_of_drop (by decide)

theorem apart_blank (cs : List Char) (h : ¬ ['o', 'f', ' '] <+: cs) : Apart (' ' :: cs) := by
  refine apart_of_drop fun n hn hprefix => ?_
  match n, hn with
  | 0, _ | 1, _ | 2, _ => exact absurd (List.cons_prefix_cons.mp hprefix).1 (by decide)
  | 3, _ => exact h (List.IsPrefix.trans (by decide) (List.cons_prefix_cons.mp hprefix).2)

theorem prefix_mark {c : Char} (hc : c ∉ part) (before after : List Char) :
    part <+: before ++ c :: after ↔ part <+: before := by
  refine ⟨fun hprefix => ?_, fun hprefix => hprefix.trans (List.prefix_append _ _)⟩
  by_cases hlength : part.length ≤ before.length
  · exact List.prefix_of_prefix_length_le hprefix (List.prefix_append _ _) hlength
  · have hlonger : (before ++ [c]).length ≤ part.length := by
      rw [List.length_append]
      exact Nat.succ_le_of_lt (Nat.lt_of_not_le hlength)
    have hmark : before ++ [c] <+: part := List.prefix_of_prefix_length_le ⟨after, by simp⟩ hprefix hlonger
    exact absurd (hmark.mem (by simp)) hc

theorem occursIn_mark {c : Char} (hc : c ∉ part) (hpart : part ≠ []) (before after : List Char) :
    occursIn part (before ++ c :: after) = (occursIn part before || occursIn part after) := by
  have hhere (ds : List Char) : part.isPrefixOf (ds ++ c :: after) = part.isPrefixOf ds := by
    rw [Bool.eq_iff_iff, List.isPrefixOf_iff_prefix, List.isPrefixOf_iff_prefix, prefix_mark hc]
  induction before with
  | nil =>
    have hnone : part.isPrefixOf (c :: after) = false := by
      rw [Bool.eq_false_iff, ne_eq, List.isPrefixOf_iff_prefix]
      exact fun hprefix => hpart (List.prefix_nil.mp ((prefix_mark hc [] after).mp hprefix))
    simp only [List.nil_append, occursIn, hnone, List.isEmpty_eq_false_iff.mpr hpart]
  | cons d before ih =>
    rw [List.cons_append, occursIn, ← List.cons_append, hhere (d :: before), ih, occursIn, Bool.or_assoc]

/-! ## Wordings -/

variable {found : Lexeme}

theorem occursIn_quoteMark (before after : List Char) :
    occursIn endWords (before ++ '"' :: after) = (occursIn endWords before || occursIn endWords after) :=
  occursIn_mark (by decide) (by decide) before after

theorem occursIn_quote {s : String} (h : ' ' ∉ s.toList) (cs : List Char) :
    occursIn endWords ((Text.quote s).toList ++ cs) = occursIn endWords cs := by
  have hword : occursIn endWords (Text.escaped s) = false := by
    have hnone : occursIn endWords [] = false := rfl
    rw [← List.append_nil (Text.escaped s), apart_nil.occursIn_word (Text.no_blank_escaped h), hnone]
  calc occursIn endWords ((Text.quote s).toList ++ cs)
    _ = occursIn endWords ([] ++ '"' :: (Text.escaped s ++ '"' :: cs)) := by simp [Text.toList_quote]
    _ = occursIn endWords (Text.escaped s ++ '"' :: cs) := occursIn_quoteMark [] _
    _ = occursIn endWords cs := by rw [occursIn_quoteMark, hword, Bool.false_or]

def Tail (cs : List Char) : Prop := cs = [] ∨ cs = " in expression".toList

theorem occursIn_describe (h : found.Found) {cs : List Char} (hcs : Tail cs) :
    occursIn endWords (found.describe.toList ++ cs) = true ↔ found = .eof ∨ found.Misleads := by
  have htail : occursIn endWords cs = false := by obtain rfl | rfl := hcs <;> decide
  have hword {s : String} (hs : ' ' ∉ s.toList) : ¬ occursIn endWords ((Text.quote s).toList ++ cs) = true := by
    rw [occursIn_quote hs, htail]
    exact Bool.false_ne_true
  obtain rfl | hfair := h
  · have hend : occursIn endWords (Lexeme.eof.describe.toList ++ cs) = true := by
      rw [Lexeme.describe, toList_endWords]
      exact occursIn_append endWords [] cs
    exact iff_of_true hend (.inl rfl)
  cases found with
  | eof => exact hfair.elim
  | string contents =>
    -- The quotation marks separate the contents from the words around them, and these say nothing of the end.
    have hcontents : occursIn endWords (Text.quote contents).toList = occursIn endWords (Text.escaped contents) := by
      have hmarks : (Text.quote contents).toList = [] ++ '"' :: (Text.escaped contents ++ '"' :: []) := by
        simp [Text.toList_quote]
      rw [hmarks, occursIn_quoteMark, occursIn_quoteMark]
      exact Bool.or_false _
    have hwhole : (Lexeme.string contents).describe.toList ++ cs =
        "string ".toList ++ '"' :: (Text.escaped contents ++ '"' :: cs) := by
      simp [Lexeme.describe, Text.toList_quote]
    have hkind : occursIn endWords "string ".toList = false := by decide
    rw [hwhole, occursIn_quoteMark, occursIn_quoteMark, htail, hkind, Bool.or_false, Bool.false_or, ← hcontents]
    constructor
    · exact fun hspeaks => .inr ⟨contents, rfl, hspeaks⟩
    · rintro (heof | ⟨other, hother, hspeaks⟩)
      · cases heof
      · cases hother
        exact hspeaks
  | _ =>
    refine iff_of_false (hword hfair) ?_
    rintro (heof | ⟨other, hother, -⟩)
    · cases heof
    · cases hother

/-- Words that do not speak of the end, whatever follows. -/
def Silent (words : String) : Prop := ∀ cs, occursIn endWords (words.toList ++ cs) = occursIn endWords cs

/-- Silent words that begin a wording otherwise than as that of something unterminated. -/
structure Opening (words : String) : Prop where
  silent : Silent words
  start : ∀ cs, "unterminated".toList.isPrefixOf (words.toList ++ cs) = false

theorem Silent.quote {s : String} (h : ' ' ∉ s.toList) : Silent (Text.quote s) := occursIn_quote h

theorem Opening.append {first more : String} (hfirst : Opening first) (hmore : Silent more) :
    Opening (first ++ more) where
  silent cs := by rw [String.toList_append, List.append_assoc, hfirst.silent, hmore]
  start cs := by rw [String.toList_append, List.append_assoc, hfirst.start]

theorem isIncomplete_of_opening {e : ParseError} {words tail : String} (hwords : Opening words) (hfound : found.Found)
    (htail : Tail tail.toList) (hsummary : e.summary = words ++ found.describe ++ tail) :
    e.isIncomplete = true ↔ found = .eof ∨ found.Misleads := by
  rw [isIncomplete, toList_endWords, hsummary, String.append_assoc, String.toList_append, hwords.start, Bool.or_false,
    hwords.silent, String.toList_append, occursIn_describe hfound htail]

theorem not_isIncomplete_of_opening {e : ParseError} {words more : String} (hwords : Opening words)
    (hmore : occursIn endWords more.toList = false) (hsummary : e.summary = words ++ more) :
    ¬ e.isIncomplete = true := by
  rw [isIncomplete, toList_endWords, hsummary, String.toList_append, hwords.start, hwords.silent, hmore]
  exact Bool.false_ne_true

theorem opening_expected : Opening "expected " := ⟨fun _ => rfl, fun _ => rfl⟩

theorem opening_role {role : String} (h : role ∈ nameRoles) : Opening ("expected " ++ role ++ ", found ") := by
  simp only [nameRoles, List.mem_cons, List.not_mem_nil, or_false] at h
  obtain rfl | rfl | rfl | rfl | rfl | rfl | rfl := h <;> exact ⟨fun _ => rfl, fun _ => rfl⟩

theorem opening_label {label : String} (h : ' ' ∉ label.toList) :
    Opening ("label " ++ label ++ " must precede a loop or block, found ") where
  silent cs := by
    have hlabel (cs : List Char) : occursIn endWords ("label ".toList ++ cs) = occursIn endWords cs := rfl
    have hmust : Apart (" must precede a loop or block, found ".toList ++ cs) := by
      refine apart_blank ("must precede a loop or block, found ".toList ++ cs) fun hprefix => ?_
      exact absurd (List.cons_prefix_cons.mp hprefix).1 (by decide)
    rw [String.toList_append, String.toList_append, List.append_assoc, List.append_assoc, hlabel,
      hmust.occursIn_word h]
    rfl
  start cs := by
    rw [String.toList_append, String.toList_append, List.append_assoc, List.append_assoc]
    rfl

/-- A fair error reads as incomplete if it is about the end of the text, or quotes a string that speaks of it. -/
theorem isIncomplete_iff {e : ParseError} (h : e.cause.Fair) :
    e.isIncomplete = true ↔ e.cause.AtEnd ∨ e.cause.Misleads := by
  have hmisleads {found : Lexeme} (hfound : e.cause.found? = some found) : e.cause.Misleads ↔ found.Misleads := by
    simp [ParseCause.Misleads, hfound]
  have hneither (hend : ¬ e.cause.AtEnd) (hfound : e.cause.found? = none) : ¬ (e.cause.AtEnd ∨ e.cause.Misleads) := by
    simp [ParseCause.Misleads, hfound, hend]
  -- No message says the words by itself: before the lexeme that it names stands a fixed opening without them.
  obtain ⟨cause, place, origin⟩ := e
  cases cause with
  | unterminatedBlock => exact iff_of_true (isIncomplete_of_unterminated " block" rfl) (.inl trivial)
  | invalidAssignmentTarget =>
    have hopening : Opening "invalid assignment target" := ⟨fun _ => rfl, fun _ => rfl⟩
    exact iff_of_false (not_isIncomplete_of_opening hopening rfl (String.append_empty ..).symm) (hneither id rfl)
  | expectedLexeme wanted found =>
    rw [hmisleads rfl]
    have hfound : Silent ", found " := fun _ => rfl
    have hopening := (opening_expected.append (.quote h.1)).append hfound
    exact isIncomplete_of_opening hopening h.2 (.inl rfl) (String.append_empty ..).symm
  | expectedName role found =>
    rw [hmisleads rfl]
    exact isIncomplete_of_opening (opening_role h.1) h.2 (.inl rfl) (String.append_empty ..).symm
  | expectedTerminator found =>
    rw [hmisleads rfl]
    have hopening : Opening "expected ';' after statement, found " := ⟨fun _ => rfl, fun _ => rfl⟩
    exact isIncomplete_of_opening hopening h (.inl rfl) (String.append_empty ..).symm
  | unexpectedInExpression found =>
    rw [hmisleads rfl]
    have hopening : Opening "unexpected " := ⟨fun _ => rfl, fun _ => rfl⟩
    exact isIncomplete_of_opening hopening h (.inr rfl) rfl
  | misplacedLabel label found =>
    rw [hmisleads rfl]
    exact isIncomplete_of_opening (opening_label h.1) h.2 (.inl rfl) (String.append_empty ..).symm
  | integerOutOfRange digits =>
    have hopening : Opening "integer literal " := ⟨fun _ => rfl, fun _ => rfl⟩
    have hmore : occursIn endWords (digits ++ " out of range").toList = false := by
      have hout : Apart " out of range".toList := apart_blank "out of range".toList (by decide)
      rw [String.toList_append, hout.occursIn_word h]
      rfl
    exact iff_of_false (not_isIncomplete_of_opening hopening hmore (String.append_assoc ..)) (hneither id rfl)
  | invalidFloat digits =>
    have hopening : Opening "invalid float literal " := ⟨fun _ => rfl, fun _ => rfl⟩
    have hmore : occursIn endWords digits.toList = false := by
      rw [← List.append_nil digits.toList, apart_nil.occursIn_word h]
      rfl
    exact iff_of_false (not_isIncomplete_of_opening hopening hmore rfl) (hneither id rfl)
  | unexpectedCharacter | unterminatedString | custom => exact h.elim

end ParseError

end KestrelLang
