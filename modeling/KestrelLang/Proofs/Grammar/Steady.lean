import KestrelLang.Proofs.Grammar.Acts
import KestrelLang.Proofs.Grammar.Foresight

/-! # Parsers in other contexts

A parser looks at the tokens that it takes and at the one after them. So it takes the same tokens, with the same
result, wherever they stand, as long as what follows ends the construct in the same way; and if the text ended too
early for it, some lexemes can be put at the end of the text that complete the construct.

* `Took` — the tokens that lie between two streams.
* `Mends` — lexemes after the end of a stream make an act succeed.
* `Steady` — what an act did to a stream, it does in every context, and its errors at the end of the text can be
  mended.
* `Steady.bind`, `Steady.optional`, … — how acts are put together.
* `steady_expect`, `steady_expectName`, `steady_token` — single tokens. -/

namespace KestrelLang.Parser

/-! ## Tokens between streams -/

def upcoming (ts : List Token) : Lexeme := Stream.peek ⟨ts, .zero, .zero⟩

/-- Where the last of the tokens ends; without a token, where reading stands. -/
def endOf (last : Position) (ts : List Token) : Position := ts.foldl (fun _ t => t.stop) last

/-- The tokens of `s` are `ts` and then those of `rest`. -/
structure Took (s : Stream) (ts : List Token) (rest : Stream) : Prop where
  tokens : s.tokens = ts ++ rest.tokens
  eof : rest.eof = s.eof
  last : rest.last = endOf s.last ts

section Tokens

variable {s s1 s2 : Stream} {ts ts' more : List Token} {eof last : Position}

theorem peek_mk : Stream.peek ⟨ts, eof, last⟩ = upcoming ts := by
  cases ts <;> rfl

theorem upcoming_tokens (s : Stream) : upcoming s.tokens = s.peek := by
  obtain ⟨_ | ⟨t, ts⟩, eof, last⟩ := s <;> rfl

theorem upcoming_append (h : ts ≠ []) : upcoming (ts ++ more) = upcoming ts := by
  obtain _ | ⟨t, ts⟩ := ts
  · exact absurd rfl h
  · rfl

theorem Took.refl (s : Stream) : Took s [] s := ⟨rfl, rfl, rfl⟩

theorem Took.trans (h : Took s ts s1) (h' : Took s1 ts' s2) : Took s (ts ++ ts') s2 where
  tokens := by rw [h.tokens, h'.tokens, List.append_assoc]
  eof := h'.eof.trans h.eof
  last := by rw [h'.last, h.last, endOf, endOf, endOf, List.foldl_append]

theorem Took.size (h : Took s ts s1) : s.size = ts.length + s1.size := by
  rw [Stream.size, h.tokens, List.length_append, Stream.size]

theorem Took.peek (h : Took s ts s1) (hts : ts ≠ []) (more : List Token) (eof last : Position) :
    Stream.peek ⟨ts ++ more, eof, last⟩ = s.peek := by
  rw [peek_mk, ← upcoming_tokens, h.tokens, upcoming_append hts, upcoming_append hts]

theorem Took.place (h : Took s ts s1) (hts : ts ≠ []) (more : List Token) (eof last : Position) :
    Stream.place ⟨ts ++ more, eof, last⟩ = s.place := by
  obtain _ | ⟨t, ts⟩ := ts
  · exact absurd rfl hts
  · obtain ⟨tokens, eof, last⟩ := s
    obtain rfl : tokens = t :: ts ++ s1.tokens := h.tokens
    rfl

theorem peekSecond_append (h : 2 ≤ ts.length) (more' : List Token) (eof' last' : Position) :
    Stream.peekSecond ⟨ts ++ more, eof, last⟩ = Stream.peekSecond ⟨ts ++ more', eof', last'⟩ := by
  obtain _ | ⟨t, _ | ⟨t', ts⟩⟩ := ts
  · exact absurd h (Nat.not_succ_le_zero 1)
  · exact absurd h (Nat.not_succ_le_self 1)
  · rfl

theorem peekSecond_cons (t : Token) : Stream.peekSecond ⟨t :: ts, eof, last⟩ = upcoming ts := by
  cases ts <;> rfl

/-- The second lexeme is as before, or only one token was taken and the second one is what follows it. -/
theorem Took.peekSecond {follow : Lexeme → Prop} (h : Took s ts s1) (hts : ts ≠ [])
    (hmore : upcoming more = s1.peek ∨ follow (upcoming more)) (eof last : Position) :
    Stream.peekSecond ⟨ts ++ more, eof, last⟩ = s.peekSecond ∨
      ts.length < 2 ∧ follow (Stream.peekSecond ⟨ts ++ more, eof, last⟩) := by
  obtain ⟨tokens, eof', last'⟩ := s
  obtain rfl : tokens = ts ++ s1.tokens := h.tokens
  by_cases htwo : 2 ≤ ts.length
  · exact .inl (peekSecond_append htwo _ _ _)
  · obtain _ | ⟨t, _ | ⟨t', ts⟩⟩ := ts
    · exact absurd rfl hts
    · rw [List.singleton_append, List.singleton_append, peekSecond_cons, peekSecond_cons, upcoming_tokens]
      exact hmore.imp_right fun hfollow => ⟨Nat.lt_succ_self 1, hfollow⟩
    · exact absurd (Nat.le_add_left 2 ts.length) htwo

end Tokens

/-! ## Steady acts -/

/-- What a text can be completed with: a name, marks and reserved words. -/
inductive Filler where
  | name
  | mark (p : Punct)
  | word (k : Keyword)

def Filler.lexeme : Filler → Lexeme
  | name => .ident "x"
  | mark p => .punct p
  | word k => .keyword k

/-- Tokens that say `words` after the end of the stream, and then anything that starts as `follow` allows, make the
    act succeed. -/
def Mends {α : Type} (words : List Filler) (follow : Lexeme → Prop) (s : Stream) (act : Act α) : Prop :=
  ∀ (more tail : List Token) (eof : Position),
    more.map Token.lexeme = words.map Filler.lexeme → follow (upcoming tail) →
    ∃ v last, act ⟨s.tokens ++ (more ++ tail), eof, s.last⟩ = .ok (v, ⟨tail, eof, last⟩)

/-- The act takes at least as many tokens as `least` has, which it accepts when nothing is left to read.
    What it took it takes as well before other tokens, if they start with the same lexeme or as `follow` allows. -/
structure Steady {α : Type} (least : List Filler) (follow : Lexeme → Prop) (s : Stream) (act : Act α) : Prop where
  again : ∀ {v rest}, act s = .ok (v, rest) → ∃ ts, Took s ts rest ∧ least.length ≤ ts.length ∧
    ∀ more eof, upcoming more = rest.peek ∨ follow (upcoming more) →
      act ⟨ts ++ more, eof, s.last⟩ = .ok (v, ⟨more, eof, rest.last⟩)
  mend : ∀ {e}, (∀ t ∈ s.tokens, t.lexeme ≠ .eof) → act s = .error e → e.cause.AtEnd →
    ∃ words, Mends words follow s act
  fresh : s.tokens = [] → Mends least follow s act

def anything : Lexeme → Prop := fun _ => True

/-- What follows `words` and then `follow` is as `before` allows. -/
def Leads (words : List Filler) (follow before : Lexeme → Prop) : Prop :=
  match words with
  | [] => ∀ l, follow l → before l
  | w :: _ => before w.lexeme

theorem leads_anything {words : List Filler} {follow : Lexeme → Prop} : Leads words follow anything := by
  cases words with
  | nil => exact fun _ _ => trivial
  | cons l words => trivial

theorem Leads.upcoming {words : List Filler} {follow before : Lexeme → Prop} (h : Leads words follow before)
    {more tail : List Token} (hmore : more.map Token.lexeme = words.map Filler.lexeme)
    (htail : follow (upcoming tail)) : before (Parser.upcoming (more ++ tail)) := by
  cases words with
  | nil =>
    obtain rfl : more = [] := List.map_eq_nil_iff.mp hmore
    exact h _ htail
  | cons w words =>
    obtain _ | ⟨t, more⟩ := more
    · cases hmore
    · have hword : Parser.upcoming (t :: more ++ tail) = w.lexeme := (List.cons_eq_cons.mp hmore).1
      exact hword ▸ h

section Sequences

variable {α β : Type} {s : Stream} {n : Nat} {l : Filler} {least least' : List Filler}
  {follow before : Lexeme → Prop} {a : Act α} {f : α → Act β}

theorem bind_of_ok {v : α} {rest : Stream} (h : a s = .ok (v, rest)) : (a >>= f) s = f v rest := by
  show (a s >>= fun p => f p.1 p.2) = _
  rw [h]
  rfl

theorem bind_of_error {e : ParseError} (h : a s = .error e) : (a >>= f) s = .error e := by
  show (a s >>= fun p => f p.1 p.2) = _
  rw [h]
  rfl

theorem Mends.bind (ha : Mends least before s a) (hlead : Leads least' follow before)
    (hf : ∀ v eof last, Mends least' follow ⟨[], eof, last⟩ (f v)) : Mends (least ++ least') follow s (a >>= f) := by
  intro more tail eof hmore htail
  rw [List.map_append] at hmore
  obtain ⟨more, more', rfl, hfirst, hsecond⟩ := List.map_eq_append_iff.mp hmore
  obtain ⟨v, last, hv⟩ := ha more (more' ++ tail) eof hfirst (hlead.upcoming hsecond htail)
  rw [List.append_assoc, bind_of_ok hv]
  exact hf v eof last more' tail eof hsecond htail

/-- One act after another, when the second is steady on all that the first can leave. -/
theorem Steady.bindWithin (ha : Steady least before s a) (hlead : Leads least' follow before)
    (hf : ∀ v rest, rest.tokens = [] ∨ rest.size + least.length ≤ s.size → Steady least' follow rest (f v)) :
    Steady (least ++ least') follow s (a >>= f) where
  again := by
    intro v rest h
    cases hfirst : a s with
    | error e =>
      rw [bind_of_error hfirst] at h
      cases h
    | ok p =>
      obtain ⟨v1, s1⟩ := p
      rw [bind_of_ok hfirst] at h
      obtain ⟨ts, htook, hlength, hagain⟩ := ha.again hfirst
      have hsize := htook.size
      obtain ⟨ts', htook', hlength', hagain'⟩ := (hf v1 s1 (.inr (by omega))).again h
      refine ⟨ts ++ ts', htook.trans htook', ?_, fun more eof hmore => ?_⟩
      · rw [List.length_append, List.length_append]
        omega
      -- The second act may take nothing; then what follows it follows the first one too.
      have hbetween : Parser.upcoming (ts' ++ more) = s1.peek ∨ before (Parser.upcoming (ts' ++ more)) := by
        by_cases hts' : ts' = []
        · subst hts'
          have hleast' : least' = [] := List.length_eq_zero_iff.mp (Nat.le_zero.mp hlength')
          subst hleast'
          rw [List.nil_append, ← upcoming_tokens s1, htook'.tokens, List.nil_append, upcoming_tokens]
          exact hmore.imp_right (hlead _)
        · left
          rw [upcoming_append hts', ← upcoming_tokens s1, htook'.tokens, upcoming_append hts']
      rw [List.append_assoc, bind_of_ok (hagain _ eof hbetween)]
      exact hagain' more eof hmore
  mend := by
    intro e hproper h hend
    cases hfirst : a s with
    | error e' =>
      rw [bind_of_error hfirst] at h
      cases h
      obtain ⟨words, hwords⟩ := ha.mend hproper hfirst hend
      exact ⟨_, hwords.bind hlead fun v eof last => (hf v _ (.inl rfl)).fresh rfl⟩
    | ok p =>
      obtain ⟨v1, s1⟩ := p
      rw [bind_of_ok hfirst] at h
      obtain ⟨ts, htook, hlength, hagain⟩ := ha.again hfirst
      have hsize := htook.size
      have hsecond := hf v1 s1 (.inr (by omega))
      have hproper' : ∀ t ∈ s1.tokens, t.lexeme ≠ .eof :=
        fun t ht => hproper t (htook.tokens ▸ List.mem_append_right _ ht)
      by_cases hs1 : s1.tokens = []
      · refine ⟨least', fun more tail eof hmore htail => ?_⟩
        obtain ⟨w, last, hw⟩ := hsecond.fresh hs1 more tail eof hmore htail
        rw [hs1, List.nil_append] at hw
        refine ⟨w, last, ?_⟩
        rw [htook.tokens, hs1, List.append_nil, bind_of_ok (hagain _ eof (.inr (hlead.upcoming hmore htail)))]
        exact hw
      · obtain ⟨words, hwords⟩ := hsecond.mend hproper' h hend
        refine ⟨words, fun more tail eof hmore htail => ?_⟩
        obtain ⟨w, last, hw⟩ := hwords more tail eof hmore htail
        refine ⟨w, last, ?_⟩
        have hbetween : Parser.upcoming (s1.tokens ++ (more ++ tail)) = s1.peek := by
          rw [upcoming_append hs1, upcoming_tokens]
        rw [htook.tokens, List.append_assoc, bind_of_ok (hagain _ eof (.inl hbetween))]
        exact hw
  fresh hs := (ha.fresh hs).bind hlead fun v _ _ => (hf v _ (.inl rfl)).fresh rfl

theorem Steady.bind (ha : Steady (l :: least) before s a) (hn : 0 < n) (hs : s.size ≤ n)
    (hlead : Leads least' follow before) (hf : ∀ v rest, rest.size < n → Steady least' follow rest (f v)) :
    Steady (l :: least ++ least') follow s (a >>= f) := by
  refine ha.bindWithin hlead fun v rest hrest => hf v rest ?_
  obtain hempty | hshorter := hrest
  · rw [Stream.size, hempty]
    exact hn
  · rw [List.length_cons] at hshorter
    omega

theorem Steady.bindOptional (ha : Steady [] before s a) (hs : s.size ≤ n) (hlead : Leads least' follow before)
    (hf : ∀ v rest, rest.size ≤ n → Steady least' follow rest (f v)) : Steady least' follow s (a >>= f) := by
  refine ha.bindWithin hlead fun v rest hrest => hf v rest ?_
  obtain hempty | hshorter := hrest
  · rw [Stream.size, hempty]
    exact Nat.zero_le n
  · exact Nat.le_trans (Nat.le_of_add_right_le hshorter) hs

end Sequences

section Looking

variable {α : Type} {s : Stream} {l : Filler} {least words : List Filler} {follow : Lexeme → Prop}
  {act act' : Act α} {look : Lexeme → Act α}

theorem steady_pure (v : α) : Steady [] follow s (pure v : Act α) where
  again h := by
    cases h
    exact ⟨[], .refl s, Nat.le_refl 0, fun _ _ _ => rfl⟩
  mend _ h := nomatch h
  fresh hs more tail eof hmore _ := by
    obtain rfl : more = [] := List.map_eq_nil_iff.mp hmore
    rw [hs]
    exact ⟨_, _, rfl⟩

/-- An act that fails, but accepts something where nothing is left to read. -/
theorem Steady.ofMends (herror : ∃ e, act s = .error e) (hmends : Mends least follow s act) :
    Steady least follow s act where
  again h := by
    obtain ⟨e, he⟩ := herror
    rw [he] at h
    cases h
  mend _ _ _ := ⟨least, hmends⟩
  fresh _ := hmends

theorem Steady.mono {follow' : Lexeme → Prop} (h : Steady least follow s act) (hfollow : ∀ l, follow' l → follow l) :
    Steady least follow' s act where
  again hok := by
    obtain ⟨ts, htook, hlength, hagain⟩ := h.again hok
    exact ⟨ts, htook, hlength, fun more eof hmore => hagain more eof (hmore.imp_right (hfollow _))⟩
  mend hproper herror hend := by
    obtain ⟨words, hwords⟩ := h.mend hproper herror hend
    exact ⟨words, fun more tail eof hmore htail => hwords more tail eof hmore (hfollow _ htail)⟩
  fresh hs := fun more tail eof hmore htail => h.fresh hs more tail eof hmore (hfollow _ htail)

theorem Steady.error_of_empty (h : Steady words follow s act) (hwords : 1 ≤ words.length) (hs : s.tokens = []) :
    ∃ e, act s = .error e := by
  cases hact : act s with
  | error e => exact ⟨e, rfl⟩
  | ok p =>
    obtain ⟨ts, htook, hlength, -⟩ := h.again hact
    have hsize := htook.size
    rw [Stream.size, hs, List.length_nil] at hsize
    omega

theorem Mends.congr (hs : s.tokens = []) (h : Mends (l :: words) follow s act')
    (hsame : ∀ s', s'.peek = l.lexeme → act s' = act' s') : Mends (l :: words) follow s act := by
  intro more tail eof hmore htail
  obtain _ | ⟨t, more⟩ := more
  · cases hmore
  · obtain ⟨v, last, hv⟩ := h (t :: more) tail eof hmore htail
    refine ⟨v, last, ?_⟩
    rw [hsame _ ?_, hv]
    rw [hs]
    exact (List.cons_eq_cons.mp hmore).1

theorem Steady.congr (hs : s.tokens ≠ []) (hwords : max 1 least.length ≤ words.length)
    (h : Steady words follow s act') (hsame : ∀ s', s'.peek = s.peek → act s' = act' s') :
    Steady least follow s act where
  again hok := by
    rw [hsame s rfl] at hok
    obtain ⟨ts, htook, hlength, hagain⟩ := h.again hok
    have hts : ts ≠ [] := List.ne_nil_of_length_pos (by omega)
    refine ⟨ts, htook, by omega, fun more eof hmore => ?_⟩
    rw [hsame _ (htook.peek hts _ _ _)]
    exact hagain more eof hmore
  mend hproper herror hend := by
    rw [hsame s rfl] at herror
    obtain ⟨words, hwords⟩ := h.mend hproper herror hend
    refine ⟨words, fun more tail eof hmore htail => ?_⟩
    rw [hsame _ ?_]
    · exact hwords more tail eof hmore htail
    · rw [peek_mk, upcoming_append hs, upcoming_tokens]
  fresh hempty := absurd hempty hs

/-- An act that does what a steady act does, on all streams whose first two lexemes are as in `s`. The second one may
    also be one that follows. -/
theorem Steady.congrSecond (hs : s.tokens ≠ []) (hwords : max 1 least.length ≤ words.length)
    (h : Steady words follow s act')
    (hsame : ∀ s', s'.peek = s.peek → (s'.peekSecond = s.peekSecond ∨ words.length < 2 ∧ follow s'.peekSecond) →
      act s' = act' s')
    (hmend : s.tokens.length = 1 → ∀ e words, act s = .error e → Mends words follow s act' →
      Mends words follow s act) : Steady least follow s act where
  again hok := by
    rw [hsame s rfl (.inl rfl)] at hok
    obtain ⟨ts, htook, hlength, hagain⟩ := h.again hok
    have hts : ts ≠ [] := List.ne_nil_of_length_pos (by omega)
    refine ⟨ts, htook, by omega, fun more eof hmore => ?_⟩
    rw [hsame _ (htook.peek hts _ _ _) ?_]
    · exact hagain more eof hmore
    · exact (htook.peekSecond hts hmore eof s.last).imp_right fun hfollow => ⟨by omega, hfollow.2⟩
  mend hproper herror hend := by
    have hsame' := hsame s rfl (.inl rfl)
    obtain ⟨words, hwords⟩ := h.mend hproper (hsame' ▸ herror) hend
    -- With a single token the second lexeme of the mended stream is a new one.
    by_cases hsingle : s.tokens.length = 1
    · exact ⟨words, hmend hsingle _ words herror hwords⟩
    have hpositive := List.length_pos_iff.mpr hs
    refine ⟨words, fun more tail eof hmore htail => ?_⟩
    rw [hsame _ ?_ (.inl ?_)]
    · exact hwords more tail eof hmore htail
    · rw [peek_mk, upcoming_append hs, upcoming_tokens]
    · rw [peekSecond_append (by omega) [] s.eof s.last, List.append_nil]
  fresh hempty := absurd hempty hs

theorem Steady.seeing (words : List Filler) (hs : s.tokens ≠ []) (hwords : max 1 least.length ≤ words.length)
    (h : Steady words follow s (look s.peek)) : Steady least follow s (Act.peek >>= look) :=
  h.congr hs hwords fun s' hs' => by rw [Act.bind_peek, hs']

/-- An act that does what a steady act does, if the stream starts as `s` does or with the lexeme that both accept. -/
theorem Steady.otherwise (h : Steady (l :: least) follow s act')
    (hsame : ∀ s', s'.peek = s.peek ∨ s'.peek = l.lexeme → act s' = act' s') : Steady (l :: least) follow s act := by
  by_cases hs : s.tokens = []
  · have hmends : Mends (l :: least) follow s act := (h.fresh hs).congr hs fun s' hs' => hsame s' (.inr hs')
    obtain ⟨e, he⟩ := h.error_of_empty (by simp) hs
    exact .ofMends ⟨e, (hsame s (.inl rfl)).trans he⟩ hmends
  · exact h.congr hs (by simp) fun s' hs' => hsame s' (.inl hs')

theorem Steady.looking (h : Steady [] follow s (look s.peek)) (hfollow : ∀ l, follow l → look l = look s.peek) :
    Steady [] follow s (Act.peek >>= look) := by
  have hfresh : s.tokens = [] → Mends [] follow s (Act.peek >>= look) := by
    intro hs more tail eof hmore htail
    obtain ⟨v, last, hv⟩ := h.fresh hs more tail eof hmore htail
    obtain rfl : more = [] := List.map_eq_nil_iff.mp hmore
    refine ⟨v, last, ?_⟩
    rw [Act.bind_peek, peek_mk, hs, List.nil_append, List.nil_append, hfollow _ htail]
    rwa [hs] at hv
  refine ⟨fun hok => ?_, fun hproper herror hend => ?_, hfresh⟩
  · obtain ⟨ts, htook, hlength, hagain⟩ := h.again hok
    refine ⟨ts, htook, hlength, fun more eof hmore => ?_⟩
    have hlook : look (upcoming (ts ++ more)) = look s.peek := by
      -- If the act takes nothing, the lexeme that it looked at comes from what follows.
      by_cases hts : ts = []
      · subst hts
        rw [List.nil_append]
        obtain hsame | hstop := hmore
        · rw [hsame, ← upcoming_tokens, ← upcoming_tokens s, htook.tokens, List.nil_append]
        · exact hfollow _ hstop
      · rw [← peek_mk, htook.peek hts more eof s.last]
    rw [Act.bind_peek, peek_mk, hlook]
    exact hagain more eof hmore
  · by_cases hs : s.tokens = []
    · exact ⟨[], hfresh hs⟩
    · obtain ⟨words, hwords⟩ := h.mend hproper herror hend
      refine ⟨words, fun more tail eof hmore htail => ?_⟩
      rw [Act.bind_peek, peek_mk, upcoming_append hs, upcoming_tokens]
      exact hwords more tail eof hmore htail

theorem tokens_ne_nil_of_peek (h : s.peek ≠ .eof) : s.tokens ≠ [] := by
  intro hs
  rw [← upcoming_tokens, hs] at h
  exact h rfl

/-- An act that is done only if the wanted lexeme comes, which never follows. -/
theorem Steady.optional {wanted : Lexeme} (words : List Filler) (hwanted : wanted ≠ .eof) (hfollow : ¬ follow wanted)
    (hwords : 1 ≤ words.length) (hact : Steady words follow s act)
    (hact' : Steady [] follow s act') : Steady [] follow s (do if (← Act.peek) = wanted then act else act') := by
  by_cases h : s.peek = wanted
  · have hs : s.tokens ≠ [] := tokens_ne_nil_of_peek (h ▸ hwanted)
    refine .seeing words hs (by simpa using hwords) ?_
    rwa [if_pos h]
  · refine .looking ?_ fun l hl => ?_
    · rwa [if_neg h]
    · have hl' : l ≠ wanted := fun heq => hfollow (heq ▸ hl)
      rw [if_neg h, if_neg hl']

theorem Steady.either {wanted : Lexeme} (words : List Filler) (hwanted : wanted ≠ .eof) (hother : l.lexeme ≠ wanted)
    (hwords : least.length + 1 ≤ words.length) (hact : Steady words follow s act)
    (hact' : Steady (l :: least) follow s act') :
    Steady (l :: least) follow s (do if (← Act.peek) = wanted then act else act') := by
  by_cases h : s.peek = wanted
  · refine .seeing words (tokens_ne_nil_of_peek (h ▸ hwanted)) (by simpa using hwords) ?_
    rwa [if_pos h]
  · refine hact'.otherwise fun s' hs' => ?_
    have hs'' : s'.peek ≠ wanted := by
      obtain hs' | hs' := hs'
      · rwa [hs']
      · rwa [hs']
    rw [Act.bind_peek, if_neg hs'']

theorem Steady.wanting (wanted : Filler) (words : List Filler) (hwords : least.length + 1 ≤ words.length)
    (hact : Steady (wanted :: least) follow s act) (hact' : Steady words follow s act') :
    Steady (wanted :: least) follow s (do if (← Act.peek) = wanted.lexeme then act else act') := by
  by_cases h : s.peek = wanted.lexeme
  · refine hact.otherwise fun s' hs' => ?_
    rw [Act.bind_peek, if_pos (hs'.elim (·.trans h) id)]
  by_cases hs : s.tokens = []
  · obtain ⟨e, he⟩ := hact'.error_of_empty (by omega) hs
    refine .ofMends ⟨e, ?_⟩ ((hact.fresh hs).congr hs fun s' hs' => ?_)
    · rw [Act.bind_peek, if_neg h, he]
    · rw [Act.bind_peek, if_pos hs']
  · refine .seeing words hs (by simpa using hwords) ?_
    rwa [if_neg h]

theorem Steady.until {closing : Lexeme} {v : α} (words : List Filler) (hwords : 1 ≤ words.length)
    (hact : Steady words (· = closing) s act) :
    Steady [] (· = closing) s (do if (← Act.peek) = closing then return v else act) := by
  by_cases h : s.peek = closing
  · refine .looking ?_ ?_
    · rw [if_pos h]
      exact steady_pure v
    · rintro l rfl
      rw [if_pos rfl, if_pos h]
  by_cases hs : s.tokens = []
  · obtain ⟨e, he⟩ := hact.error_of_empty hwords hs
    refine .ofMends ⟨e, ?_⟩ fun more tail eof hmore htail => ?_
    · rw [Act.bind_peek, if_neg h, he]
    · obtain rfl : more = [] := List.map_eq_nil_iff.mp hmore
      refine ⟨v, s.last, ?_⟩
      rw [hs, List.nil_append, List.nil_append, Act.bind_peek, peek_mk, if_pos htail]
      rfl
  · refine .seeing words hs (by simpa using hwords) ?_
    rwa [if_neg h]

theorem Steady.placed {put : Position → Act α} (h : ∀ start, Steady (l :: least) follow s (put start)) :
    Steady (l :: least) follow s (Act.place >>= put) where
  again hok := by
    obtain ⟨ts, htook, hlength, hagain⟩ := (h _).again hok
    rw [List.length_cons] at hlength
    have hts : ts ≠ [] := List.ne_nil_of_length_pos (by omega)
    refine ⟨ts, htook, hlength, fun more eof hmore => ?_⟩
    rw [Act.bind_place, htook.place hts]
    exact hagain more eof hmore
  mend hproper herror hend := by
    by_cases hs : s.tokens = []
    · exact ⟨_, fun more tail eof hmore htail => (h _).fresh hs more tail eof hmore htail⟩
    · obtain ⟨words, hwords⟩ := (h _).mend hproper herror hend
      refine ⟨words, fun more tail eof hmore htail => ?_⟩
      have htook : Took s s.tokens ⟨[], s.eof, endOf s.last s.tokens⟩ := ⟨(List.append_nil _).symm, rfl, rfl⟩
      rw [Act.bind_place, htook.place hs]
      exact hwords more tail eof hmore htail
  fresh hs := fun more tail eof hmore htail => (h _).fresh hs more tail eof hmore htail

end Looking

/-! ## Single tokens -/

section Single

variable {α : Type} {s : Stream} {least : List Filler} {follow : Lexeme → Prop}

theorem Steady.spanning {start : Position} {tree : Span → Act α} (h : Steady least follow s (tree (s.since start))) :
    Steady least follow s (Act.since start >>= tree) :=
  ⟨h.again, h.mend, h.fresh⟩

theorem steady_spanned (start : Position) (tree : Span → α) :
    Steady [] follow s (do return tree (← Act.since start)) :=
  .spanning (steady_pure _)

theorem steady_error {act : Act α} {e : ParseError} (hs : s.tokens ≠ []) (herror : act s = .error e)
    (hend : (∀ t ∈ s.tokens, t.lexeme ≠ .eof) → ¬ e.cause.AtEnd) : Steady least follow s act where
  again h := by
    rw [herror] at h
    cases h
  mend hproper h hatEnd := by
    rw [herror] at h
    cases h
    exact absurd hatEnd (hend hproper)
  fresh hempty := absurd hempty hs

theorem peek_ne_eof (hs : s.tokens ≠ []) (hproper : ∀ t ∈ s.tokens, t.lexeme ≠ .eof) : s.peek ≠ .eof := by
  obtain ⟨_ | ⟨t, ts⟩, eof, last⟩ := s
  · exact absurd rfl hs
  · exact hproper t List.mem_cons_self

/-- A complaint about the next lexeme, which only at the end of the text speaks of it. -/
theorem steady_complain {cause : Lexeme → ParseCause} (hs : s.tokens ≠ [])
    (hcause : ∀ found, found ≠ .eof → ¬ (cause found).AtEnd) : Steady least follow s (Act.complain cause : Act α) :=
  steady_error hs rfl fun hproper => hcause _ (peek_ne_eof hs hproper)

theorem Act.expect_cons (t : Token) (ts : List Token) (eof last : Position) :
    Act.expect t.lexeme ⟨t :: ts, eof, last⟩ = .ok (t, ⟨ts, eof, t.stop⟩) := by
  rw [Act.expect, Parser.expect, accept_of_eq rfl]
  rfl

theorem steady_expect (w : Filler) : Steady [w] anything s (Act.expect w.lexeme) := by
  have hmends : s.tokens = [] → Mends [w] anything s (Act.expect w.lexeme) := by
    intro hs more tail eof hmore _
    obtain ⟨t, rfl, hword⟩ := List.map_eq_singleton_iff.mp hmore
    rw [hs, ← hword]
    exact ⟨_, _, Act.expect_cons t tail eof _⟩
  obtain ⟨_ | ⟨t, ts⟩, eof, last⟩ := s
  · exact .ofMends ⟨_, rfl⟩ (hmends rfl)
  by_cases hword : t.lexeme = w.lexeme
  · refine ⟨fun h => ?_, fun _ h => ?_, hmends⟩
    · rw [← hword, Act.expect_cons] at h
      cases h
      refine ⟨[t], ⟨rfl, rfl, rfl⟩, Nat.le_refl 1, fun more eof _ => ?_⟩
      rw [← hword]
      exact Act.expect_cons t more eof _
    · rw [← hword, Act.expect_cons] at h
      cases h
  · have hpeek : Stream.peek ⟨t :: ts, eof, last⟩ ≠ w.lexeme := hword
    have herror : Act.expect w.lexeme ⟨t :: ts, eof, last⟩ =
        .error ⟨.expectedLexeme w.lexeme t.lexeme, t.start, ""⟩ := by
      rw [Act.expect, Parser.expect, accept_of_ne hpeek]
      rfl
    exact steady_error (List.cons_ne_nil t ts) herror fun hproper => hproper t List.mem_cons_self

theorem steady_mark (p : Punct) : Steady [.mark p] anything s (Act.expect (mark p)) := steady_expect (.mark p)

theorem steady_expectName (role : String) : Steady [.name] anything s (Act.expectName role) := by
  obtain ⟨_ | ⟨⟨lexeme, start, stop⟩, ts⟩, eof, last⟩ := s
  · refine .ofMends ⟨_, rfl⟩ fun more tail eof hmore _ => ?_
    obtain ⟨⟨_, start, stop⟩, rfl, rfl⟩ := List.map_eq_singleton_iff.mp hmore
    exact ⟨_, _, rfl⟩
  · cases lexeme with
    | ident name =>
      refine ⟨fun h => ?_, fun _ h => (nomatch h), fun hs => nomatch hs⟩
      cases h
      exact ⟨[_], ⟨rfl, rfl, rfl⟩, Nat.le_refl 1, fun _ _ _ => rfl⟩
    | eof => exact steady_error (List.cons_ne_nil _ _) rfl fun hproper => hproper _ List.mem_cons_self
    | _ => exact steady_error (List.cons_ne_nil _ _) rfl fun _ => nofun

theorem steady_token (w : Filler) : Steady [w] anything s Act.token := by
  obtain ⟨_ | ⟨t, ts⟩, eof, last⟩ := s
  · refine .ofMends ⟨_, rfl⟩ fun more tail eof hmore _ => ?_
    obtain ⟨t, rfl, -⟩ := List.map_eq_singleton_iff.mp hmore
    exact ⟨_, _, rfl⟩
  · refine ⟨fun h => ?_, fun _ h => (nomatch h), fun hs => nomatch hs⟩
    cases h
    exact ⟨[t], ⟨rfl, rfl, rfl⟩, Nat.le_refl 1, fun _ _ _ => rfl⟩

end Single

end KestrelLang.Parser
