import KestrelLang.Host.Interpreter
import KestrelLang.Proofs.Grammar.Splitting
import Mathlib.Data.List.Basic

/-! # Kept programs

A program that was kept stands for the text under whose key it was found. Keys are a name, a zero byte and the
bytes of the text, so they tell texts apart as long as no name has a zero byte in it.

* `ZeroFree` — a name that its key gives back.
* `Interpreter.History` — what may have happened to an interpreter, with any entries dropped on the way.
* `Interpreter.Honest` — every program kept is that of a text with its key.
* `Interpreter.compileSource_of_same_key` — a program just compiled is the answer for every text with its key.
* `compileSource_same_as_compileText` — whatever was kept or dropped, the answer is that of a new compilation.
* `zero_byte_confuses_texts` — with a zero byte in a name, the answer may be that for another text. -/

namespace KestrelLang

/-! ## Keys -/

theorem byteArrayToListLoop_eq (bytes : ByteArray) (i : Nat) (acc : List UInt8) :
    ByteArray.toList.loop bytes i acc = acc.reverse ++ bytes.data.toList.drop i := by
  fun_induction ByteArray.toList.loop bytes i acc with
  | case1 i acc hi ih =>
    have hlength : i < bytes.data.toList.length := hi
    rw [ih, List.reverse_cons, List.append_assoc, List.drop_eq_getElem_cons hlength]
    simp [ByteArray.get!, hi]
  | case2 i acc hi =>
    have hlength : bytes.data.toList.length ≤ i := Nat.le_of_not_lt hi
    rw [List.drop_eq_nil_of_le hlength, List.append_nil]

theorem byteArrayToList_eq (bytes : ByteArray) : bytes.toList = bytes.data.toList :=
  byteArrayToListLoop_eq bytes 0 []

theorem toUTF8_toList_inj {s t : String} (h : s.toUTF8.toList = t.toUTF8.toList) : s = t := by
  rw [byteArrayToList_eq, byteArrayToList_eq, Array.toList_inj] at h
  exact String.toByteArray_inj.mp (ByteArray.ext h)

theorem toUTF8_toList_append (s t : String) :
    (s ++ t).toUTF8.toList = s.toUTF8.toList ++ t.toUTF8.toList := by
  simp [byteArrayToList_eq]

theorem append_zero_inj {a a' b b' : List UInt8} (ha : 0 ∉ a) (ha' : 0 ∉ a')
    (h : a ++ 0 :: b = a' ++ 0 :: b') : a = a' ∧ b = b' := by
  -- The first zero byte of each side ends its name, so the names end together.
  induction a generalizing a' with
  | nil =>
    cases a' with
    | nil => exact ⟨rfl, List.tail_eq_of_cons_eq h⟩
    | cons x a' => exact absurd (List.head_eq_of_cons_eq h ▸ List.mem_cons_self) ha'
  | cons x a ih =>
    cases a' with
    | nil => exact absurd ((List.head_eq_of_cons_eq h).symm ▸ List.mem_cons_self) ha
    | cons x' a' =>
      obtain ⟨rfl, htail⟩ := List.cons_eq_cons.mp h
      obtain ⟨rfl, hrest⟩ := ih (List.not_mem_of_not_mem_cons ha) (List.not_mem_of_not_mem_cons ha') htail
      exact ⟨rfl, hrest⟩

def ZeroFree (origin : String) : Prop := 0 ∉ origin.toUTF8.toList

namespace Interpreter

theorem keyOf_inj {origin origin' : String} {source source' : List UInt8} (ho : ZeroFree origin)
    (ho' : ZeroFree origin') (h : keyOf origin source = keyOf origin' source') :
    origin = origin' ∧ source = source' := by
  obtain ⟨horigin, hsource⟩ := append_zero_inj ho ho' h
  exact ⟨toUTF8_toList_inj horigin, hsource⟩

/-- A name with a zero byte in it has the key of a shorter name with a longer text. -/
theorem keyOf_append_zero (name more : String) (source : List UInt8) :
    keyOf (name ++ "\x00" ++ more) source = keyOf name (more.toUTF8.toList ++ 0 :: source) := by
  have hzero : "\x00".toUTF8.toList = [0] := byteArrayToList_eq _
  simp only [keyOf, toUTF8_toList_append, hzero, List.append_assoc, List.cons_append, List.nil_append]

end Interpreter

/-! ## Entries -/

namespace Cache

variable {K V : Type} [DecidableEq K] {c : Cache K V} {key : K} {v : V} {e : K × V}

theorem mem_of_lookup {entries : List (K × V)} (h : lookup key entries = some v) : (key, v) ∈ entries := by
  fun_induction lookup key entries with
  | case1 => cases h
  | case2 v rest =>
    cases h
    exact List.mem_cons_self
  | case3 k v rest hne ih => exact List.mem_cons_of_mem _ (ih h)

theorem mem_of_mem_without {entries : List (K × V)} (h : e ∈ without key entries) : e ∈ entries :=
  (List.mem_filter.mp h).1

theorem find?_some (h : (c.find? key).1 = some v) :
    (key, v) ∈ c.entries ∧ ∀ e ∈ (c.find? key).2.entries, e ∈ c.entries := by
  unfold find? at h ⊢
  cases hlookup : lookup key c.entries with
  | none =>
    rw [hlookup] at h
    cases h
  | some v' =>
    rw [hlookup] at h
    cases h
    have hmem := mem_of_lookup hlookup
    refine ⟨hmem, fun e he => ?_⟩
    obtain rfl | he := List.mem_cons.mp he
    · exact hmem
    · exact mem_of_mem_without he

theorem lookup_find? (h : (c.find? key).1 = some v) : lookup key (c.find? key).2.entries = some v := by
  unfold find? at h ⊢
  cases hlookup : lookup key c.entries with
  | none =>
    rw [hlookup] at h
    cases h
  | some v' =>
    rw [hlookup] at h
    cases h
    exact if_pos rfl

theorem lookup_add (hroom : 0 < c.capacity) (key : K) (v : V) : lookup key (c.add key v).entries = some v := by
  obtain ⟨n, hn⟩ := Nat.exists_eq_succ_of_ne_zero (Nat.ne_of_gt hroom)
  rw [add, hn]
  exact if_pos rfl

theorem find?_of_lookup (h : lookup key c.entries = some v) : (c.find? key).1 = some v := by
  rw [find?, h]

theorem mem_add (h : e ∈ (c.add key v).entries) : e = (key, v) ∨ e ∈ c.entries :=
  (List.mem_cons.mp (List.mem_of_mem_take h)).imp_right mem_of_mem_without

end Cache

/-! ## Histories -/

namespace Interpreter

variable {i : Interpreter} {options : Options} {named : String → Prop} {origin : String} {source : List UInt8}

/-- What may have happened to an interpreter whose texts had names of a kind: it compiled them, whether it kept
    their programs or not, it started threads, and at any time some entries were dropped. -/
inductive History (named : String → Prop) (options : Options) : Interpreter → Prop
  | new : History named options (.new options)
  | compile {i : Interpreter} {origin : String} (source : List UInt8) (before : History named options i)
      (horigin : named origin) : History named options (i.compileSource origin source).2.2
  | spawn {i : Interpreter} (before : History named options i) : History named options i.spawn.2
  | drop {i : Interpreter} {kept : List (SourceKey × Compiled)} (before : History named options i)
      (hkept : kept ⊆ i.cache.entries) :
      History named options { i with cache := { i.cache with entries := kept } }

/-- A program kept under a key is that of a text with this key. -/
def Honest (named : String → Prop) (i : Interpreter) : Prop :=
  ∀ e ∈ i.cache.entries, ∃ origin source, named origin ∧ e.1 = keyOf origin source ∧
    (compileText origin source).1 = .ok e.2.program

/-- A kept program is found, or the text is compiled: then a program is kept and an error is not. -/
theorem compileSource_cases (i : Interpreter) (origin : String) (source : List UInt8) :
    (∃ c, (i.cache.find? (keyOf origin source)).1 = some c ∧ (i.compileSource origin source).1 = .ok c ∧
      (i.compileSource origin source).2.2.cache = (i.cache.find? (keyOf origin source)).2) ∨
    (∃ e, (compileText origin source).1 = .error e ∧ (i.compileSource origin source).1 = .error e ∧
      (i.compileSource origin source).2.2 = i) ∨
    ∃ p, (compileText origin source).1 = .ok p ∧ (i.compileSource origin source).1 = .ok ⟨i.programs, p⟩ ∧
      (i.compileSource origin source).2.2.cache = i.cache.add (keyOf origin source) ⟨i.programs, p⟩ := by
  unfold compileSource
  dsimp only
  obtain ⟨_ | c, cache⟩ := i.cache.find? (keyOf origin source)
  · right
    obtain ⟨e | p, events⟩ := compileText origin source
    · exact .inl ⟨e, rfl, rfl, rfl⟩
    · exact .inr ⟨p, rfl, rfl, rfl⟩
  · exact .inl ⟨c, rfl, rfl, rfl⟩

theorem cache_of_found {c : Compiled} (h : (i.cache.find? (keyOf origin source)).1 = some c) :
    (i.compileSource origin source).2.2.cache = (i.cache.find? (keyOf origin source)).2 := by
  unfold compileSource
  dsimp only
  generalize i.cache.find? (keyOf origin source) = found at h
  obtain ⟨_ | c', cache⟩ := found
  · cases h
  · rfl

theorem cache_of_missing {p : Program} (hmissing : (i.cache.find? (keyOf origin source)).1 = none)
    (hp : (compileText origin source).1 = .ok p) :
    (i.compileSource origin source).2.2.cache = i.cache.add (keyOf origin source) ⟨i.programs, p⟩ := by
  obtain ⟨c, hfound, -⟩ | ⟨e, hrefused, -⟩ | ⟨p', hp', -, hcache⟩ := compileSource_cases i origin source
  · cases hmissing.symm.trans hfound
  · cases hp.symm.trans hrefused
  · cases hp.symm.trans hp'
    exact hcache

theorem compileSource_of_found {c : Compiled} (h : (i.cache.find? (keyOf origin source)).1 = some c) :
    (i.compileSource origin source).1 = .ok c := by
  unfold compileSource
  dsimp only
  generalize i.cache.find? (keyOf origin source) = found at h
  obtain ⟨_ | c', cache⟩ := found
  · cases h
  · cases h
    rfl

/-- A program is the answer for whatever text has the same key, right after it was compiled. -/
theorem compileSource_of_same_key {c : Compiled} (hroom : 0 < i.cache.capacity)
    (h : (i.compileSource origin source).1 = .ok c) {origin' : String} {source' : List UInt8}
    (hkey : keyOf origin' source' = keyOf origin source) :
    ((i.compileSource origin source).2.2.compileSource origin' source').1 = .ok c := by
  apply compileSource_of_found
  rw [hkey]
  apply Cache.find?_of_lookup
  obtain ⟨c', hfound, hanswer, hafter⟩ | ⟨e, -, hanswer, -⟩ | ⟨p, -, hanswer, hafter⟩ :=
    compileSource_cases i origin source
  · cases hanswer.symm.trans h
    rw [hafter]
    exact Cache.lookup_find? hfound
  · cases hanswer.symm.trans h
  · cases hanswer.symm.trans h
    rw [hafter]
    exact Cache.lookup_add hroom _ _

/-- With honest entries, the answer is the one for a text with the same key. -/
theorem compileSource_of_honest (hi : i.Honest named) (horigin : named origin) (source : List UInt8) :
    ∃ origin' source', named origin' ∧ keyOf origin source = keyOf origin' source' ∧
      (i.compileSource origin source).1.map Compiled.program = (compileText origin' source').1 := by
  obtain ⟨c, hfound, hanswer, -⟩ | ⟨e, htext, hanswer, -⟩ | ⟨p, htext, hanswer, -⟩ :=
    compileSource_cases i origin source
  · obtain ⟨origin', source', hnamed, hkey, hprogram⟩ := hi _ (Cache.find?_some hfound).1
    refine ⟨origin', source', hnamed, hkey, ?_⟩
    rw [hanswer, hprogram, Except.map]
  · refine ⟨origin, source, horigin, rfl, ?_⟩
    rw [hanswer, htext, Except.map]
  · refine ⟨origin, source, horigin, rfl, ?_⟩
    rw [hanswer, htext, Except.map]

theorem Honest.of_subset {i' : Interpreter} (hi : i.Honest named)
    (h : ∀ e ∈ i'.cache.entries, e ∈ i.cache.entries) : i'.Honest named := fun e he => hi e (h e he)

theorem honest_compileSource (hi : i.Honest named) (horigin : named origin) (source : List UInt8) :
    (i.compileSource origin source).2.2.Honest named := by
  obtain ⟨c, hfound, -, hafter⟩ | ⟨e, -, -, hafter⟩ | ⟨p, htext, -, hafter⟩ :=
    compileSource_cases i origin source
  · refine hi.of_subset fun e he => ?_
    rw [hafter] at he
    exact (Cache.find?_some hfound).2 e he
  -- An error is not kept.
  · rw [hafter]
    exact hi
  · intro e he
    rw [hafter] at he
    obtain rfl | he := Cache.mem_add he
    · exact ⟨origin, source, horigin, rfl, htext⟩
    · exact hi e he

theorem History.honest (h : i.History named options) : i.Honest named := by
  induction h with
  | new => exact fun e he => absurd he List.not_mem_nil
  | compile source _ horigin ih => exact honest_compileSource ih horigin source
  | spawn _ ih => exact ih
  | drop _ hkept ih => exact ih.of_subset hkept

end Interpreter

/-- Names without a zero byte: after any history of compilations, hits and drops, with any number of entries, the
    answer for a text is that of compiling it anew, an equal program or the same error. -/
theorem compileSource_same_as_compileText (options : Options) (i : Interpreter)
    (hi : i.History ZeroFree options) (origin : String) (horigin : ZeroFree origin) (source : List UInt8) :
    (i.compileSource origin source).1.map Compiled.program = (compileText origin source).1 := by
  obtain ⟨origin', source', horigin', hkey, hanswer⟩ :=
    Interpreter.compileSource_of_honest hi.honest horigin source
  obtain ⟨rfl, rfl⟩ := Interpreter.keyOf_inj horigin horigin' hkey
  exact hanswer

namespace Kept

/-- The text `say(1);`, in bytes. -/
def greeting : List UInt8 := [115, 97, 121, 40, 49, 41, 59]

/-- The text `x=2;`, in bytes. -/
def assignment : List UInt8 := [120, 61, 50, 59]

/-- An interpreter with room for two programs that has compiled the first text. -/
def one : Interpreter := ((Interpreter.new ⟨0, 0, 2⟩).compileSource "a" greeting).2.2

def both : Interpreter := (one.compileSource "b" assignment).2.2

/-- The same after one more use of the first text, when the entry unused for longest was dropped. -/
def dropped : Interpreter :=
  let i := (both.compileSource "a" greeting).2.2
  { i with cache := { i.cache with entries := i.cache.entries.take 1 } }

theorem zeroFree_a : ZeroFree "a" := by
  rw [ZeroFree, show "a".toUTF8.toList = [97] from byteArrayToList_eq _]
  decide

theorem zeroFree_b : ZeroFree "b" := by
  rw [ZeroFree, show "b".toUTF8.toList = [98] from byteArrayToList_eq _]
  decide

theorem keys_ne : Interpreter.keyOf "a" greeting ≠ Interpreter.keyOf "b" assignment :=
  fun h => absurd (Interpreter.keyOf_inj zeroFree_a zeroFree_b h).1 (by decide)

theorem compiles_greeting : ∃ p, (compileText "a" greeting).1 = .ok p := by
  let text : List Char := ['s', 'a', 'y', '(', '1', ')', ';']
  have hsay : Lexer.scanToken 's' text.tail = .ok (.ident "say", 3) := by decide +kernel
  have hone : Lexer.scanToken '1' (text.drop 5) = .ok (.int "1", 1) := by decide +kernel
  have hend : Lexer.scan ⟨1, 8⟩ [] = .ok ⟨[], ⟨1, 8⟩⟩ := Lexer.scan_of_end rfl
  have hargs := Lexer.scan_cons ⟨1, 5⟩ (text.drop 4) rfl hone
    (Lexer.scan_cons ⟨1, 6⟩ (text.drop 5) rfl rfl (Lexer.scan_cons ⟨1, 7⟩ (text.drop 6) rfl rfl hend))
  have htokens : Lexer.tokenize text = .ok _ :=
    Lexer.scan_cons ⟨1, 1⟩ text rfl hsay (Lexer.scan_cons ⟨1, 4⟩ (text.drop 3) rfl rfl hargs)
  rw [compileText, show Text.decodeUtf8 greeting = text by decide, Parser.parseModule, htokens]
  exact ⟨_, rfl⟩

theorem compiles_assignment : ∃ p, (compileText "b" assignment).1 = .ok p := by
  let text : List Char := ['x', '=', '2', ';']
  have hx : Lexer.scanToken 'x' text.tail = .ok (.ident "x", 1) := by decide +kernel
  have htwo : Lexer.scanToken '2' (text.drop 3) = .ok (.int "2", 1) := by decide +kernel
  have hend : Lexer.scan ⟨1, 5⟩ [] = .ok ⟨[], ⟨1, 5⟩⟩ := Lexer.scan_of_end rfl
  have hvalue := Lexer.scan_cons ⟨1, 3⟩ (text.drop 2) rfl htwo
    (Lexer.scan_cons ⟨1, 4⟩ (text.drop 3) rfl rfl hend)
  have htokens : Lexer.tokenize text = .ok _ :=
    Lexer.scan_cons ⟨1, 1⟩ text rfl hx (Lexer.scan_cons ⟨1, 2⟩ text.tail rfl rfl hvalue)
  rw [compileText, show Text.decodeUtf8 assignment = text by decide, Parser.parseModule, htokens]
  exact ⟨_, rfl⟩

theorem entries_both : ∃ c d, both.cache =
    ⟨2, [(Interpreter.keyOf "b" assignment, d), (Interpreter.keyOf "a" greeting, c)]⟩ := by
  obtain ⟨p, hp⟩ := compiles_greeting
  obtain ⟨q, hq⟩ := compiles_assignment
  have hone : one.cache = ⟨2, [(Interpreter.keyOf "a" greeting, ⟨0, p⟩)]⟩ := Interpreter.cache_of_missing rfl hp
  have hmissing : (one.cache.find? (Interpreter.keyOf "b" assignment)).1 = none := by
    simp [hone, Cache.find?, Cache.lookup, keys_ne]
  refine ⟨⟨0, p⟩, ⟨one.programs, q⟩, (Interpreter.cache_of_missing hmissing hq).trans ?_⟩
  simp [hone, Cache.add, Cache.without, keys_ne]

/-- Two texts are kept side by side. The first is found again, among two entries; then the second is dropped, and is
    compiled anew. Each time the answer is that of compiling the text without a cache. -/
theorem each_text_keeps_its_program :
    (both.cache.find? (Interpreter.keyOf "a" greeting)).1.isSome ∧ both.cache.entries.length = 2 ∧
      (dropped.cache.find? (Interpreter.keyOf "b" assignment)).1 = none ∧
      (both.compileSource "a" greeting).1.map Compiled.program = (compileText "a" greeting).1 ∧
      (both.compileSource "b" assignment).1.map Compiled.program = (compileText "b" assignment).1 ∧
      (dropped.compileSource "b" assignment).1.map Compiled.program = (compileText "b" assignment).1 := by
  obtain ⟨c, d, hboth⟩ := entries_both
  have hfound : (both.cache.find? (Interpreter.keyOf "a" greeting)).1 = some c := by
    simp [hboth, Cache.find?, Cache.lookup, keys_ne.symm]
  have hdropped : (dropped.cache.find? (Interpreter.keyOf "b" assignment)).1 = none := by
    have hafter : (both.compileSource "a" greeting).2.2.cache = (both.cache.find? (Interpreter.keyOf "a" greeting)).2 :=
      Interpreter.cache_of_found hfound
    simp [dropped, hafter, hboth, Cache.find?, Cache.lookup, Cache.without, keys_ne, keys_ne.symm]
  have hhistory : both.History ZeroFree ⟨0, 0, 2⟩ :=
    .compile assignment (.compile greeting .new zeroFree_a) zeroFree_b
  have hafter : dropped.History ZeroFree ⟨0, 0, 2⟩ :=
    (Interpreter.History.compile greeting hhistory zeroFree_a).drop (List.take_subset 1 _)
  exact ⟨by rw [hfound]; rfl, by rw [hboth]; rfl, hdropped,
    compileSource_same_as_compileText _ _ hhistory "a" zeroFree_a greeting,
    compileSource_same_as_compileText _ _ hhistory "b" zeroFree_b assignment,
    compileSource_same_as_compileText _ _ hafter "b" zeroFree_b assignment⟩

end Kept

/-- The text of one zero byte is no module; but under the name `a` it has the key of the empty text with the name
    `a` and a zero byte, and gets its program. -/
theorem zero_byte_confuses_texts :
    let i := ((Interpreter.new ⟨0, 0, 0⟩).compileSource "a\x00" []).2.2
    (∃ e, (compileText "a" [0]).1 = .error e) ∧ ∃ c, (i.compileSource "a" [0]).1 = .ok c := by
  constructor
  · have htokens : Lexer.tokenize ['\x00'] = .error ⟨.unexpectedCharacter '\x00', ⟨1, 1⟩, ""⟩ :=
      Lexer.scan_of_error rfl rfl
    rw [compileText, show Text.decodeUtf8 [0] = ['\x00'] from rfl, Parser.parseModule, htokens]
    exact ⟨_, rfl⟩
  · obtain ⟨p, hempty⟩ : ∃ p, (compileText "a\x00" []).1 = .ok p := by
      have htokens : Lexer.tokenize [] = .ok ⟨[], ⟨1, 1⟩⟩ := Lexer.scan_of_end rfl
      rw [compileText, show Text.decodeUtf8 [] = [] from rfl, Parser.parseModule, htokens]
      exact ⟨_, rfl⟩
    have hkey := Interpreter.keyOf_append_zero "a" "" []
    rw [show "".toUTF8.toList = [] from byteArrayToList_eq _] at hkey
    obtain ⟨c, -, hanswer, -⟩ | ⟨e, hrefused, -⟩ | ⟨p', -, hanswer, -⟩ :=
      Interpreter.compileSource_cases (.new ⟨0, 0, 0⟩) "a\x00" []
    · exact ⟨c, Interpreter.compileSource_of_same_key (by decide) hanswer hkey.symm⟩
    · cases hempty.symm.trans hrefused
    · exact ⟨_, Interpreter.compileSource_of_same_key (by decide) hanswer hkey.symm⟩

end KestrelLang
