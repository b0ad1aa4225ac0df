import SearchFilter.Proofs.Grammar.Extension
import SearchFilter.Proofs.Grammar.Missing
import SearchFilter.Proofs.Parser.Agreement

/-!
# Bare values

Behind `:` stands a value without spaces, parentheses and quotes. A number that a filter can hold and the words `true`,
`false` and `null` are read wherever such a value starts with them, and then nothing more may follow (`Token.Commits`).
Any other value is a text.

* `Token.literal_of_commits`, `Token.literal_of_bare` — what is read of a bare value.
* `parse_of_value` — a text that starts with a field, `:` and a value.
* `parse_bareValue` — when such a text is a filter, and where it fails if it is none.
-/

namespace SearchFilter

open Grammar (IsField Miss)

/-! ## What is read of a bare value -/

namespace Token

variable {u v : List Char} {l : Literal}

/-- The words that are literals other than texts. -/
def keywords : List (String × Literal) := [("true", .boolean true), ("false", .boolean false), ("null", .null)]

/-- What is read at the head of a text, whatever follows: all digits ahead, if they are a number that a filter can hold,
and keywords. -/
inductive Commits (v : List Char) : List Char → Literal → Prop
  | number : v.takeWhile Char.isDigit ≠ [] → Nat.ofDigitChars 10 (v.takeWhile Char.isDigit) 0 ≤ maxNumber →
    Commits v (v.takeWhile Char.isDigit) (.number (Int64.ofNat (Nat.ofDigitChars 10 (v.takeWhile Char.isDigit) 0)))
  | keyword {word : String} {l : Literal} : (word, l) ∈ keywords → word.toList <+: v → Commits v word.toList l

theorem Commits.isPrefix (h : Commits v u l) : u <+: v := by
  cases h with
  | number => exact List.takeWhile_prefix _
  | keyword _ hp => exact hp

/-- No space follows what is read of a bare value. -/
theorem Commits.exists_rest (h : Commits v u l) (hv : ∀ x ∈ v, isBareChar x = true) :
    ∃ t, v = u ++ t ∧ t.head? ≠ some ' ' := by
  obtain ⟨t, rfl⟩ := h.isPrefix
  refine ⟨t, rfl, fun hhead => ?_⟩
  have hspace := hv ' ' (List.mem_append_right _ (List.mem_of_mem_head? hhead))
  exact absurd hspace (by decide)

theorem literal_of_commits (h : Commits v u l) : literal v = some ⟨l, u.length⟩ := by
  cases h with
  | number hne hle =>
    have hrun : run Char.isDigit v = some ⟨v.takeWhile Char.isDigit, (v.takeWhile Char.isDigit).length⟩ :=
      run_eq_some_iff.2 ⟨rfl, hne, rfl⟩
    simp [literal, number, hrun, hle]
  | keyword hmem hp =>
    obtain ⟨t, rfl⟩ := hp
    simp only [keywords, List.mem_cons, Prod.mk.injEq, List.not_mem_nil, or_false] at hmem
    rcases hmem with ⟨rfl, rfl⟩ | ⟨rfl, rfl⟩ | ⟨rfl, rfl⟩
    all_goals simp [literal, number, run, boolean, null, fixed, String.length]

theorem Commits.unique {u' : List Char} {l' : Literal} (h : Commits v u l) (h' : Commits v u' l') :
    u = u' ∧ l = l' := by
  have hsame := (literal_of_commits h).symm.trans (literal_of_commits h')
  obtain ⟨rfl, hlength⟩ := Lexeme.mk.inj (Option.some.inj hsame)
  exact ⟨(List.prefix_of_prefix_length_le h.isPrefix h'.isPrefix (Nat.le_of_eq hlength)).eq_of_length hlength, rfl⟩

theorem Commits.number_or_keyword (h : Commits v u l) :
    v.takeWhile Char.isDigit = u ∧ Nat.ofDigitChars 10 u 0 ≤ maxNumber ∧
      l = .number (Int64.ofNat (Nat.ofDigitChars 10 u 0)) ∨
    ∃ word : String, word.toList = u ∧ (word, l) ∈ keywords := by
  cases h with
  | number _ hle => exact .inl ⟨rfl, hle, rfl⟩
  | keyword hmem _ => exact .inr ⟨_, rfl, hmem⟩

theorem toInt_eq_iff {i : Int64} {n : Nat} (h : n ≤ maxNumber) : i.toInt = n ↔ i = Int64.ofNat n := by
  have hn : (Int64.ofNat n).toInt = n := Int64.toInt_ofNat_of_lt (by unfold maxNumber at h; omega)
  rw [← hn, Int64.toInt_inj]

/-- What a whole bare value is read as, unless as a text. -/
theorem commits_self_iff {v : String} (hne : v.toList ≠ []) : Commits v.toList v.toList l ↔
    v.toList = v.toList.takeWhile Char.isDigit ∧ Nat.ofDigitChars 10 (v.toList.takeWhile Char.isDigit) 0 ≤ maxNumber ∧
      (∃ i : Int64, i.toInt = Nat.ofDigitChars 10 (v.toList.takeWhile Char.isDigit) 0 ∧ l = .number i) ∨
    (v, l) ∈ keywords := by
  constructor
  · intro h
    rcases h.number_or_keyword with ⟨hd, hle, rfl⟩ | ⟨word, hword, hmem⟩
    · exact .inl ⟨hd.symm, by rwa [hd], _, (toInt_eq_iff (by rwa [hd])).2 (by rw [hd]), rfl⟩
    · exact .inr (by rwa [← String.toList_inj.1 hword])
  · rintro (⟨hd, hle, i, hi, rfl⟩ | hmem)
    · have hnumber := Commits.number (v := v.toList) (by rwa [← hd]) hle
      rw [← (toInt_eq_iff hle).1 hi] at hnumber
      rwa [← hd] at hnumber
    · exact .keyword hmem (List.prefix_refl _)

theorem forall_not_commits_iff : (∀ u k, ¬ Commits v u k) ↔ (∀ k ∈ keywords, ¬ k.1.toList <+: v) ∧
    (v.takeWhile Char.isDigit = [] ∨ maxNumber < Nat.ofDigitChars 10 (v.takeWhile Char.isDigit) 0) := by
  constructor
  · intro h
    refine ⟨fun k hk hp => h _ _ (.keyword hk hp), ?_⟩
    by_contra hn
    rw [not_or, Nat.not_lt] at hn
    exact h _ _ (.number hn.1 hn.2)
  · rintro ⟨hkeywords, hdigits⟩ u k (⟨hne, hle⟩ | ⟨hmem, hp⟩)
    · rcases hdigits with hnil | hlt
      · exact hne hnil
      · omega
    · exact hkeywords _ hmem hp

/-- A bare text that starts with neither a number nor a keyword is a text to its end. -/
theorem literal_of_bare (hne : v ≠ []) (hv : ∀ x ∈ v, isBareChar x = true) (hn : ∀ u l, ¬ Commits v u l) :
    literal v = some ⟨.text (String.ofList v), v.length⟩ := by
  have hnumber : number v = none := by
    unfold number
    split
    · rfl
    · next digits hrun =>
      obtain ⟨htake, hdigits, _⟩ := run_eq_some_iff.1 hrun
      simp only
      rw [if_neg]
      intro hle
      rw [← htake] at hdigits hle
      exact hn _ _ (.number hdigits hle)
  have hfixed {α : Type} {word : String} {l : Literal} (hmem : (word, l) ∈ keywords) (a : α) :
      fixed word a v = none := by
    refine if_neg fun hp => ?_
    exact hn _ _ (.keyword hmem (List.isPrefixOf_iff_prefix.1 hp))
  have hboolean : boolean v = none := by
    rw [boolean, hfixed (.head _) true, hfixed (.tail _ (.head _)) false]
    rfl
  have hliteral := literal_append (.bare hne hv hnumber hboolean (hfixed (.tail _ (.tail _ (.head _))) ())) stops_nil
  rwa [List.append_nil] at hliteral

end Token

/-! ## A field and a value -/

namespace Log

variable {log : Log} {n i : Nat}

/-- Nothing is nested too deep, and nothing is missing behind place number `n`. -/
structure Below (n : Nat) (log : Log) : Prop where
  overflow_eq : log.overflow = none
  reach_le : log.reach ≤ n

theorem Below.miss (h : log.Below n) (hi : i ≤ n) (e : Expectation) : (log.miss i e).Below n := by
  refine ⟨(overflow_miss log i e).trans h.overflow_eq, ?_⟩
  have hle := h.reach_le
  unfold Log.miss
  split
  · exact hle
  · split
    · exact hi
    · exact hle

theorem Below.missAll (h : log.Below n) {ms : List Miss} (hm : ∀ m ∈ ms, m.index ≤ n) : (log.missAll ms).Below n := by
  induction ms generalizing log with
  | nil => exact h
  | cons m ms ih =>
    refine ih (h.miss (hm m (.head _)) m.expectation) fun k hk => hm k (.tail _ hk)

theorem Below.learn (h : log.Below n) (r : Option (Filter × Cursor)) : (log.learn i r).Below n := ⟨h.1, h.2⟩

/-- Whoever misses something at place number `n` has got that far. -/
theorem Below.reach_miss (h : log.Below n) (e : Expectation) : (log.miss n e).reach = n := by
  have hle := h.reach_le
  unfold Log.miss
  split
  · omega
  · split
    · rfl
    · show log.reach = n
      omega

end Log

section

variable {w : List Char} {c d p : Cursor} {l : Literal} {log : Log}

namespace Grammar

theorem index_of_mem_value {m : Miss} (h : m ∈ (value c).misses) : m.index = c.index := by
  have htoken {α : Type} {kind : TokenClass} {scan : Token α} {f : α → Literal}
      (h : m ∈ (do let (a, c) ← token kind scan c; return (f a, c) : Trial (Literal × Cursor)).misses) :
      m.index = c.index := by
    rcases Trial.mem_misses_bind h with h | ⟨_, _, h⟩
    · rw [eq_of_mem_token h]
    · cases h
  rcases Trial.mem_misses_orElse h with h | ⟨_, h⟩
  · exact htoken h
  rcases Trial.mem_misses_orElse h with h | ⟨_, h⟩
  · exact htoken h
  rcases Trial.mem_misses_orElse h with h | ⟨_, h⟩
  · exact htoken (f := fun _ => .null) h
  · exact htoken h

/-- A field, `:` and a value are read at once: nothing but the value can be missing. -/
theorem anyComparison_of_value (hw : IsField w) (hs : c.Spans (w ++ ":".toList) p)
    (hv : (value p).result = some (l, d)) :
    (anyComparison c).result = some (.comparison .has (String.ofList w) l, d) ∧
      ∀ m ∈ (anyComparison c).misses, m.index = p.index := by
  obtain ⟨q, hq, hcolon⟩ := hs.exists_between
  have hstop : Stops isFieldChar q.rest := by
    rw [hcolon.rest_eq]
    exact stops_cons.2 (by decide)
  have hhas : hasComparison c = value p >>= fun v => Pure.pure (.comparison .has (String.ofList w) v.1, v.2) := by
    rw [hasComparison, token_word_of_spans hw hq hstop]
    simp only [Trial.pure_bind]
    rw [literal_of_spans hcolon]
    rfl
  have hresult : (hasComparison c).result = some (.comparison .has (String.ofList w) l, d) := by
    rw [hhas, Trial.result_bind, hv]
    rfl
  rw [anyComparison, Trial.orElse_of_some hresult]
  refine ⟨hresult, fun m hm => ?_⟩
  rw [hhas] at hm
  rcases Trial.mem_misses_bind hm with hm | ⟨_, _, hm⟩
  · exact index_of_mem_value hm
  · cases hm

/-- No connective is ahead where no space is. -/
theorem connective_of_head (h : c.rest.head? ≠ some ' ') : connective c = ⟨none, [⟨c.index, .token .space⟩]⟩ := by
  rw [connective, someSpaces_eq, if_neg h, Cursor.pastSpaces_of_head h]
  rfl

end Grammar

namespace Rule

open Attempt

theorem links_of_head (inner : Rule Filter) (fuel : Nat) (last : Filter) (h : c.rest.head? ≠ some ' ')
    (hlog : log.Below c.index) :
    ∃ log', links inner fuel last [] c log = (some (last, c), log') ∧ log'.Below c.index := by
  cases fuel with
  | zero => exact ⟨log, rfl, hlog⟩
  | succ fuel =>
    have hc := records_connective c log
    rw [Grammar.connective_of_head h] at hc
    refine ⟨_, ?_, hlog.miss (Nat.le_refl _) (.token .space)⟩
    rw [links_succ, orElse_of_none (bind_of_none hc)]
    rfl

/-- **A field, `:` and a value** that no space follows are read as a statement. -/
theorem statement_of_value (fuel levels : Nat) (hw : IsField w) (hs : c.Spans (w ++ ":".toList) p)
    (hv : (Grammar.value p).result = some (l, d)) (hd : d.rest.head? ≠ some ' ') (hlog : log.Below d.index)
    (hknown : log.known[c.index]? = none) :
    ∃ log', statement fuel (levels + 1) c log = (some (.compare .has (String.ofList w) (.literal l), d), log') ∧
      log'.Below d.index := by
  obtain ⟨hcomp, hmisses⟩ := Grammar.anyComparison_of_value hw hs hv
  have hle := (Grammar.readsPlain_value hv).reads.index_lt
  have hrecords := records_anyComparison c log
  rw [hcomp] at hrecords
  let found : Option (Filter × Cursor) := some (.compare .has (String.ofList w) (.literal l), d)
  have hexpression : expression (statement fuel levels) c log =
      (found, (log.missAll (Grammar.anyComparison c).misses).learn c.index found) := by
    rw [expression_of_unknown hknown, alternatives_eq, orElse_of_some hrecords]
    rfl
  have hmissAll : (log.missAll (Grammar.anyComparison c).misses).Below d.index :=
    hlog.missAll fun m hm => by rw [hmisses m hm]; omega
  have hbelow := hmissAll.learn (i := c.index) found
  obtain ⟨log', hlinks, hlog'⟩ :=
    links_of_head (statement fuel levels) fuel (.compare .has (String.ofList w) (.literal l)) hd hbelow
  refine ⟨log', ?_, hlog'⟩
  rw [statement_succ, hlog.overflow_eq]
  exact orElse_of_some ((bind_of_some hexpression).trans hlinks)

theorem start_of_value (fuel : Nat) (hw : IsField w) (hs : c.Spans (w ++ ":".toList) p)
    (hv : (Grammar.value p).result = some (l, d)) (hd : d.rest.head? ≠ some ' ') :
    ∃ log, start fuel c {} = (some (.compare .has (String.ofList w) (.literal l), d), log) ∧ log.Below d.index := by
  have hle := (Grammar.readsPlain_value hv).reads.index_lt
  have hindex := hs.index_eq
  have hc : c.pastSpaces = c := by
    refine Cursor.pastSpaces_of_head ?_
    rw [hs.rest_eq, List.append_assoc]
    exact hw.head_ne_space _
  have hstart : (Log.miss {} c.index (.token .space)).Below d.index := Log.Below.miss ⟨rfl, Nat.zero_le _⟩ (by omega) _
  have hknown : (Log.miss {} c.index (.token .space)).known[c.index]? = none := by
    rw [Log.known_miss]
    exact Std.HashMap.getElem?_empty
  obtain ⟨log, hstatement, hlog⟩ := statement_of_value fuel 511 hw hs hv hd hstart hknown
  have hbefore : anySpaces c {} = (some c, Log.miss {} c.index (.token .space)) := by
    show (some c.pastSpaces, Log.miss {} c.pastSpaces.index _) = _
    rw [hc]
  have hbehind : anySpaces d log = (some d, log.miss d.index (.token .space)) := by
    show (some d.pastSpaces, log.miss d.pastSpaces.index _) = _
    rw [Cursor.pastSpaces_of_head hd]
  refine ⟨log.miss d.index (.token .space), ?_, hlog.miss (Nat.le_refl _) _⟩
  rw [start, bind_of_some hbefore]
  have hblock := orElse_of_some (y := group (statement fuel nestingLimit) c) hstatement
  exact (bind_of_some hblock).trans ((bind_of_some hbehind).trans rfl)

end Rule

/-- A text that starts with a field, `:` and a value that no space follows is a filter if it ends there, and fails there
if it does not. -/
theorem parse_of_value {text : String} (hw : IsField w) (hs : Cursor.Spans ⟨0, text.toList⟩ (w ++ ":".toList) p)
    (hv : (Grammar.value p).result = some (l, d)) (hd : d.rest.head? ≠ some ' ') :
    (d.rest = [] → Filter.parse text = .ok (.compare .has (String.ofList w) (.literal l))) ∧
      (d.rest ≠ [] → ∃ e, Filter.parse text = .error e ∧ e.start = Position.after (text.toList.take d.index)) := by
  obtain ⟨log, hstart, hlog⟩ := Rule.start_of_value text.toList.length hw hs hv hd
  constructor
  · intro hend
    simp [Filter.parse, hstart, hend, hlog.overflow_eq]
  · intro hend
    have hover := (Log.overflow_miss log d.index .endOfInput).trans hlog.overflow_eq
    refine ⟨(log.miss d.index .endOfInput).error text.toList, by simp [Filter.parse, hstart, hend], ?_⟩
    rw [Log.error_eq hover, hlog.reach_miss]
    rfl

end

/-! ## Bare values of a field -/

/-- What the text of a bare value is read as, whether or not it ends there. -/
theorem parse_of_literal {w v : String} {l : Literal} {u t : List Char} (hw : IsField w.toList) (hv : v.toList = u ++ t)
    (hl : Token.literal v.toList = some ⟨l, u.length⟩) (ht : t.head? ≠ some ' ') :
    (t = [] → Filter.parse (w ++ ":" ++ v) = .ok (.compare .has w (.literal l))) ∧
      (t ≠ [] → ∃ e, Filter.parse (w ++ ":" ++ v) = .error e ∧
        e.start.offset = (w ++ ":" ++ String.ofList u).utf8ByteSize) := by
  let p : Cursor := ⟨(w.toList ++ ":".toList).length, v.toList⟩
  have hs : Cursor.Spans ⟨0, (w ++ ":" ++ v).toList⟩ (w.toList ++ ":".toList) p := ⟨by simp [p], by simp [p]⟩
  have hvalue : (Grammar.value p).result = some (l, p.advance u.length) := by rw [Grammar.result_value, hl]; rfl
  have hrest : (p.advance u.length).rest = t := by simp [Cursor.advance, p, hv]
  obtain ⟨hok, herror⟩ := parse_of_value hw hs hvalue (hrest.symm ▸ ht)
  rw [hrest, String.ofList_toList] at hok
  refine ⟨hok, fun hne => ?_⟩
  rw [hrest] at herror
  obtain ⟨e, he, hstart⟩ := herror hne
  have htake : (w ++ ":" ++ v).toList.take (p.advance u.length).index = (w ++ ":" ++ String.ofList u).toList := by
    have hlist : (w ++ ":" ++ v).toList = (w.toList ++ ":".toList ++ u) ++ t := by simp [hv]
    have hindex : (p.advance u.length).index = (w.toList ++ ":".toList ++ u).length := by
      simp [Cursor.advance, p]
      omega
    rw [hlist, hindex, List.take_left]
    simp
  rw [htake] at hstart
  exact ⟨e, he, by rw [hstart, Position.offset_after, String.ofList_toList]⟩

section

variable {w v : String} {f : Filter}

/-- A bare value is read as what it starts with, if nothing follows, and as a text if it starts with neither a number
nor a keyword. -/
theorem parse_bare_eq_ok_iff (hw : IsField w.toList) (hv : v.toList ≠ [])
    (hbare : ∀ x ∈ v.toList, isBareChar x = true) :
    Filter.parse (w ++ ":" ++ v) = .ok f ↔ ∃ l, f = .compare .has w (.literal l) ∧
      (Token.Commits v.toList v.toList l ∨ (∀ u k, ¬ Token.Commits v.toList u k) ∧ l = .text v) := by
  by_cases hcommits : ∃ u l, Token.Commits v.toList u l
  · obtain ⟨u, l, h⟩ := hcommits
    obtain ⟨t, ht, hhead⟩ := h.exists_rest hbare
    obtain ⟨hok, herror⟩ := parse_of_literal hw ht (Token.literal_of_commits h) hhead
    constructor
    · intro hf
      by_cases hnil : t = []
      · rw [hok hnil] at hf
        rw [hnil, List.append_nil] at ht
        exact ⟨l, (Except.ok.inj hf).symm, .inl (by rwa [← ht] at h)⟩
      · obtain ⟨e, he, _⟩ := herror hnil
        rw [he] at hf
        cases hf
    · rintro ⟨k, rfl, hk | ⟨hnone, _⟩⟩
      · obtain ⟨rfl, rfl⟩ := h.unique hk
        exact hok (by simpa using ht)
      · exact absurd h (hnone u l)
  · have hnone : ∀ u l, ¬ Token.Commits v.toList u l := fun u l h => hcommits ⟨u, l, h⟩
    obtain ⟨hok, _⟩ :=
      parse_of_literal (t := []) hw (List.append_nil _).symm (Token.literal_of_bare hv hbare hnone) nofun
    rw [hok rfl, String.ofList_toList]
    constructor
    · intro hf
      exact ⟨_, (Except.ok.inj hf).symm, .inr ⟨hnone, rfl⟩⟩
    · rintro ⟨k, rfl, hk | ⟨_, rfl⟩⟩
      · exact absurd hk (hnone _ _)
      · rfl

/-- A bare value that is not read starts with a number or a keyword and goes on. -/
theorem parse_bare_error (hw : IsField w.toList) (hv : v.toList ≠ []) (hbare : ∀ x ∈ v.toList, isBareChar x = true)
    (hnone : ∀ f, Filter.parse (w ++ ":" ++ v) ≠ .ok f) :
    ∃ u t l, Token.Commits v.toList u l ∧ v.toList = u ++ t ∧ t ≠ [] ∧ ∃ e, Filter.parse (w ++ ":" ++ v) = .error e ∧
      e.start.offset = (w ++ ":" ++ String.ofList u).utf8ByteSize := by
  obtain ⟨u, l, h⟩ : ∃ u l, Token.Commits v.toList u l := by
    by_contra hcommits
    refine hnone _ ((parse_bare_eq_ok_iff hw hv hbare).2 ⟨.text v, rfl, .inr ⟨fun u l h => hcommits ⟨u, l, h⟩, rfl⟩⟩)
  obtain ⟨t, ht, hhead⟩ := h.exists_rest hbare
  obtain ⟨hok, herror⟩ := parse_of_literal hw ht (Token.literal_of_commits h) hhead
  have hne : t ≠ [] := fun hnil => hnone _ (hok hnil)
  exact ⟨u, t, l, h, ht, hne, herror hne⟩

/-- **A bare value** is read exactly: as a number if it is all digits and not too large, as a keyword if it is one, and
as the text that it is if it starts with neither. If it starts with one and goes on, the text fails where the number or
the keyword ends. -/
theorem parse_bareValue (hw : w ≠ "") (hfield : ∀ x ∈ w.toList, isFieldChar x = true) (hv : v ≠ "")
    (hbare : ∀ x ∈ v.toList, isBareChar x = true) :
    let digits := v.toList.takeWhile Char.isDigit
    let n := Nat.ofDigitChars 10 digits 0
    (∀ f, Filter.parse (w ++ ":" ++ v) = .ok f ↔ ∃ l, f = .compare .has w (.literal l) ∧
      (v.toList = digits ∧ n ≤ Token.maxNumber ∧ (∃ i : Int64, i.toInt = n ∧ l = .number i) ∨
        (v, l) ∈ Token.keywords ∨
        (∀ k ∈ Token.keywords, ¬ k.1.toList <+: v.toList) ∧ (digits = [] ∨ Token.maxNumber < n) ∧ l = .text v)) ∧
    ((∀ f, Filter.parse (w ++ ":" ++ v) ≠ .ok f) → ∃ u t : String, v = u ++ t ∧ t ≠ "" ∧
      (u.toList = digits ∧ digits ≠ [] ∧ n ≤ Token.maxNumber ∨ ∃ l, (u, l) ∈ Token.keywords) ∧
      ∃ e, Filter.parse (w ++ ":" ++ v) = .error e ∧ e.start.offset = (w ++ ":" ++ u).utf8ByteSize) := by
  intro digits n
  have hword : IsField w.toList := ⟨fun h => hw (String.toList_eq_nil_iff.1 h), hfield⟩
  have hne : v.toList ≠ [] := fun h => hv (String.toList_eq_nil_iff.1 h)
  constructor
  · intro f
    rw [parse_bare_eq_ok_iff hword hne hbare]
    refine exists_congr fun l => and_congr_right fun _ => ?_
    rw [Token.commits_self_iff hne, Token.forall_not_commits_iff, and_assoc, or_assoc]
  · intro hnone
    obtain ⟨u, t, l, h, ht, htne, herror⟩ := parse_bare_error hword hne hbare hnone
    refine ⟨String.ofList u, String.ofList t, ?_, ?_, ?_, herror⟩
    · rw [← String.ofList_append, ← ht, String.ofList_toList]
    · exact fun hnil => htne (by simpa using congrArg String.toList hnil)
    · rw [String.toList_ofList]
      cases h with
      | number hd hle => exact .inl ⟨rfl, hd, hle⟩
      | keyword hmem _ => exact .inr ⟨_, by rwa [String.ofList_toList]⟩

/-- The largest number with a zero in front, the next one, and a keyword that goes on. -/
theorem parse_bareValue_limits :
    Filter.parse "a:09223372036854775807" = .ok (.compare .has "a" (.literal (.number 9223372036854775807))) ∧
    Filter.parse "a:9223372036854775808x" = .ok (.compare .has "a" (.literal (.text "9223372036854775808x"))) ∧
    ∃ e, Filter.parse "a:nullable" = .error e ∧ e.start.offset = 6 := by
  have hfield : ∀ x ∈ "a".toList, isFieldChar x = true := List.all_eq_true.1 (by decide)
  have hlargest : ∀ x ∈ "09223372036854775807".toList, isBareChar x = true := List.all_eq_true.1 (by decide)
  have hlarger : ∀ x ∈ "9223372036854775808x".toList, isBareChar x = true := List.all_eq_true.1 (by decide)
  have hgoesOn : ∀ x ∈ "nullable".toList, isBareChar x = true := List.all_eq_true.1 (by decide)
  refine ⟨?_, ?_, ?_⟩
  · refine ((@parse_bareValue "a" _ (by decide) hfield (by decide) hlargest).1 _).2 ⟨_, rfl, .inl ?_⟩
    exact ⟨by decide, by decide, _, by decide, rfl⟩
  · refine ((@parse_bareValue "a" _ (by decide) hfield (by decide) hlarger).1 _).2 ⟨_, rfl, .inr (.inr ?_)⟩
    exact ⟨by decide, .inr (by decide), rfl⟩
  · have herror : (Filter.parse "a:nullable").isOk = false := by cbv
    obtain ⟨u, t, hv, ht, hcommits, e, he, hoffset⟩ :=
      (@parse_bareValue "a" _ (by decide) hfield (by decide) hgoesOn).2 fun f hf => by
        have hf : Filter.parse "a:nullable" = .ok f := hf
        rw [hf] at herror
        cases herror
    have hnull : u = "null" := by
      have hlist := congrArg String.toList hv
      rcases hcommits with ⟨_, hdigits, _⟩ | ⟨l, hl⟩
      · exact absurd rfl hdigits
      · simp only [Token.keywords, List.mem_cons, Prod.mk.injEq, List.not_mem_nil, or_false] at hl
        rcases hl with ⟨rfl, _⟩ | ⟨rfl, _⟩ | ⟨rfl, _⟩
        · simp at hlist
        · simp at hlist
        · rfl
    rw [hnull] at hoffset
    exact ⟨e, he, hoffset⟩

end

end SearchFilter
