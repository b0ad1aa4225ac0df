import SearchFilter.Proofs.Grammar.Written

/-!
# Reading the start of a text

A rule that comes no further than place number `n` has not seen what stands behind it: in a text that ends at `n` it
gives the same and misses the same (`cut_full`). A rule that has seen more shows it: something is missing further on, or
what it gives ends there (`Trial.Reaches`). One scanner looks ahead without a trace, the one for numbers, which gives up
where a number is too large; the digits are then read as a text, further on (`cut_value`).

* `Cursor.extend` — the same place in a text that goes on.
* `Trial.Reaches` — a rule comes as far as a place.
* `Trial.Cut` — a rule comes further than the end of the shorter text, or it reads both texts alike.
-/

namespace SearchFilter

/-! ## Longer texts -/

/-- A run of characters ends in the shorter text, or it goes on behind it. -/
theorem takeWhile_append_cases (kind : Char → Bool) (u v : List Char) :
    (u ++ v).takeWhile kind = u.takeWhile kind ∨ ∃ x w, (u ++ v).takeWhile kind = u ++ x :: w := by
  have htake := @List.takeWhile_append _ kind u v
  by_cases hall : (u.takeWhile kind).length = u.length
  · have hu : u.takeWhile kind = u := (List.takeWhile_prefix _).eq_of_length hall
    rw [if_pos hall] at htake
    cases hv : v.takeWhile kind with
    | nil => exact .inl (by rw [htake, hv, List.append_nil, hu])
    | cons x w => exact .inr ⟨x, w, by rw [htake, hv]⟩
  · exact .inl (by rw [htake, if_neg hall])

/-- A word stands at the head of the shorter text or not, or it ends behind it. -/
theorem isPrefixOf_append_cases (word u v : List Char) :
    word.isPrefixOf (u ++ v) = word.isPrefixOf u ∨ word.isPrefixOf (u ++ v) = true ∧ u.length < word.length := by
  by_cases hu : word <+: u
  · left
    rw [List.isPrefixOf_iff_prefix.2 hu, List.isPrefixOf_iff_prefix.2 (hu.trans (List.prefix_append u v))]
  · by_cases huv : word <+: u ++ v
    · refine .inr ⟨List.isPrefixOf_iff_prefix.2 huv, ?_⟩
      by_contra hle
      exact hu (List.prefix_of_prefix_length_le huv (List.prefix_append u v) (Nat.le_of_not_lt hle))
    · left
      rw [Bool.eq_false_iff.2 fun h => hu (List.isPrefixOf_iff_prefix.1 h),
        Bool.eq_false_iff.2 fun h => huv (List.isPrefixOf_iff_prefix.1 h)]

namespace Cursor

variable {c d : Cursor} {u v : List Char} {n : Nat}

/-- The same place in a text that goes on with `v`. -/
def extend (v : List Char) (c : Cursor) : Cursor := ⟨c.index, c.rest ++ v⟩

theorem advance_extend {k : Nat} (h : k ≤ c.rest.length) (v : List Char) :
    (c.extend v).advance k = (c.advance k).extend v := by
  simp only [advance, extend, List.drop_append_of_le_length h]

theorem Spans.extend (h : c.Spans u d) (v : List Char) : (c.extend v).Spans u (d.extend v) where
  rest_eq := by
    show c.rest ++ v = u ++ (d.rest ++ v)
    rw [h.rest_eq, List.append_assoc]
  index_eq := h.index_eq

theorem EndsAt.extend (h : c.EndsAt n) (v : List Char) : (c.extend v).EndsAt (n + v.length) := by
  unfold EndsAt at h ⊢
  simp only [Cursor.extend, List.length_append]
  omega

/-- The spaces ahead end where they end in the shorter text, or they go on behind it. -/
theorem pastSpaces_extend (hc : c.EndsAt n) (v : List Char) :
    (c.extend v).pastSpaces = c.pastSpaces.extend v ∨ n < (c.extend v).pastSpaces.index := by
  have hrest : (c.extend v).rest = c.rest ++ v := rfl
  rcases takeWhile_append_cases (· == ' ') c.rest v with h | ⟨x, w, h⟩
  · left
    rw [pastSpaces, hrest, h]
    exact advance_extend (List.takeWhile_prefix _).length_le v
  · right
    rw [pastSpaces, hrest, h]
    show n < c.index + (c.rest ++ x :: w).length
    unfold EndsAt at hc
    rw [List.length_append, List.length_cons]
    omega

end Cursor

/-! ## Scanners -/

namespace Token

variable {α β : Type} {u v : List Char}

/-- A scanner that takes characters behind the shorter text, or sees it only. -/
def Cuts (scan : Token α) : Prop := ∀ u v, scan (u ++ v) = scan u ∨ ∃ l, scan (u ++ v) = some l ∧ u.length < l.length

theorem Cuts.map {scan : Token α} (h : Cuts scan) (f : Lexeme α → Lexeme β) (hf : ∀ l, (f l).length = l.length) :
    Cuts fun cs => (scan cs).map f := by
  intro u v
  rcases h u v with h | ⟨l, h, hlt⟩
  · left
    simp only [h]
  · exact .inr ⟨f l, by simp only [h, Option.map_some], by rwa [hf]⟩

theorem cuts_run (kind : Char → Bool) : Cuts (run kind) := by
  intro u v
  rcases takeWhile_append_cases kind u v with h | ⟨x, w, h⟩
  · left
    rw [run, run, h]
  · right
    refine ⟨⟨u ++ x :: w, (u ++ x :: w).length⟩, run_eq_some_iff.2 ⟨h, by simp, rfl⟩, ?_⟩
    simp

theorem cuts_fixed (word : String) (value : α) : Cuts (fixed word value) := by
  intro u v
  rcases isPrefixOf_append_cases word.toList u v with h | ⟨h, hlt⟩
  · left
    rw [fixed, fixed, h]
  · rw [String.length_toList] at hlt
    exact .inr ⟨⟨value, word.length⟩, if_pos h, hlt⟩

theorem Cuts.or {scan scan' : Token α} (h : Cuts scan) (h' : Cuts scan') : Cuts fun cs => (scan cs).or (scan' cs) := by
  intro u v
  rcases h u v with hu | ⟨l, hl, hlt⟩
  · simp only [hu]
    cases scan u with
    | some l => exact .inl rfl
    | none => exact h' u v
  · exact .inr ⟨l, by simp only [hl, Option.some_or], hlt⟩

theorem cuts_word : Cuts word := (cuts_run isFieldChar).map _ fun _ => rfl

theorem cuts_spaces : Cuts spaces := (cuts_run (· == ' ')).map _ fun _ => rfl

theorem cuts_boolean : Cuts boolean := (cuts_fixed "true" true).or (cuts_fixed "false" false)

theorem cuts_null : Cuts null := cuts_fixed "null" ()

theorem cuts_closing {quote : Char} (hq : isBareChar quote = false) (u v : List Char) :
    closing quote (u ++ v) = closing quote u ∨
      ∃ l, closing quote (u ++ v) = some l ∧ u.length + 1 < l.length := by
  cases hu : closing quote u with
  | some l =>
    left
    obtain ⟨w, r, rfl, hw, rfl⟩ := (closing_eq_some_iff hq).1 hu
    exact (closing_eq_some_iff hq).2 ⟨w, r ++ v, by simp, hw, rfl⟩
  | none =>
    cases huv : closing quote (u ++ v) with
    | none => exact .inl rfl
    | some l =>
      right
      obtain ⟨w, r, he, hw, rfl⟩ := (closing_eq_some_iff hq).1 huv
      refine ⟨_, rfl, ?_⟩
      rcases List.append_eq_append_iff.1 he with ⟨t, rfl, _⟩ | ⟨t, rfl, ht⟩
      · show u.length + 1 < (u ++ t).length + 2
        rw [List.length_append]
        omega
      · -- the quote that closes would stand in the shorter text
        cases t with
        | nil =>
          simp
        | cons x t =>
          obtain ⟨rfl, _⟩ := List.cons.inj ht
          rw [(closing_eq_some_iff hq).2 ⟨w, t, rfl, hw, rfl⟩] at hu
          cases hu

theorem cuts_text : Cuts text := by
  intro u v
  cases u with
  | nil =>
    cases h : text v with
    | none => exact .inl h
    | some l =>
      obtain ⟨w, _, _, hlen, hne, _⟩ := takes_text v l h
      exact .inr ⟨l, h, hlen ▸ List.length_pos_of_ne_nil hne⟩
  | cons x u =>
    by_cases hd : x = '\x22'
    · subst hd
      exact cuts_closing (by decide) u v
    by_cases hs : x = '\x27'
    · subst hs
      exact cuts_closing (by decide) u v
    · rw [List.cons_append, text_cons_of_ne hd hs, text_cons_of_ne hd hs]
      exact (cuts_run isBareChar).map (fun l => ⟨String.ofList l.value, l.length⟩) (fun _ => rfl) (x :: u) v

/-- Digits that are no number are the start of a text. -/
theorem literal_of_digits {ds t : List Char} (hne : ds ≠ []) (hd : ∀ x ∈ ds, x.isDigit = true)
    (hn : number (ds ++ t) = none) : ∃ l, literal (ds ++ t) = some l ∧ ds.length ≤ l.length := by
  obtain ⟨x, w, rfl⟩ := List.exists_cons_of_ne_nil hne
  have hx : x.isDigit = true := hd x (.head _)
  have hother (word : String) (y : Char) (r : List Char) (hw : word.toList = y :: r) (hy : y.isDigit = false) :
      word.toList.isPrefixOf (x :: w ++ t) = false := by
    rw [hw]
    have hyx : (y == x) = false := beq_eq_false_iff_ne.2 fun he => by
      rw [he, hx] at hy
      cases hy
    simp [List.isPrefixOf, hyx]
  have hboolean : boolean (x :: w ++ t) = none := by
    simp only [boolean, fixed, hother "true" _ _ rfl (by decide), hother "false" _ _ rfl (by decide)]
    rfl
  have hnull : null (x :: w ++ t) = none := by
    simp only [null, fixed, hother "null" _ _ rfl (by decide)]
    rfl
  have hquote : ∀ y : Char, y.isDigit = false → x ≠ y := by
    rintro y hy rfl
    rw [hx] at hy
    cases hy
  have htake : (x :: w ++ t).takeWhile isBareChar = x :: w ++ t.takeWhile isBareChar :=
    List.takeWhile_append_of_pos fun y hy => bare_of_digit (hd y hy)
  generalize hm : x :: w ++ t.takeWhile isBareChar = m at htake
  have hle : (x :: w).length ≤ m.length := by
    rw [← hm, List.length_append]
    omega
  have hrun : run isBareChar (x :: w ++ t) = some ⟨m, m.length⟩ :=
    run_eq_some_iff.2 ⟨htake, by rw [← hm]; simp, rfl⟩
  have htext := text_cons_of_ne (hquote '\x22' (by decide)) (hquote '\x27' (by decide)) (w ++ t)
  rw [← List.cons_append, hrun] at htext
  refine ⟨⟨.text (String.ofList m), m.length⟩, ?_, hle⟩
  rw [literal, hn, hboolean, hnull, htext]
  rfl

/-- A number that becomes too large is a text, which goes on behind the shorter text. -/
theorem cuts_number (u v : List Char) : number (u ++ v) = number u ∨
    (∃ l, number (u ++ v) = some l ∧ u.length < l.length) ∨
      ∃ l, literal (u ++ v) = some l ∧ u.length < l.length := by
  rcases cuts_run Char.isDigit u v with h | ⟨l, h, hlt⟩
  · left
    rw [number, number, h]
  · right
    obtain ⟨hv, hne, hlen⟩ := run_eq_some_iff.1 h
    by_cases hle : Nat.ofDigitChars 10 l.value 0 ≤ maxNumber
    · refine .inl ⟨⟨Int64.ofNat (Nat.ofDigitChars 10 l.value 0), l.length⟩, ?_, hlt⟩
      simp only [number, h, if_pos hle]
    · have hnumber : number (u ++ v) = none := by simp only [number, h, if_neg hle]
      have hdigits : ∀ x ∈ l.value, x.isDigit = true := fun x hx => List.mem_takeWhile_imp (hv ▸ hx)
      have hsplit : u ++ v = l.value ++ (u ++ v).dropWhile Char.isDigit := by
        rw [← hv, List.takeWhile_append_dropWhile]
      rw [hsplit] at hnumber ⊢
      obtain ⟨l', hl', hle'⟩ := literal_of_digits hne hdigits hnumber
      exact .inr ⟨l', hl', by omega⟩

end Token

/-! ## How far a rule comes -/

namespace Grammar

variable {α β : Type} {c d : Cursor} {n : Nat} {v : List Char}

namespace Trial

/-- Place number `n` is reached: something is missing there or further on, or what is given ends there or further on. -/
def Reaches (n : Nat) (place : α → Cursor) (t : Trial α) : Prop :=
  (∃ m ∈ t.misses, n ≤ m.index) ∨ ∃ a, t.result = some a ∧ n ≤ (place a).index

variable {place : α → Cursor} {place' : β → Cursor} {t u : Trial α}

theorem reaches_of_miss {m : Miss} (hm : m ∈ t.misses) (h : n ≤ m.index) : t.Reaches n place := .inl ⟨m, hm, h⟩

theorem reaches_pure {a : α} (h : n ≤ (place a).index) : (Pure.pure a : Trial α).Reaches n place := .inr ⟨a, rfl, h⟩

theorem Reaches.bind {f : α → Trial β} (h : t.Reaches n place)
    (hf : ∀ a, n ≤ (place a).index → (f a).Reaches n place') : (t >>= f).Reaches n place' := by
  rcases h with ⟨m, hm, hle⟩ | ⟨a, ha, hle⟩
  · exact .inl ⟨m, mem_misses_bind_left hm, hle⟩
  · rcases hf a hle with ⟨m, hm, hle⟩ | ⟨b, hb, hle⟩
    · exact .inl ⟨m, mem_misses_bind_right ha hm, hle⟩
    · exact .inr ⟨b, bind_eq_some_iff.2 ⟨a, ha, hb⟩, hle⟩

theorem Reaches.orElse (h : t.Reaches n place) (u : Trial α) : (t <|> u).Reaches n place := by
  rcases h with ⟨m, hm, hle⟩ | ⟨a, ha, hle⟩
  · exact .inl ⟨m, mem_misses_orElse_left hm, hle⟩
  · exact .inr ⟨a, orElse_eq_some_iff.2 (.inl ha), hle⟩

/-- `t'` comes further than place number `n`, or it gives what `t` gives, through `m`, and misses the same. -/
def Cut (n : Nat) (place : α → Cursor) (m : α → α) (t' t : Trial α) : Prop :=
  t'.Reaches (n + 1) place ∨ t'.result = t.result.map m ∧ t'.misses = t.misses

variable {m : α → α} {m' : β → β} {t' u' : Trial α}

theorem Cut.bind {f f' : α → Trial β} (h : Cut n place m t' t)
    (hr : ∀ a, n + 1 ≤ (place a).index → (f' a).Reaches (n + 1) place')
    (hf : ∀ a, t.result = some a → Cut n place' m' (f' (m a)) (f a)) : Cut n place' m' (t' >>= f') (t >>= f) := by
  rcases h with h | ⟨hres, hmiss⟩
  · exact .inl (h.bind hr)
  · obtain ⟨r, ms⟩ := t
    obtain ⟨r', ms'⟩ := t'
    obtain rfl : r' = r.map m := hres
    obtain rfl : ms' = ms := hmiss
    cases r with
    | none => exact .inr ⟨rfl, rfl⟩
    | some a =>
      rcases hf a rfl with (⟨x, hx, hle⟩ | ⟨b, hb, hle⟩) | ⟨hres', hmiss'⟩
      · exact .inl (.inl ⟨x, mem_misses_bind_right rfl hx, hle⟩)
      · exact .inl (.inr ⟨b, hb, hle⟩)
      · exact .inr ⟨hres', congrArg (ms' ++ ·) hmiss'⟩

theorem Cut.orElse (h : Cut n place m t' t) (hu : Cut n place m u' u) : Cut n place m (t' <|> u') (t <|> u) := by
  rcases h with h | ⟨hres, hmiss⟩
  · exact .inl (h.orElse u')
  · obtain ⟨r, ms⟩ := t
    obtain ⟨r', ms'⟩ := t'
    obtain rfl : r' = r.map m := hres
    obtain rfl : ms' = ms := hmiss
    cases r with
    | some a => exact .inr ⟨rfl, rfl⟩
    | none =>
      rcases hu with (⟨x, hx, hle⟩ | ⟨b, hb, hle⟩) | ⟨hres', hmiss'⟩
      · exact .inl (.inl ⟨x, List.mem_append_right _ hx, hle⟩)
      · exact .inl (.inr ⟨b, hb, hle⟩)
      · exact .inr ⟨hres', congrArg (ms' ++ ·) hmiss'⟩

end Trial

open Trial

/-! ## Rules come as far as they start -/

theorem reaches_token (kind : TokenClass) (scan : Token α) (h : n ≤ c.index) :
    (token kind scan c).Reaches n Prod.snd := by
  unfold token
  split
  · next t _ => exact reaches_pure (Nat.le_trans h (Nat.le_add_right c.index t.length))
  · exact reaches_of_miss (List.mem_singleton_self _) h

theorem reaches_literal (text : String) (h : n ≤ c.index) : (literal text c).Reaches n id := by
  unfold literal
  split
  · exact reaches_pure (Nat.le_trans h (Nat.le_add_right c.index text.length))
  · exact reaches_of_miss (List.mem_singleton_self _) h

theorem le_pastSpaces (h : n ≤ c.index) : n ≤ c.pastSpaces.index := Nat.le_trans h (Nat.le_add_right _ _)

/-- Where spaces are looked for, one more is missing further on. -/
theorem reaches_anySpaces_bind {place : β → Cursor} (f : Cursor → Trial β) (h : n ≤ c.index) :
    (anySpaces c >>= f).Reaches n place :=
  reaches_of_miss (mem_misses_bind_left (List.mem_singleton_self _)) (le_pastSpaces h)

theorem reaches_someSpaces_bind {place : β → Cursor} (f : Cursor → Trial β) (h : n ≤ c.index) :
    (someSpaces c >>= f).Reaches n place := by
  have hmem : (⟨c.pastSpaces.index, .token .space⟩ : Miss) ∈ (someSpaces c).misses := by
    rw [someSpaces_eq]
    exact List.mem_singleton_self _
  exact reaches_of_miss (mem_misses_bind_left hmem) (le_pastSpaces h)

theorem reaches_value (h : n ≤ c.index) : (value c).Reaches n Prod.snd := by
  refine Reaches.orElse ?_ _
  exact (reaches_token _ _ h).bind fun ⟨_, _⟩ hd => reaches_pure hd

theorem reaches_anyComparison (h : n ≤ c.index) : (anyComparison c).Reaches n Prod.snd := by
  refine Reaches.orElse ?_ _
  refine (reaches_token _ _ h).bind fun ⟨_, c₁⟩ h₁ => (reaches_literal _ h₁).bind fun c₂ h₂ => ?_
  exact (reaches_value h₂).bind fun ⟨_, _⟩ hd => reaches_pure hd

section

variable (r : Rule Statement)

theorem reaches_expression (h : n ≤ c.index) : (expression r c).Reaches n Prod.snd := by
  rw [expression_eq]
  exact (reaches_anyComparison h).orElse _

theorem reaches_joined (link : Connective) (h : n ≤ c.index) : (joined r link c).Reaches n Prod.snd :=
  (reaches_expression r h).bind fun ⟨_, _⟩ h₁ => reaches_someSpaces_bind _ h₁

theorem reaches_full (h : n ≤ c.index) : (full c).Reaches n Prod.snd := by
  rw [full_eq]
  exact (reaches_joined full .and h).orElse _

end

/-! ## Rules that come no further than the shorter text -/

/-- What a rule gives, in the longer text. -/
def extendPlace (v : List Char) (p : α × Cursor) : α × Cursor := (p.1, p.2.extend v)

section

theorem cut_token (kind : TokenClass) {scan : Token α} (ht : Token.Takes scan) (hc : c.EndsAt n)
    (hs : scan (c.rest ++ v) = scan c.rest ∨ ∃ l, scan (c.rest ++ v) = some l ∧ c.rest.length < l.length) :
    Cut n Prod.snd (extendPlace v) (token kind scan (c.extend v)) (token kind scan c) := by
  have hlt {l : Lexeme α} (h : c.rest.length < l.length) : n + 1 ≤ ((c.extend v).advance l.length).index := by
    show n + 1 ≤ c.index + l.length
    unfold Cursor.EndsAt at hc
    omega
  unfold token
  rcases hs with h | ⟨l, h, hlen⟩
  · right
    have hscan : scan (c.extend v).rest = scan c.rest := h
    rw [hscan]
    cases hl : scan c.rest with
    | none => exact ⟨rfl, rfl⟩
    | some l =>
      obtain ⟨u, w, hr, hlen, _, _⟩ := ht _ _ hl
      have hle : l.length ≤ c.rest.length := by rw [hr, hlen, List.length_append]; omega
      refine ⟨?_, rfl⟩
      show some (l.value, (c.extend v).advance l.length) = _
      rw [Cursor.advance_extend hle]
      rfl
  · left
    have hscan : scan (c.extend v).rest = some l := h
    rw [hscan]
    exact reaches_pure (hlt hlen)

theorem cut_literal (text : String) (hc : c.EndsAt n) :
    Cut n id (Cursor.extend v) (literal text (c.extend v)) (literal text c) := by
  unfold literal
  rcases isPrefixOf_append_cases text.toList c.rest v with h | ⟨h, hlt⟩
  · right
    have hstart : text.toList.isPrefixOf (c.extend v).rest = text.toList.isPrefixOf c.rest := h
    rw [hstart]
    split
    · next hp =>
      have hle := (List.isPrefixOf_iff_prefix.1 hp).length_le
      rw [String.length_toList] at hle
      rw [Cursor.advance_extend hle]
      exact ⟨rfl, rfl⟩
    · exact ⟨rfl, rfl⟩
  · left
    have hstart : text.toList.isPrefixOf (c.extend v).rest = true := h
    rw [if_pos hstart]
    refine reaches_pure ?_
    rw [String.length_toList] at hlt
    show n + 1 ≤ c.index + text.length
    unfold Cursor.EndsAt at hc
    omega

theorem cut_anySpaces (hc : c.EndsAt n) : Cut n id (Cursor.extend v) (anySpaces (c.extend v)) (anySpaces c) := by
  simp only [anySpaces_eq]
  rcases Cursor.pastSpaces_extend hc v with h | h
  · right
    rw [h]
    exact ⟨rfl, rfl⟩
  · exact .inl (reaches_of_miss (List.mem_singleton_self _) h)

theorem cut_someSpaces (hc : c.EndsAt n) : Cut n id (Cursor.extend v) (someSpaces (c.extend v)) (someSpaces c) := by
  refine (cut_token .space Token.takes_spaces hc (Token.cuts_spaces c.rest v)).bind
    (fun ⟨_, d⟩ h => ?_) fun ⟨_, d⟩ h => ?_
  · exact reaches_of_miss (List.mem_singleton_self _) (le_pastSpaces h)
  · exact cut_anySpaces ((readsPlain_token Token.takes_spaces h).reads.endsAt hc)

theorem cut_pure {place : α → Cursor} {m : α → α} (a : α) : Cut n place m (Pure.pure (m a)) (Pure.pure a) :=
  .inr ⟨rfl, rfl⟩

theorem cut_value (hc : c.EndsAt n) : Cut n Prod.snd (extendPlace v) (value (c.extend v)) (value c) := by
  have hreach {l : Lexeme Literal} (h : Token.literal (c.rest ++ v) = some l) (hlt : c.rest.length < l.length) :
      (value (c.extend v)).Reaches (n + 1) Prod.snd := by
    refine .inr ⟨(l.value, (c.extend v).advance l.length), ?_, ?_⟩
    · rw [result_value]
      show (Token.literal (c.rest ++ v)).map _ = _
      rw [h]
      rfl
    · show n + 1 ≤ c.index + l.length
      unfold Cursor.EndsAt at hc
      omega
  have htoken {β : Type} (kind : TokenClass) {scan : Token β} (f : β → Literal) (ht : Token.Takes scan)
      (hs : scan (c.rest ++ v) = scan c.rest ∨ ∃ l, scan (c.rest ++ v) = some l ∧ c.rest.length < l.length) :
      Cut n Prod.snd (extendPlace v) (token kind scan (c.extend v) >>= fun p => Pure.pure (f p.1, p.2))
        (token kind scan c >>= fun p => Pure.pure (f p.1, p.2)) :=
    (cut_token kind ht hc hs).bind (fun _ hp => reaches_pure hp) fun p _ => cut_pure (f p.1, p.2)
  have hrest := (htoken .boolean .boolean Token.takes_boolean (Token.cuts_boolean c.rest v)).orElse
    ((htoken .null (fun _ => .null) Token.takes_null (Token.cuts_null c.rest v)).orElse
      (htoken .text .text Token.takes_text (Token.cuts_text c.rest v)))
  rcases Token.cuts_number c.rest v with h | h | ⟨l, hl, hlt⟩
  · exact (htoken .number .number Token.takes_number (.inl h)).orElse hrest
  · exact (htoken .number .number Token.takes_number (.inr h)).orElse hrest
  · exact .inl (hreach hl hlt)

theorem cut_anyComparison (hc : c.EndsAt n) :
    Cut n Prod.snd (extendPlace v) (anyComparison (c.extend v)) (anyComparison c) := by
  have hword := @cut_token _ c n v .word Token.word Token.takes_word hc (Token.cuts_word c.rest v)
  have hends {field : String} {d : Cursor} (h : (token .word Token.word c).result = some (field, d)) : d.EndsAt n :=
    (readsPlain_token Token.takes_word h).reads.endsAt hc
  have hhas : Cut n Prod.snd (extendPlace v) (hasComparison (c.extend v)) (hasComparison c) := by
    refine hword.bind (fun ⟨_, d⟩ hd => ?_) fun ⟨field, c₁⟩ h₁ => ?_
    · exact (reaches_literal _ hd).bind fun d' hd' => (reaches_value hd').bind fun _ h => reaches_pure h
    · have hc₁ := hends h₁
      refine (cut_literal ":" hc₁).bind (fun d hd => (reaches_value hd).bind fun _ h => reaches_pure h) fun c₂ h₂ => ?_
      exact (cut_value ((spans_literal h₂).endsAt hc₁)).bind (fun _ h => reaches_pure h) fun p _ =>
        cut_pure (Expression.comparison .has field p.1, p.2)
  have hop (op : Operator) : Cut n Prod.snd (extendPlace v) (comparison op (c.extend v)) (comparison op c) := by
    refine hword.bind (fun ⟨_, d⟩ hd => reaches_anySpaces_bind _ hd) fun ⟨field, c₁⟩ h₁ => ?_
    have hc₁ := hends h₁
    refine (cut_anySpaces hc₁).bind (fun d hd => ?_) fun c₂ h₂ => ?_
    · exact (reaches_literal _ hd).bind fun d' hd' => reaches_anySpaces_bind _ hd'
    have hc₂ := (spans_anySpaces h₂).endsAt hc₁
    refine (cut_literal op.symbol hc₂).bind (fun d hd => reaches_anySpaces_bind _ hd) fun c₃ h₃ => ?_
    have hc₃ := (spans_literal h₃).endsAt hc₂
    refine (cut_anySpaces hc₃).bind (fun d hd => (reaches_value hd).bind fun _ h => reaches_pure h) fun c₄ h₄ => ?_
    exact (cut_value ((spans_anySpaces h₄).endsAt hc₃)).bind (fun _ h => reaches_pure h) fun p _ =>
      cut_pure (Expression.comparison op field p.1, p.2)
  exact hhas.orElse ((hop _).orElse ((hop _).orElse ((hop _).orElse ((hop _).orElse (hop _)))))

/-- In the longer text the statement at a place of the shorter one comes further, or is read as in the shorter one. -/
def CutAt (n : Nat) (v : List Char) (c : Cursor) : Prop := Cut n Prod.snd (extendPlace v) (full (c.extend v)) (full c)

variable (hi : ∀ d : Cursor, d.rest.length < c.rest.length → d.EndsAt n → CutAt n v d) (hc : c.EndsAt n)

include hi hc

theorem cut_group : Cut n Prod.snd (extendPlace v) (group full (c.extend v)) (group full c) := by
  refine (cut_literal "(" hc).bind (fun d hd => reaches_anySpaces_bind _ hd) fun c₁ h₁ => ?_
  have hs₁ := spans_literal h₁
  have hc₁ := hs₁.endsAt hc
  refine (cut_anySpaces hc₁).bind (fun d hd => ?_) fun c₂ h₂ => ?_
  · exact (reaches_full hd).bind fun ⟨_, d'⟩ hd' => reaches_anySpaces_bind _ hd'
  have hs₂ := spans_anySpaces h₂
  have hc₂ := hs₂.endsAt hc₁
  have hlt := hs₁.length_lt (by decide)
  have hle := hs₂.length_eq
  refine (hi c₂ (by omega) hc₂).bind (fun ⟨_, d⟩ hd => reaches_anySpaces_bind _ hd) fun ⟨s, c₃⟩ h₃ => ?_
  have hc₃ := (reads_full _ _ _ h₃).endsAt hc₂
  refine (cut_anySpaces hc₃).bind (fun d hd => (reaches_literal _ hd).bind fun _ h => reaches_pure h) fun c₄ h₄ => ?_
  exact (cut_literal ")" ((spans_anySpaces h₄).endsAt hc₃)).bind (fun _ h => reaches_pure h) fun c₅ _ =>
    cut_pure (s, c₅)

theorem cut_expression : Cut n Prod.snd (extendPlace v) (expression full (c.extend v)) (expression full c) := by
  rw [expression_eq, expression_eq]
  refine (cut_anyComparison hc).orElse ((cut_group hi hc).bind (fun _ h => reaches_pure h) fun p _ => ?_)
  exact cut_pure (Expression.group p.1, p.2)

theorem cut_joined (link : Connective) :
    Cut n Prod.snd (extendPlace v) (joined full link (c.extend v)) (joined full link c) := by
  refine (cut_expression hi hc).bind (fun ⟨_, d⟩ hd => reaches_someSpaces_bind _ hd) fun ⟨left, c₁⟩ h₁ => ?_
  have hr₁ := reads_expression reads_full h₁
  have hc₁ := hr₁.endsAt hc
  refine (cut_someSpaces hc₁).bind (fun d hd => ?_) fun c₂ h₂ => ?_
  · exact (reaches_literal _ hd).bind fun d' hd' => reaches_someSpaces_bind _ hd'
  have hr₂ := (readsPlain_someSpaces h₂).reads
  have hc₂ := hr₂.endsAt hc₁
  refine (cut_literal link.keyword hc₂).bind (fun d hd => reaches_someSpaces_bind _ hd) fun c₃ h₃ => ?_
  have hs₃ := spans_literal h₃
  have hc₃ := hs₃.endsAt hc₂
  refine (cut_someSpaces hc₃).bind (fun d hd => (reaches_full hd).bind fun _ h => reaches_pure h) fun c₄ h₄ => ?_
  have hr₄ := (readsPlain_someSpaces h₄).reads
  have hlt₁ := hr₁.length_lt
  have hlt₂ := hr₂.length_lt
  have hle₃ := hs₃.length_eq
  have hlt₄ := hr₄.length_lt
  exact (hi c₄ (by omega) (hr₄.endsAt hc₃)).bind (fun _ h => reaches_pure h) fun p _ =>
    cut_pure (Statement.join c.index left link p.1, p.2)

theorem cut_negated : Cut n Prod.snd (extendPlace v) (negated full (c.extend v)) (negated full c) := by
  refine (cut_literal "NOT" hc).bind (fun d hd => reaches_someSpaces_bind _ hd) fun c₁ h₁ => ?_
  have hs₁ := spans_literal h₁
  have hc₁ := hs₁.endsAt hc
  refine (cut_someSpaces hc₁).bind (fun d hd => (reaches_full hd).bind fun _ h => reaches_pure h) fun c₂ h₂ => ?_
  have hr₂ := (readsPlain_someSpaces h₂).reads
  have hlt₁ := hs₁.length_lt (by decide)
  have hlt₂ := hr₂.length_lt
  exact (hi c₂ (by omega) (hr₂.endsAt hc₁)).bind (fun _ h => reaches_pure h) fun p _ =>
    cut_pure (Statement.not c.index p.1, p.2)

theorem cut_full_of_shorter : CutAt n v c := by
  rw [CutAt, full_eq, full_eq]
  refine (cut_joined hi hc _).orElse ((cut_joined hi hc _).orElse ((cut_negated hi hc).orElse ?_))
  exact (cut_expression hi hc).bind (fun _ h => reaches_pure h) fun p _ =>
    cut_pure (Statement.expression c.index p.1, p.2)

omit hi

/-- **A statement that comes no further than the end of the shorter text** is read as in it. -/
theorem cut_full : CutAt n v c := by
  induction c using Cursor.induction_rest with
  | _ c ih => exact cut_full_of_shorter ih hc

end

/-! ## Whole texts -/

/-- A block and the spaces around it. -/
def spaced : Rule Statement := fun c => do
  let c ← anySpaces c
  let (s, c) ← block c
  let c ← anySpaces c
  return (s, c)

theorem derivation_eq (text : List Char) : derivation text =
    spaced ⟨0, text⟩ >>= fun p => if p.2.rest.isEmpty then Pure.pure p.1 else .miss p.2 .endOfInput := by
  have hstart : start (text.length + 1) ⟨0, text⟩ = spaced ⟨0, text⟩ := start_eq (Nat.lt_succ_self _)
  rw [derivation, hstart]

theorem spaced_eq_some_iff {s : Statement} : (spaced c).result = some (s, d) ↔
    ∃ e, (full c.pastSpaces).result = some (s, e) ∧ e.pastSpaces = d := by
  simp only [spaced, Trial.bind_eq_some_iff, Prod.exists, Trial.result_pure, Option.some.injEq, Prod.mk.injEq,
    anySpaces_eq_some_iff, block_eq_some_iff]
  constructor
  · rintro ⟨_, rfl, s, e, hs, _, rfl, rfl, rfl⟩
    exact ⟨e, hs, rfl⟩
  · rintro ⟨e, hs, rfl⟩
    exact ⟨_, rfl, s, e, hs, _, rfl, rfl, rfl⟩

theorem endsAt_spaced {s : Statement} (hc : c.EndsAt n) (h : (spaced c).result = some (s, d)) : d.EndsAt n := by
  obtain ⟨e, hs, rfl⟩ := spaced_eq_some_iff.1 h
  exact e.spans_pastSpaces.endsAt ((reads_full _ _ _ hs).endsAt (c.spans_pastSpaces.endsAt hc))

/-- Behind a block one space more is missing. -/
theorem mem_misses_spaced {s : Statement} (h : (spaced c).result = some (s, d)) :
    (⟨d.index, .token .space⟩ : Miss) ∈ (spaced c).misses := by
  obtain ⟨e, hs, rfl⟩ := spaced_eq_some_iff.1 h
  refine mem_misses_bind_right (anySpaces_eq_some_iff.2 rfl) ?_
  exact mem_misses_bind_right (block_eq_some_iff.2 hs) (mem_misses_bind_left (List.mem_singleton_self _))

theorem cut_spaced (hc : c.EndsAt n) : Cut n Prod.snd (extendPlace v) (spaced (c.extend v)) (spaced c) := by
  refine (cut_anySpaces hc).bind (fun d hd => ?_) fun c₁ h₁ => ?_
  · exact ((reaches_full hd).orElse _).bind fun ⟨_, d'⟩ hd' => reaches_anySpaces_bind _ hd'
  have hc₁ := (spans_anySpaces h₁).endsAt hc
  have hblock : Cut n Prod.snd (extendPlace v) (block (c₁.extend v)) (block c₁) :=
    (cut_full hc₁).orElse (cut_group (fun d _ hd => cut_full hd) hc₁)
  refine hblock.bind (fun ⟨_, d⟩ hd => reaches_anySpaces_bind _ hd) fun ⟨s, c₂⟩ h₂ => ?_
  have hc₂ := (reads_full _ _ _ (block_eq_some_iff.1 h₂)).endsAt hc₁
  exact (cut_anySpaces hc₂).bind (fun _ h => reaches_pure h) fun c₃ _ => cut_pure (s, c₃)

/-- **The start of a text** that nothing is missing behind is read as it is read in the whole text. -/
theorem spaced_extend (hc : c.EndsAt n) (h : (spaced (c.extend v)).Within n) :
    (spaced (c.extend v)).result = (spaced c).result.map (extendPlace v) ∧
      (spaced (c.extend v)).misses = (spaced c).misses := by
  rcases @cut_spaced c n v hc with (⟨m, hm, hlt⟩ | ⟨⟨s, d⟩, hd, hlt⟩) | heq
  · exact absurd hlt (Nat.not_le.2 (Nat.lt_succ_of_le (h m hm)))
  · exact absurd hlt (Nat.not_le.2 (Nat.lt_succ_of_le (h _ (mem_misses_spaced hd))))
  · exact heq

end Grammar

end SearchFilter
