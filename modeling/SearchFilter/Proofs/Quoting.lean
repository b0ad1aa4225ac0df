import SearchFilter.Filter.SyntaxError

/-!
# Quoted texts are read back in one way

* `Text.Escapes` — how characters are written between quotes, such that they show where they end.
* `Text.Escapes.flatMap_append_inj`, `Text.quote_injective` — so do texts between quotes.
* `Expectation.description_injective` — different expectations are shown differently.
* `Expectation.mem_ordered_iff` — putting expectations in order loses none.
-/

namespace SearchFilter

namespace Text

/-- Texts in front of the first character of a kind. -/
theorem append_cons_inj {x : Char} {cs ds s t : List Char} (hc : x ∉ cs) (hd : x ∉ ds)
    (h : cs ++ x :: s = ds ++ x :: t) : cs = ds ∧ s = t := by
  induction cs generalizing ds with
  | nil =>
    cases ds with
    | nil => exact ⟨rfl, (List.cons.inj h).2⟩
    | cons d ds => exact absurd ((List.cons.inj h).1 ▸ List.mem_cons_self) hd
  | cons c cs ih =>
    cases ds with
    | nil => exact absurd ((List.cons.inj h).1 ▸ List.mem_cons_self) hc
    | cons d ds =>
      obtain ⟨rfl, htail⟩ := List.cons.inj h
      obtain ⟨rfl, hst⟩ := ih (fun hx => hc (.tail _ hx)) (fun hx => hd (.tail _ hx)) htail
      exact ⟨rfl, hst⟩

/-! ## Escapes -/

/-- Between quotes, characters are shown as they are or behind a backslash by a code that shows where it ends. -/
structure Escapes (write : Char → List Char) : Prop where
  shown_or_code : ∀ c, (write c = [c] ∧ c ≠ '\\' ∧ c ≠ '\x22') ∨ ∃ code, write c = '\\' :: code
  code_append_inj : ∀ {c d k l s t}, write c = '\\' :: k → write d = '\\' :: l → k ++ s = l ++ t → c = d ∧ s = t

namespace Escapes

variable {write : Char → List Char} (hw : Escapes write) {c d : Char} {cs ds s t : List Char}

include hw

/-- A character shows where it ends. -/
theorem append_inj (h : write c ++ s = write d ++ t) : c = d ∧ s = t := by
  rcases hw.shown_or_code c with ⟨hc, hc', _⟩ | ⟨k, hc⟩ <;> rcases hw.shown_or_code d with ⟨hd, hd', _⟩ | ⟨l, hd⟩ <;>
    rw [hc, hd] at h
  · simpa using h
  · exact absurd (List.cons.inj h).1 hc'
  · exact absurd (List.cons.inj h).1.symm hd'
  · exact hw.code_append_inj hc hd (List.cons.inj h).2

/-- No character starts like the closing quote. -/
theorem append_ne_quote (c : Char) (s t : List Char) : write c ++ s ≠ '\x22' :: t := by
  intro h
  rcases hw.shown_or_code c with ⟨hc, _, hq⟩ | ⟨k, hc⟩ <;> rw [hc] at h
  · exact hq (List.cons.inj h).1
  · exact absurd (List.cons.inj h).1 (by decide)

/-- The closing quote shows where a text ends. -/
theorem flatMap_append_inj (h : cs.flatMap write ++ '\x22' :: s = ds.flatMap write ++ '\x22' :: t) :
    cs = ds ∧ s = t := by
  induction cs generalizing ds with
  | nil =>
    cases ds with
    | nil => simpa using h
    | cons d ds =>
      rw [List.flatMap_cons, List.append_assoc] at h
      exact absurd h.symm (hw.append_ne_quote d _ _)
  | cons c cs ih =>
    cases ds with
    | nil =>
      rw [List.flatMap_cons, List.append_assoc] at h
      exact absurd h (hw.append_ne_quote c _ _)
    | cons d ds =>
      rw [List.flatMap_cons, List.flatMap_cons, List.append_assoc, List.append_assoc] at h
      obtain ⟨rfl, hrest⟩ := hw.append_inj h
      obtain ⟨rfl, hst⟩ := ih hrest
      exact ⟨rfl, hst⟩

end Escapes

/-! ## Hexadecimal digits -/

theorem digitChar_inj {m n : Nat} (hm : m < 16) (hn : n < 16) (h : m.digitChar = n.digitChar) : m = n := by
  have key : ∀ m < 16, ∀ n < 16, m.digitChar = n.digitChar → m = n := by decide
  exact key m hm n hn h

theorem toDigits_succ {n : Nat} (h : 16 ≤ n) :
    Nat.toDigits 16 n = Nat.toDigits 16 (n / 16) ++ [(n % 16).digitChar] := Nat.toDigits_of_base_le (by decide) h

theorem toDigits_inj {m n : Nat} (h : Nat.toDigits 16 m = Nat.toDigits 16 n) : m = n := by
  induction m using Nat.strongRecOn generalizing n with
  | _ m ih =>
    by_cases hm : m < 16 <;> by_cases hn : n < 16
    · rw [Nat.toDigits_of_lt_base hm, Nat.toDigits_of_lt_base hn] at h
      exact digitChar_inj hm hn (List.cons.inj h).1
    · rw [Nat.toDigits_of_lt_base hm, toDigits_succ (by omega)] at h
      have := congrArg List.length h
      have hpos : 0 < (Nat.toDigits 16 (n / 16)).length := Nat.length_toDigits_pos
      simp only [List.length_append, List.length_singleton] at this
      omega
    · rw [Nat.toDigits_of_lt_base hn, toDigits_succ (by omega)] at h
      have := congrArg List.length h
      have hpos : 0 < (Nat.toDigits 16 (m / 16)).length := Nat.length_toDigits_pos
      simp only [List.length_append, List.length_singleton] at this
      omega
    · rw [toDigits_succ (Nat.le_of_not_lt hm), toDigits_succ (Nat.le_of_not_lt hn)] at h
      obtain ⟨hq, hr⟩ := List.append_inj' h rfl
      have hq := ih (m / 16) (by omega) hq
      have hr := digitChar_inj (Nat.mod_lt m (by decide)) (Nat.mod_lt n (by decide)) (List.cons.inj hr).1
      omega

theorem brace_notMem_toDigits (n : Nat) : '\x7d' ∉ Nat.toDigits 16 n := by
  have key : ∀ d < 16, d.digitChar ≠ '\x7d' := by decide
  induction n using Nat.strongRecOn with
  | _ n ih =>
    by_cases hn : n < 16
    · rw [Nat.toDigits_of_lt_base hn, List.mem_singleton]
      exact (key n hn).symm
    · rw [toDigits_succ (by omega), List.mem_append, List.mem_singleton, not_or]
      exact ⟨ih (n / 16) (by omega), (key _ (Nat.mod_lt n (by decide))).symm⟩

/-! ## Quoted characters -/

/-- The character that a letter behind a backslash stands for. -/
def unescape (c : Char) : Char :=
  if c = 'n' then '\n' else if c = 'r' then '\r' else if c = 't' then '\t' else if c = '0' then '\x00' else c

/-- A character is shown as it is, by its number, or by a letter. -/
theorem quoteChar_cases (c : Char) :
    (quoteChar c = [c] ∧ c ≠ '\\' ∧ c ≠ '\x22') ∨ quoteChar c = escapeByNumber c ∨
      ∃ x, quoteChar c = ['\\', x] ∧ x ≠ 'u' ∧ unescape x = c := by
  unfold quoteChar
  split
  · next h => rcases h with rfl | rfl <;> exact .inr (.inr ⟨_, rfl, by decide, by decide⟩)
  · next hq =>
    split
    · next h => exact .inr (.inr ⟨_, rfl, by decide, by rw [h]; decide⟩)
    split
    · next h => exact .inr (.inr ⟨_, rfl, by decide, by rw [h]; decide⟩)
    split
    · next h => exact .inr (.inr ⟨_, rfl, by decide, by rw [h]; decide⟩)
    split
    · next h => exact .inr (.inr ⟨_, rfl, by decide, by rw [h]; decide⟩)
    split
    · exact .inr (.inl rfl)
    · exact .inl ⟨rfl, fun h => hq (.inr h), fun h => hq (.inl h)⟩

theorem escapeByNumber_eq (c : Char) :
    escapeByNumber c = '\\' :: 'u' :: '\x7b' :: (Nat.toDigits 16 c.toNat ++ ['\x7d']) := by
  simp [escapeByNumber]

/-- What stands behind the number of a character does not matter. -/
theorem escapeByNumber_append_inj {c d : Char} {s t : List Char}
    (h : escapeByNumber c ++ s = escapeByNumber d ++ t) : c = d ∧ s = t := by
  simp only [escapeByNumber_eq, List.cons_append, List.append_assoc, List.nil_append, List.cons.injEq, true_and] at h
  obtain ⟨hdigits, hst⟩ := append_cons_inj (brace_notMem_toDigits _) (brace_notMem_toDigits _) h
  exact ⟨Char.toNat_inj.1 (toDigits_inj hdigits), hst⟩

/-- The code of a character is its number or a letter. -/
theorem code_cases {c : Char} {k : List Char} (h : quoteChar c = '\\' :: k) :
    escapeByNumber c = '\\' :: k ∨ ∃ x, k = [x] ∧ x ≠ 'u' ∧ unescape x = c := by
  rcases quoteChar_cases c with ⟨hc, hne, _⟩ | hc | ⟨x, hc, hx⟩ <;> rw [hc] at h
  · exact absurd (List.cons.inj h).1 hne
  · exact .inl h
  · exact .inr ⟨x, (List.cons.inj h).2.symm, hx⟩

theorem ne_letter_of_number {c x : Char} {k s t : List Char} (hk : escapeByNumber c = '\\' :: k) (hx : x ≠ 'u') :
    k ++ s ≠ [x] ++ t := by
  rw [escapeByNumber_eq] at hk
  rw [← (List.cons.inj hk).2]
  exact fun h => hx (List.cons.inj h).1.symm

theorem escapes_quoteChar : Escapes quoteChar where
  shown_or_code c := by
    rcases quoteChar_cases c with hc | hc | ⟨x, hc, _⟩
    · exact .inl hc
    · exact .inr ⟨_, hc.trans (escapeByNumber_eq c)⟩
    · exact .inr ⟨_, hc⟩
  code_append_inj hk hl h := by
    rcases code_cases hk with hc | ⟨x, rfl, hx, rfl⟩ <;> rcases code_cases hl with hd | ⟨y, rfl, hy, rfl⟩
    · exact escapeByNumber_append_inj (by rw [hc, hd, List.cons_append, List.cons_append, h])
    · exact absurd h (ne_letter_of_number hc hy)
    · exact absurd h.symm (ne_letter_of_number hd hx)
    · rw [List.singleton_append, List.singleton_append, List.cons.injEq] at h
      exact ⟨by rw [h.1], h.2⟩

theorem quote_injective {s t : String} (h : quote s = quote t) : s = t := by
  have h := String.ofList_injective h
  exact String.toList_inj.1 (escapes_quoteChar.flatMap_append_inj (List.cons.inj h).2).1

end Text

/-! ## Expectations as they are shown -/

theorem TokenClass.name_injective {k l : TokenClass} (h : k.name = l.name) : k = l := by
  cases k <;> cases l <;> first | rfl | (exact absurd h (by decide))

namespace Expectation

/-- A quoted text is no name of a token class. -/
theorem quote_ne_of_head {s t : String} (h : t.toList.head? ≠ some '\x22') : Text.quote s ≠ t := by
  rintro rfl
  exact h (by simp [Text.quote, Text.quoteChars])

theorem description_injective {x y : Expectation} (h : x.description = y.description) : x = y := by
  cases x <;> cases y
  case literal.literal s t => rw [Text.quote_injective h]
  case token.token k l => rw [TokenClass.name_injective h]
  case endOfInput.endOfInput => rfl
  case literal.token s k => exact absurd h (quote_ne_of_head (by cases k <;> decide))
  case token.literal k s => exact absurd h.symm (quote_ne_of_head (by cases k <;> decide))
  case literal.endOfInput s => exact absurd h (quote_ne_of_head (by decide))
  case endOfInput.literal s => exact absurd h.symm (quote_ne_of_head (by decide))
  case token.endOfInput k => exact absurd h (by cases k <;> decide)
  case endOfInput.token k => exact absurd h (by cases k <;> decide)

/-- Putting expectations in order neither adds nor loses any. -/
theorem mem_ordered_iff {x : Expectation} {es : List Expectation} : x ∈ ordered es ↔ x ∈ es := by
  refine ⟨mem_of_mem_ordered, fun h => ?_⟩
  obtain ⟨y, hy, he⟩ := exists_mem_ordered h
  rwa [← description_injective he]

end Expectation

end SearchFilter
