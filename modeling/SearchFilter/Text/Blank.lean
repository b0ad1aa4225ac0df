/-!
# White space around a text

* `isBlank` — the characters with the property White_Space.
* `trim` — a text without the white space at its ends.
* `exists_trim_eq`, `trim_eq_empty_iff` — what is taken away and what is left.
-/

namespace SearchFilter.Text

/-- White space: the 25 characters with the property White_Space. -/
def isBlank (c : Char) : Bool :=
  c = ' ' || (0x09 ≤ c.toNat && c.toNat ≤ 0x0D) || c.toNat = 0x85 || c.toNat = 0xA0 || c.toNat = 0x1680
    || (0x2000 ≤ c.toNat && c.toNat ≤ 0x200A) || c.toNat = 0x2028 || c.toNat = 0x2029 || c.toNat = 0x202F
    || c.toNat = 0x205F || c.toNat = 0x3000

/-- Characters without the white space at both ends. -/
def trimChars (cs : List Char) : List Char :=
  ((cs.dropWhile isBlank).reverse.dropWhile isBlank).reverse

/-- A text without the white space at both ends. -/
def trim (s : String) : String := String.ofList (trimChars s.toList)

/-- A text is what is left of it between white space. -/
theorem exists_trimChars_eq (cs : List Char) :
    ∃ u v, cs = u ++ trimChars cs ++ v ∧ (∀ c ∈ u, isBlank c = true) ∧ ∀ c ∈ v, isBlank c = true := by
  refine ⟨cs.takeWhile isBlank, (((cs.dropWhile isBlank).reverse).takeWhile isBlank).reverse, ?_, ?_, ?_⟩
  · rw [trimChars, List.append_assoc, ← List.reverse_append, List.takeWhile_append_dropWhile, List.reverse_reverse,
      List.takeWhile_append_dropWhile]
  · exact fun c hc => List.all_eq_true.1 List.all_takeWhile c hc
  · exact fun c hc => List.all_eq_true.1 List.all_takeWhile c (List.mem_reverse.1 hc)

theorem isBlank_head_dropWhile {cs : List Char} {c : Char} (h : (cs.dropWhile isBlank).head? = some c) :
    isBlank c = false := by
  have hne : cs.dropWhile isBlank ≠ [] := List.ne_nil_of_mem (List.mem_of_mem_head? h)
  have hhead := List.head_dropWhile_not isBlank hne
  rw [List.head?_eq_some_head hne, Option.some.injEq] at h
  rwa [h] at hhead

/-- What is left does not end with white space. -/
theorem isBlank_getLast_trimChars {cs : List Char} {c : Char} (h : (trimChars cs).getLast? = some c) :
    isBlank c = false := by
  rw [trimChars, List.getLast?_reverse] at h
  exact isBlank_head_dropWhile h

/-- What is left does not start with white space: what is dropped behind it leaves its first character. -/
theorem isBlank_head_trimChars {cs : List Char} {c : Char} (h : (trimChars cs).head? = some c) :
    isBlank c = false := by
  obtain ⟨v, hv⟩ : ∃ v, cs.dropWhile isBlank = trimChars cs ++ v := by
    refine ⟨((cs.dropWhile isBlank).reverse.takeWhile isBlank).reverse, ?_⟩
    rw [trimChars, ← List.reverse_append, List.takeWhile_append_dropWhile, List.reverse_reverse]
  have hhead : (cs.dropWhile isBlank).head? = some c := by
    rw [hv, List.head?_append, h]
    rfl
  exact isBlank_head_dropWhile hhead

/-- **Trimming** takes away white space at both ends, and leaves none there. -/
theorem exists_trim_eq (s : String) : ∃ u v : String, s = u ++ trim s ++ v ∧
    (∀ c ∈ u.toList, isBlank c = true) ∧ (∀ c ∈ v.toList, isBlank c = true) ∧
    (∀ c, (trim s).toList.head? = some c → isBlank c = false) ∧
    ∀ c, (trim s).toList.getLast? = some c → isBlank c = false := by
  obtain ⟨u, v, hs, hu, hv⟩ := exists_trimChars_eq s.toList
  refine ⟨String.ofList u, String.ofList v, ?_, ?_, ?_, ?_, ?_⟩
  · apply String.toList_inj.1
    simpa [trim] using hs
  · simpa using hu
  · simpa using hv
  · intro c hc
    rw [trim, String.toList_ofList] at hc
    exact isBlank_head_trimChars hc
  · intro c hc
    rw [trim, String.toList_ofList] at hc
    exact isBlank_getLast_trimChars hc

theorem trimChars_eq_nil_iff {cs : List Char} : trimChars cs = [] ↔ ∀ c ∈ cs, isBlank c = true := by
  constructor
  · intro h c hc
    obtain ⟨u, v, hs, hu, hv⟩ := exists_trimChars_eq cs
    rw [hs, h, List.append_nil, List.mem_append] at hc
    exact hc.elim (hu c) (hv c)
  · intro h
    have hnil : cs.dropWhile isBlank = [] := by
      induction cs with
      | nil => rfl
      | cons c cs ih =>
        rw [List.dropWhile_cons_of_pos (h c (.head _))]
        exact ih fun x hx => h x (.tail _ hx)
    simp [trimChars, hnil]

/-- Nothing is left of white space, and something of every other text. -/
theorem trim_eq_empty_iff {s : String} : trim s = "" ↔ ∀ c ∈ s.toList, isBlank c = true := by
  rw [trim, String.ofList_eq_empty_iff, trimChars_eq_nil_iff]

end SearchFilter.Text
