import Mathlib.Data.List.Infix
import Mathlib.Data.List.TakeWhile
import SearchFilter.Text.Blank

/-!
# Balanced parentheses

* `Text.Balanced` — every parenthesis has its partner.
* `Balanced.append`, `Balanced.wrap` — texts put together from balanced ones are balanced.
* `Balanced.eq_of_append_close` — the parenthesis that closes a balanced text is where it is, and nowhere else.
* `balanced_trimChars` — white space at the ends does not matter.
-/

namespace SearchFilter.Text

/-- No parenthesis is closed that was not opened before it. -/
def NoStrayClose (cs : List Char) : Prop := ∀ u, u <+: cs → u.count ')' ≤ u.count '('

/-- No parenthesis is opened that is not closed behind it. -/
def NoStrayOpen (cs : List Char) : Prop := ∀ v, v <:+ cs → v.count '(' ≤ v.count ')'

/-- Every parenthesis has its partner. -/
structure Balanced (cs : List Char) : Prop where
  noStrayClose : NoStrayClose cs
  count_eq : cs.count '(' = cs.count ')'

/-- Texts without parentheses. -/
def Plain (cs : List Char) : Prop := '(' ∉ cs ∧ ')' ∉ cs

instance (cs : List Char) : Decidable (Plain cs) := inferInstanceAs (Decidable (_ ∧ _))

instance (cs : List Char) : Decidable (NoStrayClose cs) :=
  decidable_of_iff (∀ u ∈ cs.inits, u.count ')' ≤ u.count '(') (by simp [NoStrayClose])

instance (cs : List Char) : Decidable (Balanced cs) :=
  decidable_of_iff (NoStrayClose cs ∧ cs.count '(' = cs.count ')') ⟨fun h => ⟨h.1, h.2⟩, fun h => ⟨h.1, h.2⟩⟩

variable {cs ds u v w : List Char}

/-! ## Texts without parentheses -/

theorem Plain.count (h : Plain cs) : cs.count '(' = 0 ∧ cs.count ')' = 0 :=
  ⟨List.count_eq_zero.2 h.1, List.count_eq_zero.2 h.2⟩

theorem Plain.append (h : Plain cs) (h' : Plain ds) : Plain (cs ++ ds) := by
  simp only [Plain, List.mem_append, not_or]
  exact ⟨⟨h.1, h'.1⟩, h.2, h'.2⟩

theorem Plain.mono (h : Plain cs) (hs : ∀ c ∈ u, c ∈ cs) : Plain u :=
  ⟨fun hc => h.1 (hs _ hc), fun hc => h.2 (hs _ hc)⟩

/-- Characters of a class that has no parentheses. -/
theorem plain_of_forall {kind : Char → Bool} (ho : kind '(' = false) (hc : kind ')' = false)
    (h : ∀ c ∈ cs, kind c = true) : Plain cs := by
  refine ⟨fun hm => ?_, fun hm => ?_⟩
  · rw [h _ hm] at ho; cases ho
  · rw [h _ hm] at hc; cases hc

theorem Plain.balanced (h : Plain cs) : Balanced cs where
  noStrayClose u hu := by
    have hp := (h.mono fun c hc => hu.subset hc).count
    omega
  count_eq := by rw [h.count.1, h.count.2]

/-! ## Stray parentheses -/

theorem NoStrayOpen.of_append (h : NoStrayOpen (u ++ v)) : NoStrayOpen v := fun w hw =>
  h w (hw.trans (List.suffix_append u v))

theorem NoStrayClose.append (hu : Balanced u) (hv : NoStrayClose v) : NoStrayClose (u ++ v) := by
  rintro w ⟨t, ht⟩
  rcases List.append_eq_append_iff.1 ht with ⟨as, rfl, _⟩ | ⟨bs, rfl, rfl⟩
  · exact hu.noStrayClose w (List.prefix_append w as)
  · have h := hv bs (List.prefix_append bs t)
    have hc := hu.count_eq
    simp only [List.count_append]
    omega

/-- Balanced texts open nothing that stays open. -/
theorem Balanced.noStrayOpen (h : Balanced cs) : NoStrayOpen cs := by
  rintro v ⟨u, rfl⟩
  have hu := h.noStrayClose u (List.prefix_append u v)
  have hc := h.count_eq
  simp only [List.count_append] at hc
  omega

/-! ## Balanced texts -/

theorem Balanced.append (hu : Balanced u) (hv : Balanced v) : Balanced (u ++ v) where
  noStrayClose := NoStrayClose.append hu hv.noStrayClose
  count_eq := by simp only [List.count_append, hu.count_eq, hv.count_eq]

/-- A balanced text between parentheses is balanced. -/
theorem Balanced.wrap (h : Balanced u) : Balanced ('(' :: (u ++ [')'])) where
  noStrayClose w hw := by
    rcases List.prefix_cons_iff.1 hw with rfl | ⟨t, rfl, ht⟩
    · simp
    rcases List.prefix_concat_iff.1 ht with rfl | ht
    · simp [h.count_eq]
    · have := h.noStrayClose t ht
      simp
      omega
  count_eq := by simp [h.count_eq]

/-- The parenthesis that closes a balanced text has one place only. -/
theorem Balanced.eq_of_append_close (hu : Balanced u) (hv : Balanced v) (h : u ++ ')' :: cs = v ++ ')' :: ds) :
    u = v ∧ cs = ds := by
  -- the shorter text and its closing parenthesis would be the start of the longer one
  have key {a b : List Char} (ha : Balanced a) (hb : Balanced b) (x : Char) (as : List Char) (he : b = a ++ x :: as)
      (hx : x = ')') : False := by
    have h₁ := hb.noStrayClose (a ++ [x]) ⟨as, by rw [he]; simp⟩
    have h₂ := ha.count_eq
    subst hx
    simp at h₁
    omega
  rcases List.append_eq_append_iff.1 h with ⟨as, he, hs⟩ | ⟨bs, he, hs⟩
  · cases as with
    | nil => simpa [he] using hs
    | cons x as => exact (key hu hv x as he (by simp at hs; exact hs.1.symm)).elim
  · cases bs with
    | nil => simp at he hs; exact ⟨he, hs.symm⟩
    | cons x bs => exact (key hv hu x bs he (by simp at hs; exact hs.1.symm)).elim

/-- Texts without parentheses at both ends do not matter. -/
theorem Balanced.of_plain_append (hu : Plain u) (hv : Plain v) (h : Balanced (u ++ w ++ v)) : Balanced w where
  noStrayClose t ht := by
    have h' := h.noStrayClose (u ++ t) (by
      obtain ⟨s, rfl⟩ := ht
      exact ⟨s ++ v, by simp⟩)
    have hc := hu.count
    simp only [List.count_append] at h'
    omega
  count_eq := by
    have hc := h.count_eq
    simp only [List.count_append, hu.count, hv.count] at hc
    omega

/-! ## White space at the ends -/

theorem plain_of_blank (h : ∀ c ∈ cs, isBlank c = true) : Plain cs := plain_of_forall (by decide) (by decide) h

theorem balanced_trimChars (h : Balanced cs) : Balanced (trimChars cs) := by
  obtain ⟨u, v, he, hu, hv⟩ := exists_trimChars_eq cs
  exact .of_plain_append (plain_of_blank hu) (plain_of_blank hv) (he ▸ h)

end SearchFilter.Text
