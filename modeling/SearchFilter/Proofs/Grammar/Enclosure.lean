import SearchFilter.Proofs.Grammar.Locality

/-!
# What stands between parentheses

Every opening parenthesis of a derived text opens a group, for no token has one in it (`exists_group_of_open`). A text
with balanced parentheses between two parentheses is then derived by itself, and to the same statement
(`derivation_of_enclosed`); conversely a derived text is a group between parentheses (`group_of_derivation`).

* `Cursor.Leads` — one place is ahead of another.
* `balanced_of_derivation` — derived texts have balanced parentheses.
-/

namespace SearchFilter

open Text (Plain Balanced NoStrayOpen)

/-! ## Places ahead -/

namespace Cursor

variable {c d p : Cursor} {u : List Char}

/-- The place `p` is ahead of `c`, or it is `c`. -/
def Leads (c p : Cursor) : Prop := ∃ u, c.Spans u p

/-- What is ahead of a place and not before a later one is ahead of that. -/
theorem Leads.of_spans (h : c.Leads p) (hs : c.Spans u d) (hle : d.index ≤ p.index) : d.Leads p := by
  obtain ⟨v, hv⟩ := h
  have hi := hs.index_eq
  have hi' := hv.index_eq
  have he : u ++ d.rest = v ++ p.rest := hs.rest_eq.symm.trans hv.rest_eq
  rcases List.append_eq_append_iff.1 he with ⟨w, rfl, hd⟩ | ⟨w, rfl, hd⟩
  · refine ⟨w, hd, ?_⟩
    rw [List.length_append] at hi'
    omega
  · rw [List.length_append] at hi
    have hw : w = [] := List.length_eq_zero_iff.1 (by omega)
    subst hw
    exact ⟨[], hd.symm, by simp at hi ⊢; omega⟩

/-- No parenthesis opens in a text without parentheses. -/
theorem Leads.le_of_plain (h : c.Leads p) (ho : p.rest.head? = some '(') (hs : c.Spans u d) (hu : Plain u) :
    d.index ≤ p.index := by
  by_contra hlt
  obtain ⟨v, hv⟩ := h
  obtain ⟨w, hw⟩ := List.head?_eq_some_iff.1 ho
  have hi := hs.index_eq
  have hi' := hv.index_eq
  have he : u ++ d.rest = v ++ '(' :: w := by rw [← hw, ← hs.rest_eq, hv.rest_eq]
  rcases List.append_eq_append_iff.1 he with ⟨x, rfl, _⟩ | ⟨x, rfl, hx⟩
  · rw [List.length_append] at hi'
    omega
  · cases x with
    | nil => simp at hi; omega
    | cons y x =>
      obtain rfl : '(' = y := by simp at hx; exact hx.1
      exact hu.1 (by simp)

theorem Leads.of_plain (h : c.Leads p) (ho : p.rest.head? = some '(') (hs : c.Spans u d) (hu : Plain u) : d.Leads p :=
  h.of_spans hs (h.le_of_plain ho hs hu)

theorem Leads.pastSpaces (h : c.Leads p) (ho : p.rest.head? = some '(') : c.pastSpaces.Leads p :=
  h.of_plain ho c.spans_pastSpaces (plain_spaces _)

/-- Two places at the same index ahead of one place are one place. -/
theorem Leads.eq_of_index (h : c.Leads p) (hi : p.index = c.index) : p = c := by
  obtain ⟨u, hu⟩ := h
  have hlen := hu.index_eq
  have hnil : u = [] := List.length_eq_zero_iff.1 (by omega)
  subst hnil
  obtain ⟨i, cs⟩ := c
  obtain ⟨j, ds⟩ := p
  obtain rfl : j = i := hi
  obtain rfl : cs = ds := hu.rest_eq
  rfl

end Cursor

namespace Grammar

variable {c d e p : Cursor} {s : Statement} {level : Nat}

/-! ## Every parenthesis opens a group -/

/-- At `p` a group opens whose statement fits at level `level`. -/
def OpensGroup (p : Cursor) (level : Nat) : Prop :=
  ∃ inner e, (full (p.advance 1).pastSpaces).result = some (inner, e) ∧ e.pastSpaces.rest.head? = some ')' ∧
    inner.Fits level

/-- Statements shorter than `n` whose parentheses all open groups. -/
def OpensGroups (n : Nat) : Prop := ∀ (c : Cursor) (s : Statement) (d p : Cursor) (level : Nat), c.rest.length < n →
  (full c).result = some (s, d) → s.Fits level → c.Leads p → p.rest.head? = some '(' → p.index < d.index →
    OpensGroup p (level + 1)

theorem opensGroup_of_group (hi : OpensGroups c.rest.length) (h : (group full c).result = some (s, d))
    (hs : s.Fits (level + 1)) (hp : c.Leads p) (ho : p.rest.head? = some '(') (hlt : p.index < d.index) :
    OpensGroup p (level + 1) := by
  obtain ⟨hopen, e, hfull, hclose, rfl⟩ := group_eq_some_iff.1 h
  have hspans := spans_literal (literal_open_eq_some_iff.2 ⟨hopen, rfl⟩)
  by_cases hpc : p.index = c.index
  · obtain rfl := hp.eq_of_index hpc
    exact ⟨s, e, hfull, hclose, hs⟩
  have hle : c.index ≤ p.index := by
    obtain ⟨u, hu⟩ := hp
    have := hu.index_eq
    omega
  have hone : (c.advance 1).index = c.index + 1 := rfl
  have hin := (hp.of_spans hspans (by omega)).pastSpaces ho
  have hlen := hspans.length_lt (by decide)
  have hlen' := length_pastSpaces_le (c.advance 1)
  by_cases hpe : p.index < e.index
  · -- the group is in the statement, one level deeper
    obtain ⟨inner, e', hinner, hclose', hfits⟩ := hi _ s e p (level + 1) (by omega) hfull hs hin ho hpe
    exact ⟨inner, e', hinner, hclose', hfits.of_succ⟩
  · -- behind the statement there are only spaces and the closing parenthesis
    obtain ⟨u, _, _, hu⟩ := reads_full _ _ _ hfull
    have hbehind := (hin.of_spans hu (by omega)).pastSpaces ho
    have hindex : p.index = e.pastSpaces.index := by
      have hlast : (e.pastSpaces.advance 1).index = e.pastSpaces.index + 1 := rfl
      obtain ⟨v, hv⟩ := hbehind
      have := hv.index_eq
      omega
    rw [hbehind.eq_of_index hindex, hclose] at ho
    cases ho

theorem opensGroup_of_expression {left : Expression} (hi : OpensGroups c.rest.length)
    (h : (expression full c).result = some (left, d)) (hs : left.Fits level) (hp : c.Leads p)
    (ho : p.rest.head? = some '(') (hlt : p.index < d.index) : OpensGroup p (level + 1) := by
  rcases expression_eq_some_iff.1 h with hc | ⟨_, inner, hg, rfl⟩
  · obtain ⟨u, _, hu, hspans⟩ := (reads_anyComparison hc).2
    have := hp.le_of_plain ho hspans hu
    omega
  · exact opensGroup_of_group hi hg hs hp ho hlt

/-- **Every opening parenthesis** that a statement reads opens a group. -/
theorem opensGroups (n : Nat) : OpensGroups n := by
  induction n with
  | zero => intro c s d p level hn; omega
  | succ n ih =>
    intro c s d p level hn h hs hp ho hlt
    have hi : OpensGroups c.rest.length := fun c' s' d' p' level' hn' => ih c' s' d' p' level' (by omega)
    rcases full_eq_some_iff.1 h with ⟨left, c₁, next, hleft, hnext, rfl⟩ | ⟨_, hneg⟩
    · obtain ⟨hlevel, hfits, hfits'⟩ := fits_extend.1 hs
      by_cases hpc : p.index < c₁.index
      · exact opensGroup_of_expression hi hleft hfits hp ho hpc
      obtain ⟨u, hu, _, hspans⟩ := reads_expression reads_full hleft
      have hlen := hspans.length_lt hu
      have hp₁ := hp.of_spans hspans (by omega)
      rcases continuation_eq_some_iff.1 hnext with ⟨link, right, c₂, hlink, hright, rfl⟩ | ⟨_, _, rfl⟩
      · obtain ⟨v, hv, hplain, hspans'⟩ := readsPlain_connective hlink
        have hlen' := hspans'.length_lt hv
        exact ih c₂ right d p level (by omega) hright (hfits' _ rfl) (hp₁.of_plain ho hspans' hplain) ho hlt
      · omega
    · obtain ⟨c₁, c₂, operand, h₁, h₂, hr, rfl⟩ := negated_eq_some_iff.1 hneg
      obtain ⟨u, hu, hplain, hspans⟩ := (readsPlain_literal (by decide) (by decide) h₁).trans (readsPlain_someSpaces h₂)
      have hlen := hspans.length_lt hu
      obtain ⟨inner, e, hinner, hclose, hfits⟩ := ih c₂ operand d p (level + 1) (by omega) hr (fits_not.1 hs).2
        (hp.of_plain ho hspans hplain) ho hlt
      exact ⟨inner, e, hinner, hclose, hfits.of_succ⟩

theorem exists_group_of_open (h : (full c).result = some (s, d)) (hs : s.Fits level) (hp : c.Leads p)
    (ho : p.rest.head? = some '(') (hlt : p.index < d.index) : OpensGroup p (level + 1) :=
  opensGroups _ c s d p level (Nat.lt_succ_self _) h hs hp ho hlt

/-! ## Texts between parentheses -/

variable {g t : List Char}

/-- What was read between the spaces around a statement. -/
theorem balanced_of_full (h : (full c.pastSpaces).result = some (s, e)) :
    ∃ u, Balanced u ∧ c.Spans u e.pastSpaces := by
  obtain ⟨u, _, hu, hs⟩ := reads_full _ _ _ h
  refine ⟨_, ?_, (c.spans_pastSpaces.trans hs).trans e.spans_pastSpaces⟩
  exact ((Cursor.plain_spaces _).balanced.append hu).append (Cursor.plain_spaces _).balanced

/-- Derived texts have balanced parentheses. -/
theorem balanced_of_derivation (h : (derivation g).result = some s) : Balanced g := by
  obtain ⟨d, hs, hd⟩ := derivation_eq_some_iff.1 h
  obtain ⟨u, hu, hspans⟩ := balanced_of_full hs
  have he : g = u ++ d.pastSpaces.rest := hspans.rest_eq
  rw [he, hd, List.append_nil]
  exact hu

theorem full_enclose_pastSpaces (hb : Balanced g) (k : Nat) (t : List Char) :
    (full ((Cursor.mk 0 g).enclose k t).pastSpaces).result =
      (full (Cursor.mk 0 g).pastSpaces).result.map (Prod.map (·.shift k) (·.enclose k t)) := by
  rw [Cursor.pastSpaces_enclose]
  refine full_enclose ?_ k t
  have hs := (Cursor.mk 0 g).spans_pastSpaces.rest_eq
  have hopen : NoStrayOpen (Cursor.mk 0 g).rest := hb.noStrayOpen
  rw [hs] at hopen
  exact hopen.of_append

/-- **A balanced text in front of a closing parenthesis** that ends a group is derived by itself. -/
theorem derivation_of_enclosed (hb : Balanced g) (hc : c.rest = g ++ ')' :: t)
    (h : (full c.pastSpaces).result = some (s, e)) (he : e.pastSpaces.rest.head? = some ')') :
    ∃ s', (derivation g).result = some s' ∧ s = s'.shift c.index := by
  have hcur : c = (Cursor.mk 0 g).enclose c.index t := by
    obtain ⟨i, cs⟩ := c
    obtain rfl : cs = g ++ ')' :: t := hc
    rfl
  obtain ⟨u, hu, hspans⟩ := balanced_of_full h
  obtain ⟨w, hw⟩ := List.head?_eq_some_iff.1 he
  have hsame : u ++ ')' :: w = g ++ ')' :: t := by rw [← hw, ← hspans.rest_eq, hc]
  obtain ⟨rfl, rfl⟩ := hu.eq_of_append_close hb hsame
  rw [hcur, full_enclose_pastSpaces hb] at h
  obtain ⟨⟨s', e'⟩, hs', hp⟩ := Option.map_eq_some_iff.1 h
  obtain ⟨rfl, rfl⟩ : s'.shift c.index = s ∧ e'.enclose c.index w = e := Prod.mk.inj hp
  rw [Cursor.pastSpaces_enclose] at hw
  have hrest : e'.pastSpaces.rest ++ ')' :: w = [] ++ ')' :: w := hw
  exact ⟨s', derivation_eq_some_iff.2 ⟨e', hs', List.append_cancel_right hrest⟩, rfl⟩

/-- **A balanced part** of a derived text that stands between parentheses is derived by itself, and nests less deep. -/
theorem derivation_of_part {text pre : List Char} (h : (derivation text).result = some s) (hs : s.Fits level)
    (ht : text = pre ++ '(' :: (g ++ ')' :: t)) (hb : Balanced g) :
    ∃ s', (derivation g).result = some s' ∧ s'.Fits (level + 1) := by
  obtain ⟨d, hfull, hd⟩ := derivation_eq_some_iff.1 h
  let p : Cursor := ⟨pre.length, '(' :: (g ++ ')' :: t)⟩
  have ho : p.rest.head? = some '(' := rfl
  have hlead : (Cursor.mk 0 text).Leads p := ⟨pre, ht, (Nat.zero_add _).symm⟩
  have hp := hlead.pastSpaces ho
  obtain ⟨u, _, _, hspans⟩ := reads_full _ _ _ hfull
  have hlt : p.index < d.index := by
    by_contra hle
    -- only spaces stand behind the statement
    obtain ⟨v, hv⟩ := (hp.of_spans hspans (by omega)).pastSpaces ho
    have hrest := hv.rest_eq
    rw [hd] at hrest
    cases v <;> cases hrest
  obtain ⟨inner, e, hinner, hclose, hfits⟩ := exists_group_of_open hfull hs hp ho hlt
  obtain ⟨s', hs', rfl⟩ := derivation_of_enclosed (c := p.advance 1) hb rfl hinner hclose
  exact ⟨s', hs', (fits_shift _).1 hfits⟩

/-- **A derived text between parentheses** is a group. -/
theorem group_of_derivation (hc : c.rest = '(' :: (g ++ ')' :: t)) (h : (derivation g).result = some s) :
    ∃ d, (group full c).result = some (s.shift (c.index + 1), d) ∧ d.rest = t := by
  obtain ⟨e, hs, he⟩ := derivation_eq_some_iff.1 h
  have hcur : c.advance 1 = (Cursor.mk 0 g).enclose (c.index + 1) t := by
    simp [Cursor.advance, Cursor.enclose, hc]
  have hfull := full_enclose_pastSpaces (balanced_of_derivation h) (c.index + 1) t
  rw [hs, ← hcur] at hfull
  have hend : (e.enclose (c.index + 1) t).pastSpaces.rest = ')' :: t := by
    rw [Cursor.pastSpaces_enclose]
    show e.pastSpaces.rest ++ ')' :: t = ')' :: t
    rw [he]
    rfl
  refine ⟨(e.enclose (c.index + 1) t).pastSpaces.advance 1,
    group_eq_some_iff.2 ⟨by rw [hc]; rfl, _, hfull, ?_, rfl⟩, ?_⟩
  · rw [hend]
    rfl
  · show List.drop 1 (e.enclose (c.index + 1) t).pastSpaces.rest = t
    rw [hend]
    rfl

/-- A group is an expression. -/
theorem expression_of_group (h : (group full c).result = some (s, d)) :
    (expression full c).result = some (.group s, d) := by
  refine expression_eq_some_iff.2 (.inr ⟨(stuckAt_anyComparison fun x hx => ?_).result_eq, s, h, rfl⟩)
  rw [(group_eq_some_iff.1 h).1] at hx
  cases hx
  decide

end Grammar

end SearchFilter
