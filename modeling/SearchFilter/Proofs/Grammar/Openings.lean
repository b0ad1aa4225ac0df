import SearchFilter.Proofs.Grammar.Levels

/-!
# How deep a text can nest

Only groups and negations nest statements, so no statement is nested deeper than there are opening parentheses and
`NOT`s ahead.

* `Text.openings` — how many there are.
* `Text.openings_append_le` — none arises where two texts meet, but for a `NOT` of which each has a part.
* `levels_le_openings` — levels of derivations are bounded by them.
-/

namespace SearchFilter

namespace Text

/-- How often `(` and `NOT` occur. -/
def openings (cs : List Char) : Nat := cs.count '(' + cs.tails.countP fun t => "NOT".toList.isPrefixOf t

variable {u v : List Char} {x : Char}

theorem openings_cons (x : Char) (u : List Char) : openings (x :: u) =
    (if x = '(' then 1 else 0) + (if "NOT".toList.isPrefixOf (x :: u) then 1 else 0) + openings u := by
  simp only [openings, List.count_cons, List.tails_cons, List.countP_cons, beq_iff_eq]
  omega

theorem openings_le_append_right (u v : List Char) : openings v ≤ openings (u ++ v) := by
  induction u with
  | nil => exact Nat.le_refl _
  | cons x u ih =>
    rw [List.cons_append, openings_cons]
    omega

theorem openings_le_append_left (u v : List Char) : openings u ≤ openings (u ++ v) := by
  induction u with
  | nil => exact Nat.zero_le _
  | cons x u ih =>
    rw [List.cons_append, openings_cons, openings_cons]
    by_cases h : "NOT".toList.isPrefixOf (x :: u) = true
    · have h' : "NOT".toList.isPrefixOf (x :: (u ++ v)) = true :=
        List.isPrefixOf_iff_prefix.2 ((List.isPrefixOf_iff_prefix.1 h).trans (List.prefix_append (x :: u) v))
      rw [if_pos h, if_pos h']
      omega
    · rw [if_neg h]
      omega

/-- What starts neither with `T` nor with `OT` makes no `NOT` with what stands before it. -/
def Apart (v : List Char) : Prop := v.head? ≠ some 'T' ∧ ¬ ['O', 'T'] <+: v

instance (v : List Char) : Decidable (Apart v) := inferInstanceAs (Decidable (_ ∧ _))

theorem not_of_append (hv : Apart v) (h : "NOT".toList <+: x :: (u ++ v)) : "NOT".toList <+: x :: u := by
  have hnot : "NOT".toList = ['N', 'O', 'T'] := rfl
  rw [hnot, List.cons_prefix_cons] at h ⊢
  obtain ⟨rfl, h⟩ := h
  refine ⟨rfl, ?_⟩
  match u with
  | [] => exact absurd h hv.2
  | [y] =>
    rw [List.cons_append, List.nil_append, List.cons_prefix_cons] at h
    obtain ⟨r, hr⟩ := h.2
    exact absurd (by rw [← hr]; rfl) hv.1
  | y :: z :: u =>
    rw [List.cons_append, List.cons_append, List.cons_prefix_cons, List.cons_prefix_cons] at h
    obtain ⟨rfl, rfl, _⟩ := h
    exact ⟨u, rfl⟩

theorem openings_append_le (hv : Apart v) (u : List Char) : openings (u ++ v) ≤ openings u + openings v := by
  induction u with
  | nil => exact Nat.le_add_left _ _
  | cons x u ih =>
    rw [List.cons_append, openings_cons, openings_cons]
    by_cases h : "NOT".toList.isPrefixOf (x :: (u ++ v)) = true
    · have h' := List.isPrefixOf_iff_prefix.2 (not_of_append hv (List.isPrefixOf_iff_prefix.1 h))
      rw [if_pos h, if_pos h']
      omega
    · rw [if_neg h]
      omega

/-- What can stand behind any text with at most one opening more. -/
def Mild (v : List Char) : Prop := ∀ u, openings (u ++ v) ≤ openings u + 1

theorem mild_of_apart (hv : Apart v) (h : openings v ≤ 1) : Mild v := fun u =>
  Nat.le_trans (openings_append_le hv u) (Nat.add_le_add_left h _)

/-- A closing parenthesis opens nothing. -/
theorem Mild.append_close (hv : Mild v) : Mild (v ++ [')']) := by
  intro u
  have hclose := @openings_append_le [')'] ⟨by decide, by decide⟩ (u ++ v)
  have hzero : openings [')'] = 0 := by decide
  have := hv u
  rw [← List.append_assoc]
  omega

end Text

namespace Grammar

open Text (openings openings_le_append_right)

variable {c d : Cursor}

theorem openings_of_spans {u : List Char} (h : c.Spans u d) : openings d.rest ≤ openings c.rest := by
  rw [h.rest_eq]
  exact openings_le_append_right u d.rest

theorem openings_of_reads (h : c.Reads d) : openings d.rest ≤ openings c.rest := by
  obtain ⟨u, _, _, hs⟩ := h
  exact openings_of_spans hs

theorem openings_pastSpaces (c : Cursor) : openings c.pastSpaces.rest ≤ openings c.rest :=
  openings_of_spans c.spans_pastSpaces

/-- Behind an opening parenthesis there is one opening less. -/
theorem openings_of_open (h : (literal "(" c).result = some d) : openings d.rest + 1 ≤ openings c.rest := by
  rw [(spans_literal h).rest_eq]
  show openings d.rest + 1 ≤ openings ('(' :: d.rest)
  rw [Text.openings_cons, if_pos rfl]
  omega

/-- Behind `NOT` there is one opening less. -/
theorem openings_of_not (h : (literal "NOT" c).result = some d) : openings d.rest + 1 ≤ openings c.rest := by
  rw [(spans_literal h).rest_eq]
  have hle := openings_le_append_right ['O', 'T'] d.rest
  have hnot : "NOT".toList.isPrefixOf ('N' :: (['O', 'T'] ++ d.rest)) = true := rfl
  show openings d.rest + 1 ≤ openings ('N' :: (['O', 'T'] ++ d.rest))
  rw [Text.openings_cons, if_pos hnot]
  omega

/-- **Levels of derivations**: no statement is nested deeper than there are openings ahead. -/
theorem levels_le_openings {s : Statement} {level : Nat} (h : (full c).result = some (s, d)) :
    ∀ l ∈ s.levels level, l.1 ≤ level + openings c.rest := by
  induction c using Cursor.induction_rest generalizing s d level with
  | _ c ih =>
  intro l hl
  rcases full_eq_some_iff.1 h with ⟨left, c₁, next, hleft, hnext, rfl⟩ | ⟨_, hneg⟩
  · have hr₁ := reads_expression reads_full hleft
    have hle₁ := openings_of_reads hr₁
    rw [levels_extend, List.mem_cons, List.mem_append] at hl
    rcases hl with rfl | hl | hl
    · exact Nat.le_add_right _ _
    · rcases expression_eq_some_iff.1 hleft with hcomp | ⟨_, inner, hgroup, rfl⟩
      · obtain ⟨op, field, v, rfl⟩ := (reads_anyComparison hcomp).1
        cases hl
      · obtain ⟨ho, e, hinner, _, _⟩ := group_eq_some_iff.1 hgroup
        have hopen := literal_open_eq_some_iff.2 ⟨ho, rfl⟩
        have hlt := (spans_literal hopen).length_lt (by decide)
        have hlt' := length_pastSpaces_le (c.advance 1)
        have hle := openings_of_open hopen
        have hle' := openings_pastSpaces (c.advance 1)
        have := ih _ (by omega) hinner l hl
        omega
    · rcases continuation_eq_some_iff.1 hnext with ⟨link, right, c₂, hlink, hright, rfl⟩ | ⟨_, rfl, _⟩
      · have hr₂ := (readsPlain_connective hlink).reads
        have hlt := (hr₁.trans hr₂).length_lt
        have hle₂ := openings_of_reads hr₂
        have := ih c₂ hlt hright l hl
        omega
      · cases hl
  · obtain ⟨c₁, c₂, operand, h₁, h₂, hr, rfl⟩ := negated_eq_some_iff.1 hneg
    have hr₂ := (readsPlain_someSpaces h₂).reads
    have hlt₁ := (spans_literal h₁).length_lt (by decide)
    have hlt₂ := hr₂.length_lt
    have hle₁ := openings_of_not h₁
    have hle₂ := openings_of_reads hr₂
    rw [Statement.levels, List.mem_cons] at hl
    rcases hl with rfl | hl
    · exact Nat.le_add_right _ _
    · have := ih c₂ (by omega) hr l hl
      omega

end Grammar

end SearchFilter
