import SearchFilter.Proofs.Grammar.Written
import SearchFilter.Proofs.Parser.Nesting

/-!
# Where the nesting limit is passed

The statements of a derivation, one by one as they are met, start one behind the other (`increases_full`), and none is
more than one level deeper than all before it (`rises_levels`). The first one that is nested too deep is therefore the
leftmost one of the first level that is too deep.

* `Rises`, `Increases` — what the levels and the starts of statements do from left to right.
* `parse_of_levels` — a text that is derived is read, however long its chains are, unless one of its statements is
  nested too deep; then the leftmost one of them is where the text is refused.
-/

namespace SearchFilter

open Grammar (full Statement Expression)

/-! ## Levels -/

/-- No level is more than one above the highest one before it, which is `top` at the start. -/
def Rises : Nat → List (Nat × Nat) → Prop
  | _, [] => True
  | top, l :: ls => l.1 ≤ top + 1 ∧ Rises (max top l.1) ls

section

variable {top top' i : Nat} {ls ms : List (Nat × Nat)}

theorem Rises.mono (h : Rises top ls) (hle : top ≤ top') : Rises top' ls := by
  induction ls generalizing top top' with
  | nil => trivial
  | cons l ls ih =>
    obtain ⟨hl, hls⟩ := h
    exact ⟨by omega, ih hls (by omega)⟩

theorem Rises.append (h : Rises top ls) (h' : Rises top ms) : Rises top (ls ++ ms) := by
  induction ls generalizing top with
  | nil => exact h'
  | cons l ls ih => exact ⟨h.1, ih h.2 (h'.mono (Nat.le_max_left _ _))⟩

theorem Rises.cons (h : Rises (top + 1) ls) (i : Nat) : Rises top ((top + 1, i) :: ls) :=
  ⟨Nat.le_refl _, h.mono (Nat.le_max_right _ _)⟩

mutual

/-- The levels of a statement at level `top + 1`. -/
theorem rises_levels (top : Nat) : ∀ s : Statement, Rises top (s.levels (top + 1))
  | .join start left _ right =>
    ((rises_expression (top + 1) left).append ((rises_levels top right).mono (Nat.le_succ _))).cons start
  | .not start operand => (rises_levels (top + 1) operand).cons start
  | .expression start only => (rises_expression (top + 1) only).cons start

theorem rises_expression (top : Nat) : ∀ e : Expression, Rises top (e.levels top)
  | .comparison .. => trivial
  | .group inner => rises_levels top inner

end

/-- Where levels that rise one by one first pass the limit they are one above it. -/
theorem Rises.mem_of_overrun (h : Rises top ls) (htop : top ≤ nestingLimit) (ho : overrun ls = some i) :
    (nestingLimit + 1, i) ∈ ls := by
  induction ls generalizing top with
  | nil => cases ho
  | cons l ls ih =>
    obtain ⟨n, j⟩ := l
    obtain ⟨hn, hls⟩ := h
    by_cases hle : n ≤ nestingLimit
    · rw [overrun_cons_of_le hle] at ho
      exact .tail _ (ih hls (Nat.max_le.2 ⟨htop, hle⟩) ho)
    · rw [overrun_cons_of_lt (Nat.lt_of_not_le hle), Option.some.injEq] at ho
      obtain rfl : n = nestingLimit + 1 := by omega
      exact ho ▸ .head _

end

/-! ## Starts -/

/-- The statements start one behind the other, from place number `i` on and before place number `j`. -/
structure Increases (i j : Nat) (ls : List (Nat × Nat)) : Prop where
  pairwise : ls.Pairwise (·.2 < ·.2)
  within : ∀ l ∈ ls, i ≤ l.2 ∧ l.2 < j

section

variable {i i' j k k' level : Nat} {ls ms : List (Nat × Nat)}

theorem increases_nil (i j : Nat) : Increases i j [] := ⟨.nil, nofun⟩

theorem Increases.mono (h : Increases i j ls) (hi : i' ≤ i) (hj : j ≤ k) : Increases i' k ls := by
  refine ⟨h.pairwise, fun l hl => ?_⟩
  have := h.within l hl
  omega

theorem Increases.cons (h : Increases (i + 1) j ls) (hij : i < j) (level : Nat) : Increases i j ((level, i) :: ls) := by
  refine ⟨.cons (fun l hl => (h.within l hl).1) h.pairwise, fun l hl => ?_⟩
  rcases List.mem_cons.1 hl with rfl | hl
  · exact ⟨Nat.le_refl _, hij⟩
  · have := h.within l hl
    omega

theorem Increases.append (h : Increases i j ls) (h' : Increases j k ms) (hij : i ≤ j) (hjk : j ≤ k) :
    Increases i k (ls ++ ms) := by
  refine ⟨List.pairwise_append.2 ⟨h.pairwise, h'.pairwise, fun l hl m hm => ?_⟩, fun l hl => ?_⟩
  · have := h.within l hl
    have := h'.within m hm
    omega
  · rcases List.mem_append.1 hl with hl | hl
    · have := h.within l hl
      omega
    · have := h'.within l hl
      omega

/-- The first statement that is nested too deep is the leftmost one. -/
theorem Increases.le_of_overrun (h : Increases i j ls) (ho : overrun ls = some k) :
    ∀ l ∈ ls, nestingLimit < l.1 → k ≤ l.2 := by
  obtain ⟨m, hm, rfl⟩ := Option.map_eq_some_iff.1 ho
  obtain ⟨_, before, behind, rfl, hbefore⟩ := List.find?_eq_some_iff_append.1 hm
  obtain ⟨_, hpairs, _⟩ := List.pairwise_append.1 h.pairwise
  intro l hl hlimit
  rcases List.mem_append.1 hl with hl | hl
  · have hle := hbefore l hl
    simp [hlimit] at hle
  · rcases List.mem_cons.1 hl with rfl | hl
    · exact Nat.le_refl _
    · exact Nat.le_of_lt (List.rel_of_pairwise_cons hpairs hl)

namespace Grammar

variable {c d : Cursor} {s : Statement} {e : Expression}

/-- The statements in an expression start behind its first character. -/
theorem increases_expression (h : (expression full c).result = some (e, d))
    (hi : ∀ (c' : Cursor) (s : Statement) (d' : Cursor), c'.rest.length < c.rest.length →
      (full c').result = some (s, d') → ∀ level, Increases c'.index d'.index (s.levels level)) (level : Nat) :
    Increases (c.index + 1) d.index (e.levels level) := by
  rcases expression_eq_some_iff.1 h with hcomp | ⟨_, inner, hgroup, rfl⟩
  · obtain ⟨op, field, v, rfl⟩ := (reads_anyComparison hcomp).1
    exact increases_nil _ _
  · obtain ⟨ho, p, hfull, _, rfl⟩ := group_eq_some_iff.1 hgroup
    have hopen := spans_literal (literal_open_eq_some_iff.2 ⟨ho, rfl⟩)
    have hlt := hopen.length_lt (by decide)
    have hle := length_pastSpaces_le (c.advance 1)
    have hfirst : c.index + 1 ≤ (c.advance 1).pastSpaces.index := Nat.le_add_right _ _
    have hlast : p.index ≤ (p.pastSpaces.advance 1).index := Nat.le_trans (Nat.le_add_right _ _) (Nat.le_add_right _ _)
    exact (hi _ inner p (by omega) hfull (level + 1)).mono hfirst hlast

/-- **The statements of a derivation** start one behind the other. -/
theorem increases_full (h : (full c).result = some (s, d)) (level : Nat) :
    Increases c.index d.index (s.levels level) := by
  induction c using Cursor.induction_rest generalizing s d level with
  | _ c ih =>
  have hlt := (reads_full _ _ _ h).index_lt
  rcases full_eq_some_iff.1 h with ⟨left, c₁, next, hleft, hnext, rfl⟩ | ⟨_, hneg⟩
  · have hr₁ := reads_expression reads_full hleft
    have hinner := increases_expression hleft (fun c' s d' hc hs level => ih c' hc hs level) level
    have hlt₁ := hr₁.index_lt
    rw [levels_extend]
    refine Increases.cons ?_ hlt level
    rcases continuation_eq_some_iff.1 hnext with ⟨link, right, c₂, hlink, hright, rfl⟩ | ⟨_, rfl, rfl⟩
    · have hr₂ := (readsPlain_connective hlink).reads
      have hlt₂ := hr₂.index_lt
      have hlt₃ := (reads_full _ _ _ hright).index_lt
      have hbehind := ih c₂ (hr₁.trans hr₂).length_lt hright level
      exact hinner.append (hbehind.mono (Nat.le_of_lt hlt₂) (Nat.le_refl _)) (by omega) (by omega)
    · exact hinner.append (increases_nil _ _) (by omega) (Nat.le_refl _)
  · obtain ⟨c₁, c₂, operand, h₁, h₂, hr, rfl⟩ := negated_eq_some_iff.1 hneg
    have hlt₁ := (spans_literal h₁).length_lt (by decide)
    have hr₂ := (readsPlain_someSpaces h₂).reads
    have hlt₂ := hr₂.length_lt
    have hi₁ := (spans_literal h₁).index_lt (by decide)
    have hi₂ := hr₂.index_lt
    have hoperand := ih c₂ (by omega) hr (level + 1)
    exact (hoperand.mono (by omega) (Nat.le_refl _)).cons hlt level

end Grammar

end

/-! ## Texts -/

/-- **The nesting limit** of a text that is derived. If no statement of the derivation is at a level above 512, it is
read as what the derivation stands for. Otherwise it is refused where the leftmost statement at level 513 starts, and
nothing else is said to be missing there. -/
theorem parse_of_levels {text : String} {s : Statement} (h : (Grammar.derivation text.toList).result = some s) :
    ((∀ l ∈ s.levels 1, l.1 ≤ 512) → Filter.parse text = .ok s.toFilter) ∧
    ((∃ l ∈ s.levels 1, 512 < l.1) → ∃ i e, (513, i) ∈ s.levels 1 ∧ (∀ j, (513, j) ∈ s.levels 1 → i ≤ j) ∧
      Filter.parse text = .error e ∧ e.problem = .nestedTooDeep ∧ e.expected = [] ∧
      e.start = Position.after (text.toList.take i) ∧
      e.start.offset = (String.ofList (text.toList.take i)).utf8ByteSize) := by
  have hparse := parse_of_derivation h
  constructor
  · intro hfits
    rwa [Grammar.overrun_eq_none_iff.2 hfits] at hparse
  · rintro ⟨l, hl, hlevel⟩
    obtain ⟨i, ho⟩ : ∃ i, overrun (s.levels 1) = some i := by
      refine Option.ne_none_iff_exists'.1 fun hnone => ?_
      exact absurd (Grammar.overrun_eq_none_iff.1 hnone l hl) (Nat.not_le_of_lt hlevel)
    obtain ⟨d, hfull, _⟩ := Grammar.derivation_eq_some_iff.1 h
    have hmem := (rises_levels 0 s).mem_of_overrun (Nat.zero_le _) ho
    have hleft := (Grammar.increases_full hfull 1).le_of_overrun ho
    rw [ho] at hparse
    exact ⟨i, _, hmem, fun j hj => hleft _ hj (Nat.lt_succ_self 512), hparse, rfl, rfl, rfl,
      Position.offset_after _⟩

/-! ### Negations one in the other -/

namespace Grammar

/-- A comparison behind `n` negations. -/
def negations : Nat → List Char
  | 0 => "a:1".toList
  | n + 1 => "NOT ".toList ++ negations n

/-- How it is derived from place number `i` on. -/
def negationsAt : Nat → Nat → Statement
  | i, 0 => .expression i (.comparison .has "a" (.number 1))
  | i, n + 1 => .not i (negationsAt (i + 4) n)

theorem full_negations (n : Nat) : ∀ i,
    (full ⟨i, negations n⟩).result = some (negationsAt i n, ⟨i + 4 * n + 3, []⟩) := by
  induction n with
  | zero => exact fun i => rfl
  | succ n ih =>
    intro i
    have hs : (Cursor.mk i (negations (n + 1))).Spans ("NOT".toList ++ [' ']) ⟨i + 4, negations n⟩ := ⟨rfl, rfl⟩
    have hhead : (negations n).head? ≠ some ' ' := by cases n <;> nofun
    rw [full_of_negated (negated_of_spans isSpaces_one hs hhead (ih (i + 4)))]
    have hend : i + 4 + 4 * n + 3 = i + 4 * (n + 1) + 3 := by omega
    rw [negationsAt, hend]

theorem derivation_negations (n : Nat) : (derivation (negations n)).result = some (negationsAt 0 n) := by
  have hstart : (Cursor.mk 0 (negations n)).pastSpaces = ⟨0, negations n⟩ :=
    Cursor.pastSpaces_of_head (by cases n <;> nofun)
  exact derivation_eq_some_iff.2 ⟨_, hstart.symm ▸ full_negations n 0, rfl⟩

theorem mem_levels_negationsAt {l : Nat × Nat} (n : Nat) : ∀ i level,
    l ∈ (negationsAt i n).levels level ↔ ∃ k ≤ n, l = (level + k, i + 4 * k) := by
  induction n with
  | zero =>
    intro i level
    simp [negationsAt, Statement.levels, Expression.levels]
  | succ n ih =>
    intro i level
    rw [negationsAt, Statement.levels, List.mem_cons, ih]
    constructor
    · rintro (rfl | ⟨k, hk, rfl⟩)
      · exact ⟨0, Nat.zero_le _, rfl⟩
      · exact ⟨k + 1, Nat.succ_le_succ hk, by rw [Prod.mk.injEq]; omega⟩
    · rintro ⟨_ | k, hk, rfl⟩
      · exact .inl rfl
      · exact .inr ⟨k, Nat.le_of_succ_le_succ hk, by rw [Prod.mk.injEq]; omega⟩

end Grammar

/-- With 511 negations a text is read; with one more it is refused at the comparison, which is at level 513. -/
theorem parse_of_levels_negations :
    Filter.parse (String.ofList (Grammar.negations 511)) = .ok (Grammar.negationsAt 0 511).toFilter ∧
    ∃ e, Filter.parse (String.ofList (Grammar.negations 512)) = .error e ∧ e.problem = .nestedTooDeep ∧
      e.start = Position.after ((Grammar.negations 512).take 2048) := by
  have hderives (n : Nat) : (Grammar.derivation (String.ofList (Grammar.negations n)).toList).result =
      some (Grammar.negationsAt 0 n) := by
    rw [String.toList_ofList]
    exact Grammar.derivation_negations n
  constructor
  · refine (parse_of_levels (hderives 511)).1 fun l hl => ?_
    obtain ⟨k, hk, rfl⟩ := (Grammar.mem_levels_negationsAt 511 0 1).1 hl
    show 1 + k ≤ 512
    omega
  · have hdeep : (513, 2048) ∈ (Grammar.negationsAt 0 512).levels 1 :=
      (Grammar.mem_levels_negationsAt 512 0 1).2 ⟨512, Nat.le_refl _, rfl⟩
    obtain ⟨i, e, hi, _, hparse, hproblem, _, hstart, _⟩ := (parse_of_levels (hderives 512)).2 ⟨_, hdeep, by decide⟩
    obtain ⟨k, _, hk⟩ := (Grammar.mem_levels_negationsAt 512 0 1).1 hi
    obtain rfl : i = 2048 := by
      rw [Prod.mk.injEq] at hk
      omega
    rw [String.toList_ofList] at hstart
    exact ⟨e, hparse, hproblem, hstart⟩

end SearchFilter
