import SearchFilter.Proofs.Grammar.Factoring

/-!
# Levels of nesting

* `Statement.shift` — the same derivation further on in a text: it stands for the same filter and nests as deep.
* `Statement.Fits` — no statement of the derivation is nested too deep.
* `overrun` — where nesting first passes the limit.
-/

namespace SearchFilter

namespace Grammar

variable {c d : Cursor} {s : Statement} {level : Nat}

/-! ## Derivations further on -/

mutual

/-- The same statement with `k` characters more in front. -/
def Statement.shift (k : Nat) : Statement → Statement
  | .join start left link right => .join (k + start) (left.shift k) link (right.shift k)
  | .not start operand => .not (k + start) (operand.shift k)
  | .expression start only => .expression (k + start) (only.shift k)

def Expression.shift (k : Nat) : Expression → Expression
  | .comparison op field value => .comparison op field value
  | .group inner => .group (inner.shift k)

end

mutual

theorem Statement.toFilter_shift (k : Nat) : ∀ s : Statement, (s.shift k).toFilter = s.toFilter
  | .join _ left link right => by
    simp only [Statement.shift, Statement.toFilter, Expression.toFilter_shift k left, Statement.toFilter_shift k right]
  | .not _ operand => by simp only [Statement.shift, Statement.toFilter, Statement.toFilter_shift k operand]
  | .expression _ only => by simp only [Statement.shift, Statement.toFilter, Expression.toFilter_shift k only]

theorem Expression.toFilter_shift (k : Nat) : ∀ e : Expression, (e.shift k).toFilter = e.toFilter
  | .comparison .. => rfl
  | .group inner => by simp only [Expression.shift, Expression.toFilter, Statement.toFilter_shift k inner]

end

mutual

theorem Statement.levels_shift (k level : Nat) : ∀ s : Statement,
    (s.shift k).levels level = (s.levels level).map fun l => (l.1, k + l.2)
  | .join _ left link right => by
    simp only [Statement.shift, Statement.levels, Expression.levels_shift k level left,
      Statement.levels_shift k level right, List.map_append, List.map_cons, List.cons_append]
  | .not _ operand => by
    simp only [Statement.shift, Statement.levels, Statement.levels_shift k (level + 1) operand, List.map_cons]
  | .expression _ only => by
    simp only [Statement.shift, Statement.levels, Expression.levels_shift k level only, List.map_cons]

theorem Expression.levels_shift (k level : Nat) : ∀ e : Expression,
    (e.shift k).levels level = (e.levels level).map fun l => (l.1, k + l.2)
  | .comparison .. => rfl
  | .group inner => by simp only [Expression.shift, Expression.levels, Statement.levels_shift k (level + 1) inner]

end

/-! ## Levels -/

mutual

theorem Statement.levels_succ (level : Nat) : ∀ s : Statement,
    s.levels (level + 1) = (s.levels level).map fun l => (l.1 + 1, l.2)
  | .join _ left link right => by
    simp only [Statement.levels, Expression.levels_succ level left, Statement.levels_succ level right, List.map_append,
      List.map_cons, List.cons_append]
  | .not _ operand => by simp only [Statement.levels, Statement.levels_succ (level + 1) operand, List.map_cons]
  | .expression _ only => by simp only [Statement.levels, Expression.levels_succ level only, List.map_cons]

theorem Expression.levels_succ (level : Nat) : ∀ e : Expression,
    e.levels (level + 1) = (e.levels level).map fun l => (l.1 + 1, l.2)
  | .comparison .. => rfl
  | .group inner => by simp only [Expression.levels, Statement.levels_succ (level + 1) inner]

end

/-- A derived statement starts where it was read. -/
theorem exists_levels_eq (h : (full c).result = some (s, d)) (level : Nat) :
    ∃ ls, s.levels level = (level, c.index) :: ls := by
  rcases full_eq_some_iff.1 h with ⟨left, _, next, _, _, rfl⟩ | ⟨_, h⟩
  · cases next with
    | none => exact ⟨_, rfl⟩
    | some p => exact ⟨_, List.cons_append⟩
  · obtain ⟨_, _, operand, _, _, _, rfl⟩ := negated_eq_some_iff.1 h
    exact ⟨_, rfl⟩

/-- The levels of what continues a statement. -/
def continuedLevels (level : Nat) (next : Option (Connective × Statement)) : List (Nat × Nat) :=
  (next.map fun p => p.2.levels level).getD []

theorem levels_extend (start : Nat) (left : Grammar.Expression) (next : Option (Connective × Statement)) :
    (Statement.extend start left next).levels level =
      (level, start) :: (left.levels level ++ continuedLevels level next) := by
  cases next with
  | none => exact congrArg (_ :: ·) (List.append_nil _).symm
  | some p => exact List.cons_append

end Grammar

/-! ## The limit -/

/-- Where the levels of statements first pass the limit. -/
def overrun (levels : List (Nat × Nat)) : Option Nat := (levels.find? fun l => nestingLimit < l.1).map (·.2)

theorem overrun_append (ls ms : List (Nat × Nat)) : overrun (ls ++ ms) = (overrun ls).or (overrun ms) := by
  simp [overrun, List.find?_append, Option.map_or]

theorem overrun_cons_of_le {l i : Nat} (h : l ≤ nestingLimit) (ls : List (Nat × Nat)) :
    overrun ((l, i) :: ls) = overrun ls := by
  rw [overrun, List.find?_cons_of_neg (by simpa using h), overrun]

theorem overrun_cons_of_lt {l i : Nat} (h : nestingLimit < l) (ls : List (Nat × Nat)) :
    overrun ((l, i) :: ls) = some i := by
  rw [overrun, List.find?_cons_of_pos (by simpa using h)]
  rfl

namespace Grammar

variable {s : Statement} {level : Nat}

/-- At level `level` no statement of the derivation is nested too deep. -/
def Statement.Fits (level : Nat) (s : Statement) : Prop := ∀ l ∈ s.levels level, l.1 ≤ nestingLimit

/-- At level `level` no statement in the expression is nested too deep. -/
def Expression.Fits (level : Nat) (e : Expression) : Prop := ∀ l ∈ e.levels level, l.1 ≤ nestingLimit

theorem overrun_eq_none_iff : overrun (s.levels level) = none ↔ s.Fits level := by
  simp [overrun, Statement.Fits]

theorem fits_shift (k : Nat) : (s.shift k).Fits level ↔ s.Fits level := by
  rw [Statement.Fits, Statement.levels_shift, List.forall_mem_map]
  exact Iff.rfl

theorem Statement.Fits.of_succ (h : s.Fits (level + 1)) : s.Fits level := by
  intro l hl
  have hmem : (l.1 + 1, l.2) ∈ s.levels (level + 1) := by
    rw [Statement.levels_succ]
    exact List.mem_map_of_mem hl
  exact Nat.le_of_succ_le (h _ hmem)

theorem fits_join {start : Nat} {left : Expression} {link : Connective} :
    (Statement.join start left link s).Fits level ↔ level ≤ nestingLimit ∧ left.Fits level ∧ s.Fits level :=
  List.forall_mem_cons.trans (and_congr_right' List.forall_mem_append)

theorem fits_expression {start : Nat} {only : Expression} :
    (Statement.expression start only).Fits level ↔ level ≤ nestingLimit ∧ only.Fits level := List.forall_mem_cons

/-- What fits is made of an expression and a continuation that fit. -/
theorem fits_extend {start : Nat} {left : Expression} {next : Option (Connective × Statement)} :
    (Statement.extend start left next).Fits level ↔
      level ≤ nestingLimit ∧ left.Fits level ∧ ∀ p ∈ next, p.2.Fits level := by
  cases next with
  | none => simp [Statement.extend, fits_expression]
  | some p => simp [Statement.extend, fits_join]

theorem fits_not {start : Nat} : (Statement.not start s).Fits level ↔ level ≤ nestingLimit ∧ s.Fits (level + 1) :=
  List.forall_mem_cons

end Grammar

end SearchFilter
