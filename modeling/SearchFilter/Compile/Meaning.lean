import SearchFilter.Compile
import SearchFilter.Filter.Meaning
import SearchFilter.Query.Meaning

/-!
# Compiling keeps the comparisons

* `Filter.conditions_of_compile` — the conditions of the query are those of the comparisons, in the same order.
* `Filter.compile_eq_error_iff` — compiling fails at the first comparison with a tree.
-/

namespace SearchFilter

/-! ## Conditions -/

/-- Conditions on fields. -/
def Query.isCondition : Query → Bool
  | fieldEquals .. | fieldRange .. => true
  | _ => false

/-- The conditions of a query on fields, from left to right. -/
def Query.conditions (q : Query) : List Query := q.leaves.filter isCondition

/-- The condition that a comparison sets, if it sets one. -/
def Comparison.condition? (c : Comparison) : Option Query :=
  match c.value with
  | .literal v => c.op.condition c.field v
  | _ => none

/-- What is wrong with a comparison, if its value is a tree. -/
def Comparison.violation? (c : Comparison) : Option ContractViolation :=
  match c.value with
  | .literal _ => none
  | tree => some ⟨c.op.tag, c.field, tree.tag⟩

/-- A condition is its own only condition. -/
theorem Operator.conditions_of_condition {op : Operator} {field : String} {v : Literal} {q : Query}
    (h : op.condition field v = some q) : q.conditions = [q] := by
  cases op with
  | has | equals => cases h; rfl
  | greater | greaterEq | less | lessEq =>
    obtain ⟨_, _, rfl⟩ := Option.map_eq_some_iff.1 h
    rfl

theorem Connective.conditions_combine (link : Connective) (l r : Option Query) :
    (link.combine l r).toList.flatMap Query.conditions =
      l.toList.flatMap Query.conditions ++ r.toList.flatMap Query.conditions := by
  cases l <;> cases r <;> simp [combine, Query.conditions, Query.leaves, Query.leavesOf]

namespace Filter

theorem conditions_of_compile {f : Filter} {q : Option Query} (h : f.compile = .ok q) :
    q.toList.flatMap Query.conditions = f.comparisons.filterMap Comparison.condition? := by
  induction f generalizing q with
  | join link left right ihl ihr =>
    rw [compile_join] at h
    cases hl : left.compile with
    | error v => rw [hl] at h; cases h
    | ok l =>
      cases hr : right.compile with
      | error v => rw [hl, hr] at h; cases h
      | ok r =>
        rw [hl, hr] at h
        cases h
        rw [Connective.conditions_combine, ihl hl, ihr hr, comparisons, List.filterMap_append]
  | not operand ih =>
    rw [compile_not] at h
    cases ho : operand.compile with
    | error v => rw [ho] at h; cases h
    | ok o =>
      rw [ho] at h
      cases h
      rw [comparisons, ← ih ho]
      cases o <;> simp [Query.negate, Query.conditions, Query.leaves, Query.isCondition]
  | compare op field value =>
    rw [compile_compare] at h
    cases value with
    | literal v =>
      cases h
      rw [comparisons, List.filterMap_cons, List.filterMap_nil]
      simp only [Comparison.condition?]
      cases hc : op.condition field v with
      | none => rfl
      | some q => simp [Operator.conditions_of_condition hc]
    | _ => cases h
  | literal v => cases h; rfl

/-- The violation that compiling reports is that of the first comparison that has one. -/
theorem findSome?_violation? (f : Filter) :
    f.comparisons.findSome? Comparison.violation? = match f.compile with
      | .ok _ => none
      | .error v => some v := by
  induction f with
  | join link left right ihl ihr =>
    rw [comparisons, List.findSome?_append, ihl, ihr, compile_join]
    cases left.compile with
    | error v => rfl
    | ok l => cases right.compile <;> rfl
  | not operand ih =>
    rw [comparisons, ih, compile_not]
    cases operand.compile <;> rfl
  | compare op field value =>
    rw [comparisons, compile_compare, List.findSome?_cons, List.findSome?_nil]
    cases value <;> rfl
  | literal v => rfl

theorem compile_eq_error_iff {f : Filter} {v : ContractViolation} :
    f.compile = .error v ↔ f.comparisons.findSome? Comparison.violation? = some v := by
  rw [findSome?_violation?]
  cases f.compile <;> simp

end Filter

end SearchFilter
