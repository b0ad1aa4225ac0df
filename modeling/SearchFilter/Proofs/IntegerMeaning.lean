import Std.Data.String.ToInt
import SearchFilter.Compile
import SearchFilter.Filter.Meaning
import SearchFilter.Query.Meaning

/-!
# Compiling keeps the meaning on integers

Strict bounds move by one and every bound passes through its decimal text.

* `Query.holdsOf` — whether a condition holds of integers.
* `Operator.holds_of_condition` — the condition of a comparison holds exactly when the comparison does.
* `Filter.holds_of_compile` — so does the query of a filter.
-/

namespace SearchFilter

/-- Whether a condition holds of fields with the given values: equal decimal text, or between the bounds read as decimal
numbers. -/
def Query.holdsOf (values : String → Int64) : Query → Bool
  | fieldEquals field value => value = toString (values field).toInt
  | fieldRange field lower upper =>
    (lower.all fun b => b.toInt?.any (· ≤ (values field).toInt))
      && (upper.all fun b => b.toInt?.any ((values field).toInt ≤ ·))
  | _ => false

theorem toInt_succ {n : Int64} (h : n ≠ Int64.maxValue) : (n + 1).toInt = n.toInt + 1 := by
  have hne : n.toInt ≠ Int64.maxValue.toInt := fun he => h (Int64.toInt_inj.1 he)
  have hmax : Int64.maxValue.toInt = 9223372036854775807 := rfl
  have hone : (1 : Int64).toInt = 1 := rfl
  have hlt := n.toInt_lt
  have hle := n.le_toInt
  rw [Int64.toInt_add, hone]
  exact Int.bmod_eq_of_le (by omega) (by omega)

theorem toInt_pred {n : Int64} (h : n ≠ Int64.minValue) : (n - 1).toInt = n.toInt - 1 := by
  have hback : n - 1 + 1 = n := Int64.sub_add_cancel n 1
  have hsucc := toInt_succ (n := n - 1) fun hmax => h (by rw [← hback, hmax]; rfl)
  rw [hback] at hsucc
  omega

/-- The condition that a comparison with a number sets holds exactly when the comparison does. -/
theorem Operator.holds_of_condition (values : String → Int64) (op : Operator) (field : String) (n : Int64)
    (hmax : op = .greater → n ≠ Int64.maxValue) (hmin : op = .less → n ≠ Int64.minValue) :
    ∃ q, op.condition field (.number n) = some q ∧
      q.holds (Query.holdsOf values) = op.holds (values field).toInt n.toInt := by
  cases op with
  | has | equals =>
    refine ⟨_, rfl, ?_⟩
    simp [Query.holds, Query.holdsOf, Operator.holds, Literal.toText, eq_comm]
  | greater =>
    refine ⟨_, rfl, ?_⟩
    simp only [Query.atLeast, hmax rfl, ↓reduceIte, toInt_succ (hmax rfl), Int.toString_eq_repr, Query.holds,
      Query.holdsOf, Option.all_some, Int.toInt?_repr, Option.any_some, Int.add_one_le_iff, Option.all_none,
      Bool.and_true, holds]
  | greaterEq =>
    refine ⟨_, rfl, ?_⟩
    simp [Query.atLeast, Query.holds, Query.holdsOf, Operator.holds, Literal.toText]
  | less =>
    refine ⟨_, rfl, ?_⟩
    simp only [Query.atMost, hmin rfl, ↓reduceIte, toInt_pred (hmin rfl), Int.toString_eq_repr, Query.holds,
      Query.holdsOf, Option.all_none, Option.all_some, Int.toInt?_repr, Option.any_some, Int.le_sub_one_iff,
      Bool.true_and, holds]
  | lessEq =>
    refine ⟨_, rfl, ?_⟩
    simp [Query.atMost, Query.holds, Query.holdsOf, Operator.holds, Literal.toText]

namespace Filter

/-- A numeric filter has a query, and the query holds exactly when the filter does. -/
theorem holds_of_compile (values : String → Int64) {f : Filter} (h : f.IsNumeric) :
    ∃ q, f.compile = .ok (some q) ∧ q.holds (Query.holdsOf values) = f.holds values := by
  induction h with
  | @join left right link _ _ ihl ihr =>
    obtain ⟨l, hl, hlv⟩ := ihl
    obtain ⟨r, hr, hrv⟩ := ihr
    refine ⟨.group link [l, r], by rw [compile_join, hl, hr]; rfl, ?_⟩
    cases link <;> simp [Query.holds, Query.allHold, Query.anyHolds, holds, hlv, hrv]
  | not _ ih =>
    obtain ⟨q, hq, hv⟩ := ih
    refine ⟨q.negate, by rw [compile_not, hq]; rfl, ?_⟩
    rw [Query.negate, Query.holds, Query.holds, hv, holds, Bool.true_and]
  | compare field hmax hmin =>
    rw [compile_compare, holds]
    obtain ⟨q, hq, hv⟩ := Operator.holds_of_condition values _ field _ hmax hmin
    exact ⟨q, congrArg Except.ok hq, hv⟩

/-- A bound that moves below zero and a negation. -/
theorem holds_of_compile_below_zero :
    let f : Filter := .join .and (.compare .less "x" (.literal (.number 0)))
      (.not (.join .or (.compare .greater "y" (.literal (.number (-5)))) (.compare .has "x" (.literal (.number (-2))))))
    let values : String → Int64 := fun field => if field = "x" then -3 else -9
    ∃ q, f.compile = .ok (some q) ∧ q.holds (Query.holdsOf values) = true := by
  intro f values
  have hnumeric : f.IsNumeric := .join .and (.compare "x" (by decide) (by decide))
    (.not (.join .or (.compare "y" (by decide) (by decide)) (.compare "x" (by decide) (by decide))))
  have hholds : f.holds values = true := by decide
  obtain ⟨q, hq, hv⟩ := holds_of_compile values hnumeric
  exact ⟨q, hq, hv.trans hholds⟩

end Filter

end SearchFilter
