import Mathlib.Data.List.Basic
import Mathlib.Logic.Relation
import SearchFilter.Compile.Meaning
import SearchFilter.Proofs.IntegerMeaning

/-!
# Compiling part by part

Compiling walks along chains and keeps what it passed. What it gives is what the parts of the filter give, and of the
comparisons only those by order with `null` give nothing.

* `Operator.request` — the condition that a comparison with a literal asks for.
* `Filter.compileByParts` — the query of a filter from the queries of its parts.
* `Filter.compile_eq_compileByParts` — compiling gives that query, or the violation of the first comparison with a tree.
* `Filter.Drops` — a filter without an operand that asks for nothing.
* `Filter.conditions_eq_requests` — the conditions of the query are those that the comparisons ask for.
-/

namespace SearchFilter

variable {op : Operator} {field : String} {c : Comparison} {f g : Filter} {r : Option Query}

/-! ## Comparisons -/

namespace Operator

/-- The condition that a comparison of a field with a literal asks for: by `:` and `=` the text of the literal, by the
others a bound. A strict bound that is a number moves by one, as far as numbers go. `null` is no bound. -/
def request (op : Operator) (field : String) (v : Literal) : Option Query :=
  match op, v with
  | has, v | equals, v => some (.fieldEquals field v.toText)
  | _, .null => none
  | greater, .number n => some (.fieldRange field (some (toString (min (n.toInt + 1) Int64.maxValue.toInt))) none)
  | greater, v | greaterEq, v => some (.fieldRange field (some v.toText) none)
  | less, .number n => some (.fieldRange field none (some (toString (max (n.toInt - 1) Int64.minValue.toInt))))
  | less, v | lessEq, v => some (.fieldRange field none (some v.toText))

/-- Comparisons other than for equality. -/
def isOrdering : Operator → Bool
  | has | equals => false
  | _ => true

end Operator

theorem toInt_above (n : Int64) :
    (if n = Int64.maxValue then n else n + 1).toInt = min (n.toInt + 1) Int64.maxValue.toInt := by
  have hmax : Int64.maxValue.toInt = 9223372036854775807 := rfl
  have hlt := n.toInt_lt
  split
  · next h => rw [h]; omega
  · next h =>
    have hsucc := toInt_succ h
    have hle := (n + 1).toInt_lt
    omega

theorem toInt_below (n : Int64) :
    (if n = Int64.minValue then n else n - 1).toInt = max (n.toInt - 1) Int64.minValue.toInt := by
  have hmin : Int64.minValue.toInt = -9223372036854775808 := rfl
  have hle := n.le_toInt
  split
  · next h => rw [h]; omega
  · next h =>
    have hpred := toInt_pred h
    have hge := (n - 1).le_toInt
    omega

theorem Operator.condition_eq_request (op : Operator) (field : String) (v : Literal) :
    op.condition field v = op.request field v := by
  cases op with
  | has | equals => rfl
  | greater =>
    cases v with
    | number n =>
      have hbound := toInt_above n
      simp only [condition, Literal.above?, Option.map_some, hbound]
      rfl
    | text _ | boolean _ | null => rfl
  | less =>
    cases v with
    | number n =>
      have hbound := toInt_below n
      simp only [condition, Literal.below?, Option.map_some, hbound]
      rfl
    | text _ | boolean _ | null => rfl
  | greaterEq | lessEq => cases v <;> rfl

namespace Comparison

/-- The value of the comparison is a literal, as it has to be. -/
def HasLiteral (c : Comparison) : Prop := ∃ v, c.value = .literal v

/-- The condition that the comparison asks for, if its value is a literal and it asks for one. -/
def request? (c : Comparison) : Option Query :=
  match c.value with
  | .literal v => c.op.request c.field v
  | _ => none

/-- The comparison is by order and with `null`. -/
def isVacuous (c : Comparison) : Bool := c.op.isOrdering && c.value = .literal .null

theorem condition?_eq_request? (c : Comparison) : c.condition? = c.request? := by
  obtain ⟨op, field, value⟩ := c
  cases value with
  | literal v => exact op.condition_eq_request field v
  | _ => rfl

theorem violation?_eq_none_iff : c.violation? = none ↔ c.HasLiteral := by
  obtain ⟨op, field, value⟩ := c
  cases value <;> simp [violation?, HasLiteral]

theorem violation?_eq_some_iff {v : ContractViolation} :
    c.violation? = some v ↔ ¬ c.HasLiteral ∧ v = ⟨c.op.tag, c.field, c.value.tag⟩ := by
  obtain ⟨op, field, value⟩ := c
  cases value <;> simp [violation?, HasLiteral, eq_comm]

/-- Of the comparisons with a literal only those by order with `null` ask for nothing. -/
theorem isSome_request? (h : c.HasLiteral) : c.request?.isSome = !c.isVacuous := by
  obtain ⟨op, field, value⟩ := c
  obtain ⟨v, hv⟩ := h
  obtain rfl : value = .literal v := hv
  cases op <;> cases v <;> rfl

theorem hasLiteral_of_isVacuous (h : c.isVacuous = true) : c.HasLiteral := by
  obtain ⟨_, hv⟩ := Bool.and_eq_true_iff.1 h
  exact ⟨.null, of_decide_eq_true hv⟩

end Comparison

namespace Filter

/-! ## Part by part -/

/-- The query of a filter from the queries of its parts, which are compiled from left to right. -/
def compileByParts : Filter → Except ContractViolation (Option Query)
  | join link left right => do
    match ← left.compileByParts, ← right.compileByParts with
    | some l, some r => return some (.group link [l, r])
    | some l, none => return some l
    | none, some r => return some r
    | none, none => return none
  | not operand => do
    match ← operand.compileByParts with
    | some q => return some (.not q .wildcard)
    | none => return none
  | compare op field (literal v) => return op.request field v
  | compare op field tree => throw ⟨op.tag, field, tree.tag⟩
  | literal _ => return none

theorem compile_eq_byParts (f : Filter) : f.compile = f.compileByParts := by
  induction f with
  | join link left right ihl ihr =>
    rw [compile_join, compileByParts, ihl, ihr]
    cases left.compileByParts with
    | error v => rfl
    | ok l =>
      cases right.compileByParts with
      | error v => rfl
      | ok r => cases l <;> cases r <;> rfl
  | not operand ih =>
    rw [compile_not, compileByParts, ih]
    cases operand.compileByParts with
    | error v => rfl
    | ok q => cases q <;> rfl
  | compare op field value =>
    rw [compile_compare]
    cases value with
    | literal v => exact congrArg Except.ok (op.condition_eq_request field v)
    | _ => rfl
  | literal v => rfl

/-- Compiling gives a query or nothing exactly if all comparisons are with literals. -/
theorem exists_compile_iff : (∃ r, f.compile = .ok r) ↔ ∀ c ∈ f.comparisons, c.HasLiteral := by
  have hnone := List.findSome?_eq_none_iff (p := Comparison.violation?) (l := f.comparisons)
  simp only [Comparison.violation?_eq_none_iff] at hnone
  rw [← hnone, findSome?_violation?]
  cases f.compile <;> simp

theorem compile_join_eq_ok_iff {link : Connective} : (join link f g).compile = .ok r ↔
    ∃ l s, f.compile = .ok l ∧ g.compile = .ok s ∧ link.combine l s = r := by
  rw [compile_join]
  cases f.compile with
  | error v => exact ⟨nofun, nofun⟩
  | ok l =>
    cases g.compile with
    | error v => exact ⟨nofun, nofun⟩
    | ok s => simp [Except.bind, Except.map]

theorem compile_not_eq_ok_iff : (not f).compile = .ok r ↔ ∃ o, f.compile = .ok o ∧ o.map Query.negate = r := by
  rw [compile_not]
  cases f.compile with
  | error v => exact ⟨nofun, nofun⟩
  | ok o => simp [Except.map]

/-- **Compiling is the plain recursion**, along chains as well. It fails exactly if some comparison is with a tree, and
then with the violation of the first one from left to right. -/
theorem compile_eq_compileByParts (f : Filter) :
    f.compile = f.compileByParts ∧
      ((∃ v, f.compile = .error v) ↔ ∃ c ∈ f.comparisons, ¬ c.HasLiteral) ∧
      ∀ v, f.compile = .error v ↔ ∃ before c after, f.comparisons = before ++ c :: after ∧
        (∀ b ∈ before, b.HasLiteral) ∧ ¬ c.HasLiteral ∧ v = ⟨c.op.tag, c.field, c.value.tag⟩ := by
  refine ⟨compile_eq_byParts f, ?_, fun v => ?_⟩
  · have hfails := not_congr (@exists_compile_iff f)
    simp only [Classical.not_forall, exists_prop] at hfails
    rw [← hfails]
    cases f.compile <;> simp
  · rw [compile_eq_error_iff, List.findSome?_eq_some_iff]
    simp only [Comparison.violation?_eq_some_iff, Comparison.violation?_eq_none_iff]
    constructor
    · rintro ⟨before, c, after, hc, ⟨hn, hv⟩, hb⟩
      exact ⟨before, c, after, hc, hb, hn, hv⟩
    · rintro ⟨before, c, after, hc, hb, hn, hv⟩
      exact ⟨before, c, after, hc, ⟨hn, hv⟩, hb⟩

/-! ## Nothing lost, nothing invented -/

/-- A query that a filter compiles to sets some condition. -/
theorem conditions_ne_nil {q : Query} (h : f.compile = .ok (some q)) : q.conditions ≠ [] := by
  induction f generalizing q with
  | join link left right ihl ihr =>
    obtain ⟨l, s, hl, hs, hq⟩ := compile_join_eq_ok_iff.1 h
    cases l with
    | some p =>
      have hconditions := link.conditions_combine (some p) s
      rw [hq, Option.toList_some, Option.toList_some, List.flatMap_singleton, List.flatMap_singleton] at hconditions
      rw [hconditions]
      exact List.append_ne_nil_of_left_ne_nil (ihl hl) _
    | none =>
      obtain rfl : s = some q := hq
      exact ihr hs
  | not operand ih =>
    obtain ⟨o, ho, hq⟩ := compile_not_eq_ok_iff.1 h
    obtain ⟨p, rfl, rfl⟩ := Option.map_eq_some_iff.1 hq
    simpa [Query.negate, Query.conditions, Query.leaves, Query.isCondition] using ih ho
  | compare op field value =>
    rw [compile_compare] at h
    cases value with
    | literal v =>
      rw [Operator.conditions_of_condition (Except.ok.inj h)]
      exact List.cons_ne_nil _ _
    | _ => cases h
  | literal v => cases h

/-- The conditions of the query are what the comparisons ask for, one by one, those by order with `null` left out. -/
theorem conditions_eq_map (h : f.compile = .ok r) : (r.elim [] Query.conditions).map some =
    (f.comparisons.filter (!·.isVacuous)).map Comparison.request? := by
  have hconditions : r.elim [] Query.conditions = f.comparisons.filterMap Comparison.request? := by
    have hfilterMap := conditions_of_compile h
    rw [funext Comparison.condition?_eq_request?] at hfilterMap
    rw [← hfilterMap]
    cases r <;> simp
  rw [hconditions, List.map_filterMap, ← List.filterMap_eq_map, List.filterMap_filter]
  refine List.filterMap_congr fun c hc => ?_
  have hsome := Comparison.isSome_request? (exists_compile_iff.1 ⟨r, h⟩ c hc)
  cases hv : c.isVacuous <;> rw [hv] at hsome
  · obtain ⟨q, hq⟩ := Option.isSome_iff_exists.1 hsome
    simp [hq]
  · have hnone : c.request? = none := by simpa using hsome
    simp [hnone]

/-- A filter asks for nothing exactly if all its comparisons are by order with `null`. -/
theorem eq_none_iff_vacuous (h : f.compile = .ok r) : r = none ↔ ∀ c ∈ f.comparisons, c.isVacuous = true := by
  have hmap := conditions_eq_map h
  cases r with
  | none =>
    have hnil := List.map_eq_nil_iff.1 hmap.symm
    simpa using hnil
  | some q =>
    refine ⟨nofun, fun hv => ?_⟩
    have hnil : f.comparisons.filter (!·.isVacuous) = [] := by simpa using hv
    rw [hnil] at hmap
    exact absurd (List.map_eq_nil_iff.1 hmap) (conditions_ne_nil h)

theorem compile_of_vacuous (h : ∀ c ∈ f.comparisons, c.isVacuous = true) : f.compile = .ok none := by
  obtain ⟨r, hr⟩ := exists_compile_iff.2 fun c hc => Comparison.hasLiteral_of_isVacuous (h c hc)
  rw [hr, (eq_none_iff_vacuous hr).2 h]

/-- A filter without one operand of a connective, all of whose comparisons are by order with `null`, and without the
connective. -/
inductive Drops : Filter → Filter → Prop
  | left (operand : Filter) (link : Connective) (rest : Filter) : (∀ c ∈ operand.comparisons, c.isVacuous = true) →
    Drops (join link operand rest) rest
  | right (operand : Filter) (link : Connective) (rest : Filter) : (∀ c ∈ operand.comparisons, c.isVacuous = true) →
    Drops (join link rest operand) rest
  | inLeft {left left' : Filter} (link : Connective) (right : Filter) : Drops left left' →
    Drops (join link left right) (join link left' right)
  | inRight {right right' : Filter} (link : Connective) (left : Filter) : Drops right right' →
    Drops (join link left right) (join link left right')
  | inNot {operand operand' : Filter} : Drops operand operand' → Drops (not operand) (not operand')

theorem compile_of_drops (h : Drops f g) : g.compile = f.compile := by
  induction h with
  | left operand link rest hv =>
    rw [compile_join, compile_of_vacuous hv]
    cases rest.compile <;> rfl
  | right operand link rest hv =>
    rw [compile_join, compile_of_vacuous hv]
    cases rest.compile with
    | error v => rfl
    | ok q => cases q <;> rfl
  | inLeft link right _ ih => rw [compile_join, compile_join, ih]
  | inRight link left _ ih => rw [compile_join, compile_join, ih]
  | inNot _ ih => rw [compile_not, compile_not, ih]

/-- **No condition is lost, invented or moved.** The conditions of the query, from left to right, are what the
comparisons ask for that are not by order with `null`. So there is no query exactly if all are, and operands of such
comparisons may be dropped, with the connectives beside them. -/
theorem conditions_eq_requests (h : f.compile = .ok r) :
    (r.elim [] Query.conditions).map some = (f.comparisons.filter (!·.isVacuous)).map Comparison.request? ∧
      (r = none ↔ ∀ c ∈ f.comparisons, c.isVacuous = true) ∧
      ∀ g, Relation.ReflTransGen Drops f g → g.compile = .ok r := by
  refine ⟨conditions_eq_map h, eq_none_iff_vacuous h, fun g hdrops => ?_⟩
  induction hdrops with
  | refl => exact h
  | tail _ hdrop ih => rw [compile_of_drops hdrop, ih]

/-- Three comparisons by order with `null`, one of them negated and one in a group, and two that ask for something. -/
theorem conditions_eq_requests_nulls :
    let null (op : Operator) (field : String) : Filter := .compare op field (.literal .null)
    let f : Filter := .join .and (.join .or (.not (null .less "a")) (.compare .greater "b" (.literal (.number 7))))
      (.not (.join .or (.join .and (null .greaterEq "c") (null .lessEq "d")) (null .has "e")))
    let q : Query := .group .and [.atLeast "b" "8", .negate (.fieldEquals "e" "null")]
    f.compile = .ok (some q) ∧ q.conditions.map some = [some (.atLeast "b" "8"), some (.fieldEquals "e" "null")] ∧
      (Filter.join .and (.compare .greater "b" (.literal (.number 7))) (.not (null .has "e"))).compile =
        .ok (some q) := by
  intro null f q
  have hcompile : f.compile = .ok (some q) := by rfl
  obtain ⟨hconditions, _, hdrops⟩ := conditions_eq_requests hcompile
  refine ⟨hcompile, hconditions, ?_⟩
  have hleft : Drops f _ := .inLeft .and _ (.left _ .or _ (by decide))
  have hright : Drops _ _ := .inRight .and (.compare .greater "b" (.literal (.number 7)))
    (.inNot (.left (.join .and (null .greaterEq "c") (null .lessEq "d")) .or (null .has "e") (by decide)))
  exact hdrops _ (.tail (.single hleft) hright)

end Filter

end SearchFilter
