import SearchFilter.Query.Basic

/-!
# What queries mean

A query holds or not, given which of its conditions hold. Flattening is a matter of form only:

* `Query.holds_flatten` — a flattened query holds exactly when the query does.
* `Query.leaves_flatten` — it has the same leaves in the same order.
* `Query.isFlat_flatten`, `Query.flatten_of_isFlat` — it is flat, and flat queries stay as they are.
-/

namespace SearchFilter.Query

/-! ## Truth -/

mutual

/-- Whether a query holds, given which conditions and free texts hold. -/
def holds (answer : Query → Bool) : Query → Bool
  | group .and members => allHold answer members
  | group .or members => anyHolds answer members
  | not excluded included => included.holds answer && !excluded.holds answer
  | wildcard => true
  | leaf => answer leaf

def allHold (answer : Query → Bool) : List Query → Bool
  | [] => true
  | q :: qs => q.holds answer && allHold answer qs

def anyHolds (answer : Query → Bool) : List Query → Bool
  | [] => false
  | q :: qs => q.holds answer || anyHolds answer qs

end

/-! ## Leaves -/

mutual

/-- The parts of a query that have no parts, from left to right. -/
def leaves : Query → List Query
  | group _ members => leavesOf members
  | not excluded included => excluded.leaves ++ included.leaves
  | leaf => [leaf]

def leavesOf : List Query → List Query
  | [] => []
  | q :: qs => q.leaves ++ leavesOf qs

end

/-! ## Flatness -/

/-- Whether a query is a group of the given kind. -/
def isGroupOf (link : Connective) : Query → Bool
  | group inner _ => inner = link
  | _ => false

mutual

/-- No group has a member that is a group of the same kind. -/
def isFlat : Query → Bool
  | group link members => areFlatIn link members
  | not excluded included => excluded.isFlat && included.isFlat
  | _ => true

def areFlatIn (link : Connective) : List Query → Bool
  | [] => true
  | q :: qs => !q.isGroupOf link && q.isFlat && areFlatIn link qs

end

/-! ## What flattening keeps -/

section Flatten

variable (answer : Query → Bool)

mutual

theorem holds_flatten : (q : Query) → q.flatten.holds answer = q.holds answer
  | group .and members => by rw [flatten, holds, holds, allHold_spliceAll, allHold, Bool.and_true]
  | group .or members => by rw [flatten, holds, holds, anyHolds_spliceAll, anyHolds, Bool.or_false]
  | not excluded included => by rw [flatten, holds, holds, holds_flatten excluded, holds_flatten included]
  | fieldEquals .. | fieldRange .. | text _ | wildcard => rfl

theorem allHold_splice (after : List Query) :
    (q : Query) → allHold answer (splice .and q after) = (q.holds answer && allHold answer after)
  | group .and members => by rw [splice, if_pos rfl, allHold_spliceAll, holds]
  | group .or members => by
    rw [splice, if_neg nofun, allHold, holds, holds, anyHolds_spliceAll, anyHolds, Bool.or_false]
  | not excluded included => by
    rw [splice, allHold, holds, holds, holds_flatten excluded, holds_flatten included]
  | fieldEquals .. | fieldRange .. | text _ | wildcard => rfl

theorem allHold_spliceAll (after : List Query) :
    (qs : List Query) → allHold answer (spliceAll .and qs after) = (allHold answer qs && allHold answer after)
  | [] => rfl
  | q :: qs => by rw [spliceAll, allHold_splice _ q, allHold_spliceAll after qs, allHold, Bool.and_assoc]

theorem anyHolds_splice (after : List Query) :
    (q : Query) → anyHolds answer (splice .or q after) = (q.holds answer || anyHolds answer after)
  | group .or members => by rw [splice, if_pos rfl, anyHolds_spliceAll, holds]
  | group .and members => by
    rw [splice, if_neg nofun, anyHolds, holds, holds, allHold_spliceAll, allHold, Bool.and_true]
  | not excluded included => by
    rw [splice, anyHolds, holds, holds, holds_flatten excluded, holds_flatten included]
  | fieldEquals .. | fieldRange .. | text _ | wildcard => rfl

theorem anyHolds_spliceAll (after : List Query) :
    (qs : List Query) → anyHolds answer (spliceAll .or qs after) = (anyHolds answer qs || anyHolds answer after)
  | [] => rfl
  | q :: qs => by rw [spliceAll, anyHolds_splice _ q, anyHolds_spliceAll after qs, anyHolds, Bool.or_assoc]

end

mutual

theorem leaves_flatten : (q : Query) → q.flatten.leaves = q.leaves
  | group link members => by rw [flatten, leaves, leaves, leavesOf_spliceAll, leavesOf, List.append_nil]
  | not excluded included => by rw [flatten, leaves, leaves, leaves_flatten excluded, leaves_flatten included]
  | fieldEquals .. | fieldRange .. | text _ | wildcard => rfl

theorem leavesOf_splice (link : Connective) (after : List Query) :
    (q : Query) → leavesOf (splice link q after) = q.leaves ++ leavesOf after
  | group inner members => by
    rw [splice]
    split
    · rw [leavesOf_spliceAll, leaves]
    · rw [leavesOf, leaves, leaves, leavesOf_spliceAll, leavesOf, List.append_nil]
  | not excluded included => by
    rw [splice, leavesOf, leaves, leaves, leaves_flatten excluded, leaves_flatten included]
  | fieldEquals .. | fieldRange .. | text _ | wildcard => rfl

theorem leavesOf_spliceAll (link : Connective) (after : List Query) :
    (qs : List Query) → leavesOf (spliceAll link qs after) = leavesOf qs ++ leavesOf after
  | [] => rfl
  | q :: qs => by
    rw [spliceAll, leavesOf_splice link _ q, leavesOf_spliceAll link after qs, leavesOf, List.append_assoc]

end

mutual

theorem isFlat_flatten : (q : Query) → q.flatten.isFlat = true
  | group link members => by rw [flatten, isFlat, areFlatIn_spliceAll, areFlatIn]
  | not excluded included => by
    rw [flatten, isFlat, isFlat_flatten excluded, isFlat_flatten included, Bool.and_true]
  | fieldEquals .. | fieldRange .. | text _ | wildcard => rfl

theorem areFlatIn_splice (link : Connective) (after : List Query) :
    (q : Query) → areFlatIn link (splice link q after) = areFlatIn link after
  | group inner members => by
    rw [splice]
    split
    · rw [areFlatIn_spliceAll]
    · next h => simp [areFlatIn, isGroupOf, h, isFlat, areFlatIn_spliceAll inner [] members]
  | not excluded included => by
    simp [splice, areFlatIn, isGroupOf, isFlat, isFlat_flatten excluded, isFlat_flatten included]
  | fieldEquals .. | fieldRange .. | text _ | wildcard => rfl

theorem areFlatIn_spliceAll (link : Connective) (after : List Query) :
    (qs : List Query) → areFlatIn link (spliceAll link qs after) = areFlatIn link after
  | [] => rfl
  | q :: qs => by rw [spliceAll, areFlatIn_splice link _ q, areFlatIn_spliceAll link after qs]

end

mutual

theorem flatten_of_isFlat : (q : Query) → q.isFlat = true → q.flatten = q
  | group link members, h => by rw [flatten, spliceAll_of_areFlatIn link [] members h, List.append_nil]
  | not excluded included, h => by
    obtain ⟨he, hi⟩ := Bool.and_eq_true_iff.1 h
    rw [flatten, flatten_of_isFlat excluded he, flatten_of_isFlat included hi]
  | fieldEquals .., _ | fieldRange .., _ | text _, _ | wildcard, _ => rfl

theorem splice_of_isFlat (link : Connective) (after : List Query) :
    (q : Query) → q.isGroupOf link = false → q.isFlat = true → splice link q after = q :: after
  | group inner members, hg, h => by
    have hne : inner ≠ link := of_decide_eq_false hg
    rw [splice, if_neg hne, spliceAll_of_areFlatIn inner [] members h, List.append_nil]
  | not excluded included, _, h => by
    obtain ⟨he, hi⟩ := Bool.and_eq_true_iff.1 h
    rw [splice, flatten_of_isFlat excluded he, flatten_of_isFlat included hi]
  | fieldEquals .., _, _ | fieldRange .., _, _ | text _, _, _ | wildcard, _, _ => rfl

theorem spliceAll_of_areFlatIn (link : Connective) (after : List Query) :
    (qs : List Query) → areFlatIn link qs = true → spliceAll link qs after = qs ++ after
  | [], _ => rfl
  | q :: qs, h => by
    obtain ⟨hq, hqs⟩ := Bool.and_eq_true_iff.1 h
    obtain ⟨hg, hf⟩ := Bool.and_eq_true_iff.1 hq
    rw [spliceAll, spliceAll_of_areFlatIn link after qs hqs,
      splice_of_isFlat link _ q (Bool.not_inj hg) hf, List.cons_append]

end

end Flatten

end SearchFilter.Query
