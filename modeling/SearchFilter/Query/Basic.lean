import SearchFilter.Filter.Basic

/-!
# Queries

A query is what a search backend is asked for: conditions on fields with inclusive bounds, combined by "all", "any" and
"these but not those", free text, and the query that every document answers.

* `Query.flatten` — groups in groups of the same kind merged.
* `Query.spliceAll_eq_flatMap`, `Query.splice_eq_of_flatten` — what the members of a group give to it.
-/

namespace SearchFilter

/-- A search query. -/
inductive Query where
  /-- All members (`and`) or at least one member (`or`) must match. -/
  | group (link : Connective) (members : List Query)
  /-- What `included` matches and `excluded` does not. -/
  | not (excluded included : Query)
  | fieldEquals (field value : String)
  /-- The field lies within the bounds that are present, both inclusive. -/
  | fieldRange (field : String) (lower upper : Option String)
  | text (words : String)
  | wildcard
  deriving Repr

namespace Query

def atLeast (field bound : String) : Query := fieldRange field (some bound) none

def atMost (field bound : String) : Query := fieldRange field none (some bound)

/-- Everything but what `q` matches. -/
def negate (q : Query) : Query := not q wildcard

/-! ## Flattening

`and [a, and [b, c]]` becomes `and [a, b, c]`, at every level; likewise for `or`. -/

mutual

/-- Merge every group into the group of the same kind around it. -/
def flatten : Query → Query
  | group link members => group link (spliceAll link members [])
  | not excluded included => not excluded.flatten included.flatten
  | q => q

/-- The members that `q` gives to a group of kind `link`, before `after`. -/
def splice (link : Connective) : Query → List Query → List Query
  | group inner members, after =>
    if inner = link then spliceAll link members after
    else group inner (spliceAll inner members []) :: after
  | not excluded included, after => not excluded.flatten included.flatten :: after
  | q, after => q :: after

/-- The members that all of `qs` give to a group of kind `link`, before `after`. -/
def spliceAll (link : Connective) : List Query → List Query → List Query
  | [], after => after
  | q :: qs, after => splice link q (spliceAll link qs after)

end

mutual

/-- What a query gives to a group goes in front of what is there. -/
theorem splice_eq_append (link : Connective) (q : Query) (after : List Query) :
    splice link q after = splice link q [] ++ after := by
  cases q with
  | group inner members =>
    simp only [splice]
    split
    · exact spliceAll_eq_append link members after
    · rfl
  | _ => rfl

theorem spliceAll_eq_append (link : Connective) (qs after : List Query) :
    spliceAll link qs after = spliceAll link qs [] ++ after := by
  cases qs with
  | nil => rfl
  | cons q qs =>
    simp only [spliceAll]
    rw [splice_eq_append link q (spliceAll link qs after), spliceAll_eq_append link qs after,
      splice_eq_append link q (spliceAll link qs []), List.append_assoc]

end

/-- Each member gives its share to the group. -/
theorem spliceAll_eq_flatMap (link : Connective) (qs : List Query) :
    spliceAll link qs [] = qs.flatMap (splice link · []) := by
  induction qs with
  | nil => rfl
  | cons q qs ih => rw [spliceAll, splice_eq_append, ih, List.flatMap_cons]

/-- A flattened query that is a group of the same kind gives its members, any other gives itself. -/
theorem splice_eq_of_flatten (link : Connective) (q : Query) :
    splice link q [] = match q.flatten with
      | group inner members => if inner = link then members else [group inner members]
      | q => [q] := by
  cases q with
  | group inner members =>
    simp only [splice, flatten]
    split
    · next h => rw [h]
    · rfl
  | _ => rfl

end Query

end SearchFilter
