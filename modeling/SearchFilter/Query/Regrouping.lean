import SearchFilter.Query.Basic

/-!
# Regrouping

Two queries are regroupings of each other if moving members between nested groups of one kind turns one into the other.
Flattening picks one query of each class:

* `Query.flatten_eq_of_regrouped` — regroupings flatten alike.
* `Query.regrouped_flatten` — a query is a regrouping of its flattened form.
-/

namespace SearchFilter.Query

/-- The least congruence under which a group may take over the members of a member of its own kind. -/
inductive Regrouped : Query → Query → Prop
  | refl (q : Query) : Regrouped q q
  | symm {p q : Query} : Regrouped p q → Regrouped q p
  | trans {p q r : Query} : Regrouped p q → Regrouped q r → Regrouped p r
  | merge (link : Connective) (before inner after : List Query) :
    Regrouped (group link (before ++ group link inner :: after)) (group link (before ++ (inner ++ after)))
  | member (link : Connective) (before after : List Query) {p q : Query} : Regrouped p q →
    Regrouped (group link (before ++ p :: after)) (group link (before ++ q :: after))
  | excluded (included : Query) {p q : Query} : Regrouped p q → Regrouped (not p included) (not q included)
  | included (excluded : Query) {p q : Query} : Regrouped p q → Regrouped (not excluded p) (not excluded q)

theorem spliceAll_append (link : Connective) (ps qs after : List Query) :
    spliceAll link (ps ++ qs) after = spliceAll link ps (spliceAll link qs after) := by
  induction ps with
  | nil => rfl
  | cons p ps ih => rw [List.cons_append, spliceAll, spliceAll, ih]

/-- What a query gives to a group depends on its flattened form only. -/
theorem splice_congr (link : Connective) (after : List Query) {p q : Query} (h : p.flatten = q.flatten) :
    splice link p after = splice link q after := by
  rw [splice_eq_append link p, splice_eq_append link q, splice_eq_of_flatten, splice_eq_of_flatten, h]

theorem flatten_eq_of_regrouped {p q : Query} (h : Regrouped p q) : p.flatten = q.flatten := by
  induction h with
  | refl => rfl
  | symm _ ih => exact ih.symm
  | trans _ _ ih₁ ih₂ => exact ih₁.trans ih₂
  | merge link before inner after =>
    rw [flatten, flatten, spliceAll_append, spliceAll_append, spliceAll, splice, if_pos rfl, spliceAll_append]
  | member link before after _ ih =>
    rw [flatten, flatten, spliceAll_append, spliceAll_append, spliceAll, spliceAll, splice_congr link _ ih]
  | excluded _ _ ih | included _ _ ih => rw [flatten, flatten, ih]

mutual

theorem regrouped_flatten : (q : Query) → Regrouped q q.flatten
  | group link members => by
    have h := regrouped_spliceAll link [] [] members
    rwa [List.append_nil] at h
  | not excluded included =>
    .trans (.excluded included (regrouped_flatten excluded)) (.included excluded.flatten (regrouped_flatten included))
  | fieldEquals .. | fieldRange .. | text _ | wildcard => .refl _

theorem regrouped_splice (link : Connective) (before after : List Query) :
    (q : Query) → Regrouped (group link (before ++ q :: after)) (group link (before ++ splice link q after))
  | group inner members => by
    rw [splice]
    split
    · next h =>
      subst h
      exact .trans (.merge inner before members after) (regrouped_spliceAll inner before after members)
    · have h := regrouped_spliceAll inner [] [] members
      rw [List.append_nil] at h
      exact .member link before after h
  | not excluded included =>
    .member link before after <|
      .trans (.excluded included (regrouped_flatten excluded)) (.included excluded.flatten (regrouped_flatten included))
  | fieldEquals .. | fieldRange .. | text _ | wildcard => .refl _

theorem regrouped_spliceAll (link : Connective) (before after : List Query) :
    (qs : List Query) →
      Regrouped (group link (before ++ (qs ++ after))) (group link (before ++ spliceAll link qs after))
  | [] => .refl _
  | q :: qs => by
    have h := regrouped_spliceAll link (before ++ [q]) after qs
    rw [List.append_assoc, List.append_assoc] at h
    exact .trans h (regrouped_splice link before (spliceAll link qs after) q)

end

end SearchFilter.Query
