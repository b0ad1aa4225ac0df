import Mathlib.Logic.Relation
import SearchFilter.Compile
import SearchFilter.Query.Meaning
import SearchFilter.Query.Regrouping

/-!
# Flattening chains

Flattening is a matter of form: what a query asks for and its conditions, in their order, stay the same. A chain that
was joined two by two is flattened as one group of its operands, in whatever way they were joined.

* `Query.flatten_preserves` — a flattened query holds when the query does and has the same leaves.
* `Query.flatten_eq_flatten_iff` — queries are flattened alike exactly if they are regroupings of each other.
* `Query.runs_iff_flatten` — a group flattened with a list of the members that are still to be done.
* `Query.gather` — queries as the members of one group.
* `Query.Gathers` — a query that is flattened as a group of given queries.
* `Query.gathers_combine` — joining gathered queries gathers all their members.
-/

namespace SearchFilter

namespace Query

/-- **Flattening** keeps what a query means, whichever of its leaves hold, and the leaves themselves from left to right.
-/
theorem flatten_preserves (q : Query) :
    (∀ answer : Query → Bool, q.flatten.holds answer = q.holds answer) ∧ q.flatten.leaves = q.leaves := by
  constructor
  · intro answer
    exact holds_flatten answer q
  · exact leaves_flatten q

/-- Flat queries are the ones that flattening leaves as they are. -/
theorem flatten_eq_self_iff {q : Query} : q.flatten = q ↔ q.isFlat = true := by
  constructor
  · intro h
    have hflat := isFlat_flatten q
    rwa [h] at hflat
  · exact flatten_of_isFlat q

/-- **Flattening is a canonical form.** Two queries are flattened alike if and only if they are regroupings of each
other. No group of a flattened query has a member of its own kind, so that flattening it again changes nothing, and the
queries that flattening leaves as they are are the ones without such groups. -/
theorem flatten_eq_flatten_iff (p q : Query) :
    (p.flatten = q.flatten ↔ Regrouped p q) ∧ p.flatten.isFlat = true ∧ p.flatten.flatten = p.flatten ∧
      (p.flatten = p ↔ p.isFlat = true) := by
  refine ⟨⟨fun h => ?_, flatten_eq_of_regrouped⟩, isFlat_flatten p, ?_, flatten_eq_self_iff⟩
  · -- both are regroupings of the one query that they are flattened to
    have hp := regrouped_flatten p
    have hq := regrouped_flatten q
    rw [← h] at hq
    exact hp.trans hq.symm
  · exact flatten_eq_self_iff.2 (isFlat_flatten p)

/-! ## Member by member

A group can be flattened with a list of the members that are still to be done: one that is a group of the same kind
gives way to its own members, any other one is flattened by itself. -/

section Worklist

variable {link : Connective}

/-- The members of a group of the given kind. -/
def membersOf (link : Connective) : Query → Option (List Query)
  | group inner members => if inner = link then some members else none
  | _ => none

theorem splice_eq_of_membersOf (link : Connective) (q : Query) :
    splice link q [] = match membersOf link q with
      | some members => spliceAll link members []
      | none => [q.flatten] := by
  cases q with
  | group inner members =>
    simp only [splice, membersOf, flatten]
    split <;> rfl
  | _ => rfl

/-- Members of a group that are still to be done, the next one first, and those that are done. -/
structure Worklist where
  pending : List Query
  done : List Query := []

namespace Worklist

/-- Do the next member. -/
def step (link : Connective) : Worklist → Option Worklist
  | ⟨[], _⟩ => none
  | ⟨q :: pending, done⟩ =>
    match membersOf link q with
    | some members => some ⟨members ++ pending, done⟩
    | none => some ⟨pending, done ++ [q.flatten]⟩

/-- From `w` to `w'` in some number of steps. -/
def Runs (link : Connective) (w w' : Worklist) : Prop := Relation.ReflTransGen (fun v v' => v.step link = some v') w w'

/-- What is done, and what the members to be done will give. -/
def outlook (link : Connective) (w : Worklist) : List Query := w.done ++ spliceAll link w.pending []

theorem outlook_step {w w' : Worklist} (h : w.step link = some w') : w'.outlook link = w.outlook link := by
  obtain ⟨_ | ⟨q, pending⟩, done⟩ := w
  · cases h
  · have hsplice := splice_eq_of_membersOf link q
    have hnext : outlook link ⟨q :: pending, done⟩ = done ++ (splice link q [] ++ spliceAll link pending []) := by
      rw [outlook, spliceAll, splice_eq_append]
    rw [step] at h
    rw [hnext, hsplice]
    cases hmembers : membersOf link q with
    | some members =>
      rw [hmembers] at h
      cases h
      rw [outlook, spliceAll_append, spliceAll_eq_append]
    | none =>
      rw [hmembers] at h
      cases h
      rw [outlook, List.append_assoc]

theorem outlook_runs {w w' : Worklist} (h : Runs link w w') : w'.outlook link = w.outlook link := by
  induction h with
  | refl => rfl
  | tail _ hstep ih => exact (outlook_step hstep).trans ih

mutual

theorem runs_splice (link : Connective) (pending done : List Query) :
    (q : Query) → Runs link ⟨q :: pending, done⟩ ⟨pending, done ++ splice link q []⟩
  | group inner members => by
    by_cases h : inner = link
    · have hrest := runs_spliceAll link pending done members
      rw [splice, if_pos h]
      exact .head (by rw [step, membersOf, if_pos h]) hrest
    · rw [splice, if_neg h]
      exact .single (by rw [step, membersOf, if_neg h]; rfl)
  | not .. | fieldEquals .. | fieldRange .. | text _ | wildcard => .single rfl

theorem runs_spliceAll (link : Connective) (pending done : List Query) :
    (qs : List Query) → Runs link ⟨qs ++ pending, done⟩ ⟨pending, done ++ spliceAll link qs []⟩
  | [] => by
    rw [spliceAll, List.append_nil]
    exact .refl
  | q :: qs => by
    have hfirst := runs_splice link (qs ++ pending) done q
    have hrest := runs_spliceAll link pending (done ++ splice link q []) qs
    rw [spliceAll, splice_eq_append, ← List.append_assoc]
    exact hfirst.trans hrest

end

end Worklist

/-- **Flattening a group member by member** comes to an end, and what is done then is the flattened group. -/
theorem runs_iff_flatten {members done : List Query} :
    Worklist.Runs link ⟨members, []⟩ ⟨[], done⟩ ↔ (group link members).flatten = group link done := by
  rw [flatten, group.injEq, eq_self, true_and]
  constructor
  · -- at the start nothing is done, and at the end nothing is left to do
    intro h
    have houtlook := Worklist.outlook_runs h
    simpa [Worklist.outlook, spliceAll] using houtlook.symm
  · rintro rfl
    have hrun := Worklist.runs_spliceAll link [] [] members
    rwa [List.append_nil, List.nil_append] at hrun

end Worklist

/-! ## One group -/

variable {link : Connective} {p q : Option Query} {ps qs : List Query}

/-- Queries as the members of one group; a single one stays as it is, and of none there is none. -/
def gather (link : Connective) : List Query → Option Query
  | [] => none
  | [only] => some only
  | members => some (group link members)

theorem gather_eq_none_iff : gather link qs = none ↔ qs = [] := by
  rcases qs with _ | ⟨q, _ | ⟨q', qs⟩⟩ <;> simp [gather]

theorem gather_append (hp : ps ≠ []) (hq : qs ≠ []) : gather link (ps ++ qs) = some (group link (ps ++ qs)) := by
  obtain ⟨p, ps, rfl⟩ := List.exists_cons_of_ne_nil hp
  obtain ⟨q, qs, rfl⟩ := List.exists_cons_of_ne_nil hq
  cases ps <;> rfl

/-- Gathered queries give to a group what they would give one by one. -/
theorem spliceAll_gather (link : Connective) (qs : List Query) :
    spliceAll link (gather link qs).toList [] = spliceAll link qs [] := by
  rcases qs with _ | ⟨q, _ | ⟨q', qs⟩⟩
  · rfl
  · rfl
  · show splice link (group link (q :: q' :: qs)) [] = _
    rw [splice, if_pos rfl]

/-! ## Queries that are gathered -/

/-- Flattened, `q` is what the queries `qs` are as members of one group. -/
def Gathers (link : Connective) (q : Option Query) (qs : List Query) : Prop :=
  q.map flatten = (gather link qs).map flatten

theorem Gathers.eq_none_iff (h : Gathers link q qs) : q = none ↔ qs = [] := by
  rw [← @gather_eq_none_iff link, ← Option.map_eq_none_iff (f := flatten), h, Option.map_eq_none_iff]

/-- What is flattened in the end, with the wildcard where nothing was gathered. -/
theorem Gathers.flatten_getD : Gathers link q qs → (q.getD .wildcard).flatten =
    match qs with
    | [] => .wildcard
    | [only] => only.flatten
    | members => (group link members).flatten := by
  intro h
  have hmap : (q.getD .wildcard).flatten = (q.map flatten).getD .wildcard := by cases q <;> rfl
  rw [hmap, h]
  rcases qs with _ | ⟨q, _ | ⟨q', qs⟩⟩ <;> rfl

/-- A gathered query gives to a group what its members give. -/
theorem Gathers.spliceAll_eq (h : Gathers link q qs) : spliceAll link q.toList [] = spliceAll link qs [] := by
  rw [← spliceAll_gather link qs]
  cases q with
  | none =>
    have hnone := Option.map_eq_none_iff.1 h.symm
    rw [hnone]
  | some q =>
    obtain ⟨r, hr, hflat⟩ := Option.map_eq_some_iff.1 h.symm
    rw [hr]
    exact splice_congr link [] hflat.symm

/-- **Joining** two gathered queries gathers the members of both, and what is absent does not count. -/
theorem gathers_combine (hp : Gathers link p ps) (hq : Gathers link q qs) :
    Gathers link (link.combine p q) (ps ++ qs) := by
  cases p with
  | none =>
    have hnil := hp.eq_none_iff.1 rfl
    rw [hnil]
    exact hq
  | some left =>
    cases q with
    | none =>
      have hnil := hq.eq_none_iff.1 rfl
      rw [hnil, List.append_nil]
      exact hp
    | some right =>
      have hps : ps ≠ [] := fun h => nomatch hp.eq_none_iff.2 h
      have hqs : qs ≠ [] := fun h => nomatch hq.eq_none_iff.2 h
      have hshares : spliceAll link [left, right] [] = spliceAll link (ps ++ qs) [] := by
        calc spliceAll link [left, right] []
            = spliceAll link [left] [] ++ spliceAll link [right] [] := by simp [spliceAll_eq_flatMap]
          _ = spliceAll link ps [] ++ spliceAll link qs [] := by
            rw [← hp.spliceAll_eq, ← hq.spliceAll_eq]
            rfl
          _ = spliceAll link (ps ++ qs) [] := by simp [spliceAll_eq_flatMap]
      rw [Gathers, gather_append hps hqs]
      simp only [Connective.combine, Option.map_some, flatten, hshares]

end Query

end SearchFilter
