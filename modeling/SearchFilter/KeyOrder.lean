/-!
# Order of names

Named things are shown in the order of their names, character by character by code point, which is also the order of
the bytes of UTF-8.

* `insertByKey`, `sortByKey` — insertion sort by name; things of one name keep their order.
* `sortByKey_perm`, `pairwise_sortByKey` — the same entries, in order.
-/

namespace SearchFilter

variable {α : Type}

/-- Put an entry in front of the first one whose name is not smaller. -/
def insertByKey (entry : String × α) : List (String × α) → List (String × α)
  | [] => [entry]
  | x :: rest => if x.1 < entry.1 then x :: insertByKey entry rest else entry :: x :: rest

/-- Entries in the order of their names. -/
def sortByKey (entries : List (String × α)) : List (String × α) := entries.foldr insertByKey []

theorem insertByKey_perm (entry : String × α) (entries : List (String × α)) :
    (insertByKey entry entries).Perm (entry :: entries) := by
  induction entries with
  | nil => exact .refl _
  | cons x rest ih =>
    rw [insertByKey]
    split
    · exact (ih.cons x).trans (.swap entry x rest)
    · exact .refl _

theorem sortByKey_perm (entries : List (String × α)) : (sortByKey entries).Perm entries := by
  induction entries with
  | nil => exact .refl _
  | cons entry rest ih => exact (insertByKey_perm entry (sortByKey rest)).trans (ih.cons entry)

theorem pairwise_insertByKey (entry : String × α) {entries : List (String × α)}
    (h : entries.Pairwise (·.1 ≤ ·.1)) : (insertByKey entry entries).Pairwise (·.1 ≤ ·.1) := by
  induction h with
  | nil => exact List.pairwise_singleton _ _
  | @cons x rest hx hrest ih =>
    rw [insertByKey]
    split
    · next hlt =>
      refine .cons (fun y hy => ?_) ih
      rcases List.mem_cons.1 ((insertByKey_perm entry rest).mem_iff.1 hy) with rfl | hy
      · exact String.not_lt.1 (String.lt_asymm hlt)
      · exact hx y hy
    · next hnot =>
      refine .cons (fun y hy => ?_) (.cons hx hrest)
      rcases List.mem_cons.1 hy with rfl | hy
      · exact String.not_lt.1 hnot
      · exact String.le_trans (String.not_lt.1 hnot) (hx y hy)

theorem pairwise_sortByKey (entries : List (String × α)) : (sortByKey entries).Pairwise (·.1 ≤ ·.1) := by
  induction entries with
  | nil => exact .nil
  | cons entry rest ih => exact pairwise_insertByKey entry ih

end SearchFilter
