import SearchFilter.Query.IndexToken

/-!
# Index tokens lose nothing

A query can be read off its index token. Its kind shows in the keys of the object, and a field compared with `_all` or
with an empty range is told from the query that every document answers by its `VALUE`.

* `Query.ofIndexToken?`, `Query.ofIndexToken?_toIndexToken` — the query of a token.
* `Query.toIndexToken_inj` — queries with the same token are the same.
-/

namespace SearchFilter.Query

/-! ## Reading tokens -/

/-- A bound under its key. -/
def boundOf? (key : String) (bounds : List (String × Document)) : Option String :=
  (bounds.lookup key).bind Document.string?

mutual

/-- The query that has the token. -/
def ofIndexToken? : Document → Option Query
  | .string words => some (.text words)
  | .object [("AND", .array items)] => (ofIndexTokens? items).map (.group .and)
  | .object [("OR", .array items)] => (ofIndexTokens? items).map (.group .or)
  | .object [("NOT", .object [("EXCLUDE", excluded), ("INCLUDE", included)])] =>
    match ofIndexToken? excluded, ofIndexToken? included with
    | some e, some i => some (.not e i)
    | _, _ => none
  | .object [("FIELD", .string field), ("VALUE", .string value)] => some (.fieldEquals field value)
  | .object [("FIELD", .string field), ("VALUE", .object bounds)] =>
    some (.fieldRange field (boundOf? "GTE" bounds) (boundOf? "LTE" bounds))
  | .object [("FIELD", .string _)] => some .wildcard
  | _ => none

def ofIndexTokens? : List Document → Option (List Query)
  | [] => some []
  | d :: rest =>
    match ofIndexToken? d, ofIndexTokens? rest with
    | some q, some qs => some (q :: qs)
    | _, _ => none

end

/-- The bounds of a range are found under their keys. -/
theorem boundOf?_bounds (lower upper : Option String) :
    boundOf? "GTE" (toIndexToken.bound "GTE" lower ++ toIndexToken.bound "LTE" upper) = lower ∧
      boundOf? "LTE" (toIndexToken.bound "GTE" lower ++ toIndexToken.bound "LTE" upper) = upper := by
  cases lower <;> cases upper <;> exact ⟨rfl, rfl⟩

mutual

theorem ofIndexToken?_toIndexToken : (q : Query) → ofIndexToken? q.toIndexToken = some q
  | group link members => by
    have h := ofIndexTokens?_toIndexTokens members
    cases link <;> simp [toIndexToken, Connective.keyword, ofIndexToken?, h]
  | not excluded included => by
    have he := ofIndexToken?_toIndexToken excluded
    have hi := ofIndexToken?_toIndexToken included
    simp [toIndexToken, ofIndexToken?, he, hi]
  | fieldEquals .. | text _ | wildcard => by simp [toIndexToken, ofIndexToken?]
  | fieldRange field lower upper => by
    obtain ⟨hlower, hupper⟩ := boundOf?_bounds lower upper
    simp only [toIndexToken, ofIndexToken?, hlower, hupper]

theorem ofIndexTokens?_toIndexTokens : (qs : List Query) → ofIndexTokens? (toIndexTokens qs) = some qs
  | [] => by simp [toIndexTokens, ofIndexTokens?]
  | q :: qs => by
    have hq := ofIndexToken?_toIndexToken q
    have hqs := ofIndexTokens?_toIndexTokens qs
    simp only [toIndexTokens, ofIndexTokens?, hq, hqs]

end

/-! ## Keys in order -/

mutual

/-- The members of a token are in the order of their keys. -/
theorem sorted_toIndexToken : (q : Query) → q.toIndexToken.sorted = q.toIndexToken
  | group link members => by
    simp only [toIndexToken, Document.sorted, Document.sortedMembers, insertByKey, sortedItems_toIndexTokens members]
  | not excluded included => by
    have hkeys : ¬ "INCLUDE" < "EXCLUDE" := by decide
    simp only [toIndexToken, Document.sorted, Document.sortedMembers, insertByKey, sorted_toIndexToken excluded,
      sorted_toIndexToken included, if_neg hkeys]
  | fieldRange field lower upper => by
    have hkeys : ¬ "VALUE" < "FIELD" := by decide
    have hbounds : ¬ "LTE" < "GTE" := by decide
    cases lower <;> cases upper <;>
      simp only [toIndexToken, toIndexToken.bound, Document.sorted, Document.sortedMembers, insertByKey, if_neg hkeys,
        if_neg hbounds, List.nil_append, List.cons_append]
  | fieldEquals field value => by
    have hkeys : ¬ "VALUE" < "FIELD" := by decide
    simp only [toIndexToken, Document.sorted, Document.sortedMembers, insertByKey, if_neg hkeys]
  | text _ | wildcard => rfl

theorem sortedItems_toIndexTokens : (qs : List Query) → Document.sortedItems (toIndexTokens qs) = toIndexTokens qs
  | [] => rfl
  | q :: qs => by
    simp only [toIndexTokens, Document.sortedItems, sorted_toIndexToken q, sortedItems_toIndexTokens qs]

end

/-- **Index tokens lose nothing.** Queries with the same token are the same, also where the members of an object have no
order. -/
theorem toIndexToken_inj (p q : Query) : (p.toIndexToken = q.toIndexToken ↔ p = q) ∧
    (p.toIndexToken.sorted = q.toIndexToken.sorted ↔ p = q) := by
  have hinj : p.toIndexToken = q.toIndexToken ↔ p = q := by
    refine ⟨fun h => ?_, fun h => by rw [h]⟩
    have hread : some p = some q := by rw [← ofIndexToken?_toIndexToken p, ← ofIndexToken?_toIndexToken q, h]
    exact Option.some.inj hread
  rw [sorted_toIndexToken, sorted_toIndexToken]
  exact ⟨hinj, hinj⟩

end SearchFilter.Query
