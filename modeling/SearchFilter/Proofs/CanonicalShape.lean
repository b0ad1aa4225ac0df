import SearchFilter.Proofs.Printing
import SearchFilter.Query.Meaning
import SearchFilter.Request

/-!
# The shape of queries

A request gives a query of one shape: conditions under groups of two and negations, with free text or the wildcard
beside them at the root only. Flattening keeps the shape, with groups of two or more.

* `Query.Constrains` — conditions under groups and negations.
* `Query.Canonical` — what a request may ask for.
* `constrains_of_compile` — compiling gives conditions under groups of two.
* `canonical_flatten` — flattening keeps the shape.
* `canonical_of_toQuery` — the shape of every request.
-/

namespace SearchFilter

/-- A field name: at least one character, all of them letters, digits, points and underscores. -/
structure IsFieldName (field : String) : Prop where
  ne_empty : field ≠ ""
  forall_mem : ∀ x ∈ field.toList, isFieldChar x

namespace Query

variable {size size' : Nat → Prop} {p q : Query} {link : Connective} {members : List Query}

/-- Conditions on fields, each a value or one bound, under groups whose numbers of members are `size` and negations,
which exclude from the wildcard. -/
inductive Constrains (size : Nat → Prop) : Query → Prop
  | group (link : Connective) {members : List Query} : size members.length → (∀ q ∈ members, Constrains size q) →
    Constrains size (group link members)
  | not {excluded : Query} : Constrains size excluded → Constrains size (not excluded wildcard)
  | fieldEquals {field : String} (value : String) : IsFieldName field → Constrains size (fieldEquals field value)
  | lower {field : String} (bound : String) : IsFieldName field → Constrains size (fieldRange field (some bound) none)
  | upper {field : String} (bound : String) : IsFieldName field → Constrains size (fieldRange field none (some bound))

/-- Free text that is not empty, or the wildcard. -/
inductive IsFree : Query → Prop
  | text {words : String} : words ≠ "" → IsFree (text words)
  | wildcard : IsFree wildcard

/-- Free text or the wildcard, conditions, or both as members of one group. -/
inductive Canonical (size : Nat → Prop) : Query → Prop
  | free {q : Query} : IsFree q → Canonical size q
  | conditions {q : Query} : Constrains size q → Canonical size q
  | both {first : Query} {rest : List Query} : IsFree first → size (rest.length + 1) →
    (∀ q ∈ rest, Constrains size q) → Canonical size (.group .and (first :: rest))

/-! ## Flattening -/

/-- What conditions give to a group: some conditions, and at least one. -/
theorem constrains_splice (h : q.flatten.Constrains size) (hpos : ∀ n, size n → 0 < n) (link : Connective) :
    0 < (splice link q []).length ∧ ∀ p ∈ splice link q [], p.Constrains size := by
  rw [splice_eq_of_flatten]
  have hself : 0 < [q.flatten].length ∧ ∀ p ∈ [q.flatten], p.Constrains size :=
    ⟨Nat.one_pos, fun p hp => List.mem_singleton.1 hp ▸ h⟩
  generalize q.flatten = r at h hself
  cases h with
  | @group inner members hsize hmembers =>
    show 0 < (if inner = link then members else [Query.group inner members]).length ∧
      ∀ p ∈ if inner = link then members else [Query.group inner members], p.Constrains size
    split
    · exact ⟨hpos _ hsize, hmembers⟩
    · exact hself
  | _ => exact hself

/-- A group does not get smaller when each member gives its share. -/
theorem length_le_spliceAll {qs : List Query} (h : ∀ q ∈ qs, 0 < (splice link q []).length) :
    qs.length ≤ (spliceAll link qs []).length := by
  rw [spliceAll_eq_flatMap]
  induction qs with
  | nil => exact Nat.le_refl _
  | cons q qs ih =>
    have hq := h q (.head _)
    have hqs := ih fun p hp => h p (.tail _ hp)
    rw [List.flatMap_cons, List.length_append, List.length_cons]
    omega

theorem constrains_spliceAll {qs : List Query} (h : ∀ q ∈ qs, ∀ p ∈ splice link q [], p.Constrains size) :
    ∀ p ∈ spliceAll link qs [], p.Constrains size := by
  intro p hp
  rw [spliceAll_eq_flatMap] at hp
  obtain ⟨q, hq, hp⟩ := List.mem_flatMap.1 hp
  exact h q hq p hp

/-- Flattened conditions are conditions under groups that did not get smaller. -/
theorem constrains_flatten (h : q.Constrains (· = 2)) : q.flatten.Constrains (2 ≤ ·) := by
  have hpos : ∀ n, 2 ≤ n → 0 < n := fun n hn => by omega
  induction h with
  | @group link members hsize _ ih =>
    have hshare := fun q hq => constrains_splice (ih q hq) hpos link
    have hlen := length_le_spliceAll fun q hq => (hshare q hq).1
    rw [flatten]
    exact .group link (by omega) (constrains_spliceAll fun q hq => (hshare q hq).2)
  | not _ ih => exact .not ih
  | fieldEquals value hf => exact .fieldEquals value hf
  | lower bound hf => exact .lower bound hf
  | upper bound hf => exact .upper bound hf

/-- **Flattening keeps the shape.** -/
theorem canonical_flatten (h : q.Canonical (· = 2)) : q.flatten.Canonical (2 ≤ ·) := by
  cases h with
  | free hfree => cases hfree with
    | text hne => exact .free (.text hne)
    | wildcard => exact .free .wildcard
  | conditions hc => exact .conditions (constrains_flatten hc)
  | @both first rest hfree hsize hrest =>
    have hshare := fun q hq => constrains_splice (constrains_flatten (hrest q hq)) (fun n hn => by omega) .and
    have hlen := length_le_spliceAll fun q hq => (hshare q hq).1
    have hflat : (group .and (first :: rest)).flatten = .group .and (first :: spliceAll .and rest []) := by
      cases hfree <;> rfl
    rw [hflat]
    exact .both hfree (by omega) (constrains_spliceAll fun q hq => (hshare q hq).2)

end Query

/-! ## Compiling -/

/-- A comparison sets a condition on its field. -/
theorem Operator.constrains_of_condition {op : Operator} {field : String} {v : Literal} {q : Query} {size : Nat → Prop}
    (hf : IsFieldName field) (h : op.condition field v = some q) : q.Constrains size := by
  cases op with
  | has | equals => cases h; exact .fieldEquals _ hf
  | greater | greaterEq =>
    obtain ⟨bound, _, rfl⟩ := Option.map_eq_some_iff.1 h
    exact .lower bound hf
  | less | lessEq =>
    obtain ⟨bound, _, rfl⟩ := Option.map_eq_some_iff.1 h
    exact .upper bound hf

/-- **Compiling** gives conditions under groups of two, or nothing. -/
theorem constrains_of_compile {f : Filter} (hf : f.WellFormed) {q : Query} (h : f.compile = .ok (some q)) :
    q.Constrains (· = 2) := by
  induction hf generalizing q with
  | @join left right link _ _ ihl ihr =>
    rw [Filter.compile_join] at h
    cases hl : left.compile with
    | error v => rw [hl] at h; cases h
    | ok l =>
      cases hr : right.compile with
      | error v => rw [hl, hr] at h; cases h
      | ok r =>
        rw [hl, hr] at h
        have h : link.combine l r = some q := Except.ok.inj h
        cases l <;> cases r <;> cases h
        · exact ihr hr
        · exact ihl hl
        · refine .group link rfl fun p hp => ?_
          rcases List.mem_cons.1 hp with rfl | hp
          · exact ihl hl
          · exact List.mem_singleton.1 hp ▸ ihr hr
  | @not operand _ ih =>
    rw [Filter.compile_not] at h
    cases ho : operand.compile with
    | error v => rw [ho] at h; cases h
    | ok o =>
      rw [ho] at h
      obtain ⟨p, rfl, rfl⟩ := Option.map_eq_some_iff.1 (Except.ok.inj h)
      exact .not (ih ho)
  | compare op hne hfield _ =>
    rw [Filter.compile_compare] at h
    exact Operator.constrains_of_condition ⟨hne, hfield⟩ (Except.ok.inj h)

/-! ## Requests -/

theorem Query.constrains_of_ofFilter? {text : String} {q : Query} (h : Query.ofFilter? text = .ok (some q)) :
    q.Constrains (· = 2) := by
  unfold Query.ofFilter? at h
  cases hp : Filter.parse text with
  | error e => rw [hp] at h; cases h
  | ok f =>
    rw [hp] at h
    simp only at h
    cases hc : f.compile with
    | error v => rw [hc] at h; cases h
    | ok o =>
      rw [hc] at h
      cases h
      exact constrains_of_compile (wellFormed_of_parse hp) hc

namespace Terms

variable {terms : Terms} {q : Query}

theorem isFree_textQuery (terms : Terms) : terms.textQuery.IsFree := by
  unfold textQuery
  split
  · exact .wildcard
  · next hne => exact .text hne

theorem constrains_of_filterQuery (h : terms.filterQuery = .ok (some q)) : q.Constrains (· = 2) := by
  unfold filterQuery at h
  split at h
  · cases h
  · exact Query.constrains_of_ofFilter? h

end Terms

theorem Request.canonical_combine {words conditions : Option Query} (hw : ∀ q ∈ words, q.IsFree)
    (hc : ∀ q ∈ conditions, q.Constrains (· = 2)) :
    (Request.combine (words.toList ++ conditions.toList)).Canonical (· = 2) := by
  cases words with
  | none =>
    cases conditions with
    | none => exact .free .wildcard
    | some q => exact .conditions (hc q rfl)
  | some first =>
    cases conditions with
    | none => exact .free (hw first rfl)
    | some q => exact .both (hw first rfl) rfl fun p hp => List.mem_singleton.1 hp ▸ hc q rfl

/-- **The shape of every request**: free text or the wildcard, conditions under groups of two, or both; flattened,
groups of two or more with no group in a group of its kind. -/
theorem canonical_of_toQuery {request : Request} {q : Query} (h : request.toQuery = .ok q) :
    q.Canonical (· = 2) ∧ q.flatten.Canonical (2 ≤ ·) ∧ q.flatten.isFlat = true := by
  have hcanonical : q.Canonical (· = 2) := by
    obtain ⟨query, filters⟩ := request
    have hwords : ∀ q ∈ query.map Terms.textQuery, q.IsFree := by
      intro q hq
      obtain ⟨terms, _, rfl⟩ := Option.map_eq_some_iff.1 hq
      exact terms.isFree_textQuery
    cases filters with
    | none =>
      cases h
      exact @Request.canonical_combine _ none hwords nofun
    | some filters =>
      cases hf : filters.filterQuery with
      | error e => simp only [Request.toQuery, hf] at h; cases h
      | ok conditions =>
        simp only [Request.toQuery, hf] at h
        cases h
        exact Request.canonical_combine hwords fun q hq => Terms.constrains_of_filterQuery (hq ▸ hf)
  exact ⟨hcanonical, Query.canonical_flatten hcanonical, q.isFlat_flatten⟩

/-- Free text beside a filter one of whose comparisons constrains nothing. -/
theorem canonical_of_toQuery_both :
    let request : Request := ⟨some (.one "red"), some (.one "a>4 AND NOT b:x OR c<null")⟩
    let left : Query := .fieldRange "a" (some "5") none
    let right : Query := .not (.fieldEquals "b" "x") .wildcard
    request.toQuery = .ok (.group .and [.text "red", .group .and [left, right]]) ∧
    (Query.group .and [.text "red", .group .and [left, right]]).Canonical (· = 2) ∧
    (Query.group .and [.text "red", left, right]).Canonical (2 ≤ ·) := by
  intro request left right
  have h : request.toQuery = .ok (.group .and [.text "red", .group .and [left, right]]) := by cbv
  obtain ⟨hcanonical, hflat, _⟩ := canonical_of_toQuery h
  exact ⟨h, hcanonical, hflat⟩

end SearchFilter
