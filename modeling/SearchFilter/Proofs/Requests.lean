import SearchFilter.Proofs.Alternatives

/-!
# How requests fail

What is read as a filter can always be compiled. So a request fails only where its filters, joined to one text, are not
read, and with the very error of reading that text; and a request with one filter alone asks for what the filter asks
for.

* `Query.ofFilter?_eq_error_iff` — how one filter fails.
* `Terms.filterQuery_eq_error_iff` — how several alternatives fail.
* `toQuery_eq_error_iff` — how a request fails.
-/

namespace SearchFilter

variable {e : QueryError}

/-! ## One filter -/

namespace Query

theorem ofFilter?_eq_error_iff {text : String} :
    ofFilter? text = .error e ↔ ∃ s, Filter.parse text = .error s ∧ e = .malformed s := by
  cases hp : Filter.parse text with
  | error s =>
    rw [ofFilter?, hp]
    simp [eq_comm]
  | ok f =>
    obtain ⟨q, hq⟩ := exists_compile_of_parse hp
    rw [ofFilter?_of_parse hp hq]
    simp

/-- The wildcard in place of no constraint changes no error. -/
theorem ofFilter_eq_error_iff {text : String} : ofFilter text = .error e ↔ ofFilter? text = .error e := by
  rw [ofFilter]
  cases ofFilter? text <;> simp [Except.map]

end Query

/-! ## Alternatives -/

namespace Terms

variable {terms : Terms}

/-- Alternatives fail where their text is not blank and is not read. -/
theorem filterQuery_eq_error_iff : terms.filterQuery = .error e ↔
    Text.trim terms.toFilter ≠ "" ∧ ∃ s, Filter.parse terms.toFilter = .error s ∧ e = .malformed s := by
  rw [filterQuery]
  split
  · next hblank => simp [hblank]
  · next hne => simp [hne, Query.ofFilter?_eq_error_iff]

end Terms

/-! ## Requests -/

namespace Request

variable {query : Option Terms} {filters : Terms}

/-- A request with filters: their query, if there is one, beside the free text. -/
theorem toQuery_of_filters : toQuery ⟨query, some filters⟩ =
    filters.filterQuery.map fun q => combine ((query.map Terms.textQuery).toList ++ q.toList) := by
  cases h : filters.filterQuery with
  | error e => simp only [toQuery, h]; rfl
  | ok q => simp only [toQuery, h]; rfl

/-- A request without filters never fails. -/
theorem toQuery_of_none : toQuery ⟨query, none⟩ = .ok (combine (query.map Terms.textQuery).toList) := by
  show Except.ok (combine ((query.map Terms.textQuery).toList ++ [])) = _
  rw [List.append_nil]

theorem combine_toList (q : Option Query) : combine q.toList = q.getD .wildcard := by
  cases q <;> rfl

theorem toQuery_eq_error_iff_filterQuery {request : Request} :
    request.toQuery = .error e ↔ ∃ filters, request.filters = some filters ∧ filters.filterQuery = .error e := by
  obtain ⟨query, _ | filters⟩ := request
  · simp [toQuery_of_none]
  · simp only [Option.some.injEq, exists_eq_left', toQuery_of_filters]
    cases filters.filterQuery <;> simp [Except.map]

/-- One filter alone, unless it is blank, is compiled as by itself. -/
theorem toQuery_one {text : String} (h : Text.trim text ≠ "") :
    toQuery ⟨none, some (.one text)⟩ = Query.ofFilter text := by
  have hquery : (Terms.one text).filterQuery = Query.ofFilter? text := if_neg h
  rw [toQuery_of_filters, hquery, Query.ofFilter]
  congr 1
  funext q
  exact combine_toList q

end Request

/-- **How requests fail**: with the syntax error of their filters where these are not blank and not read, and never
otherwise. No comparison of a filter that was read breaks the contract of compiling, and one filter alone is compiled as
by itself. -/
theorem toQuery_eq_error_iff :
    (∀ (request : Request) (e : QueryError), request.toQuery = .error e ↔
      ∃ filters s, request.filters = some filters ∧ Text.trim filters.toFilter ≠ "" ∧
        Filter.parse filters.toFilter = .error s ∧ e = .malformed s) ∧
    (∀ v : ContractViolation, (∀ request : Request, request.toQuery ≠ .error (.contract v)) ∧
      (∀ terms : Terms, terms.filterQuery ≠ .error (.contract v)) ∧
      ∀ text : String, Query.ofFilter text ≠ .error (.contract v)) ∧
    ∀ text : String, Text.trim text ≠ "" → Request.toQuery ⟨none, some (.one text)⟩ = Query.ofFilter text := by
  have hfails (request : Request) (e : QueryError) : request.toQuery = .error e ↔
      ∃ filters s, request.filters = some filters ∧ Text.trim filters.toFilter ≠ "" ∧
        Filter.parse filters.toFilter = .error s ∧ e = .malformed s := by
    rw [Request.toQuery_eq_error_iff_filterQuery]
    constructor
    · rintro ⟨filters, hf, he⟩
      obtain ⟨hne, s, hs, rfl⟩ := Terms.filterQuery_eq_error_iff.1 he
      exact ⟨filters, s, hf, hne, hs, rfl⟩
    · rintro ⟨filters, s, hf, hne, hs, rfl⟩
      exact ⟨filters, hf, Terms.filterQuery_eq_error_iff.2 ⟨hne, s, hs, rfl⟩⟩
  refine ⟨hfails, fun v => ⟨fun request h => ?_, fun terms h => ?_, fun text h => ?_⟩, fun text => Request.toQuery_one⟩
  · obtain ⟨_, _, _, _, _, he⟩ := (hfails request _).1 h
    cases he
  · obtain ⟨_, _, _, he⟩ := Terms.filterQuery_eq_error_iff.1 h
    cases he
  · obtain ⟨_, _, he⟩ := Query.ofFilter?_eq_error_iff.1 (Query.ofFilter_eq_error_iff.1 h)
    cases he

/-- An alternative without a value, found behind the one before it; one filter that constrains nothing and one behind a
character that is no space. -/
theorem toQuery_eq_error_iff_second :
    Request.toQuery ⟨some (.one "red"), some (.many ["a:1", " ", "b:"])⟩ = .error (.malformed (.locate (.unexpected
      [.token .boolean, .token .null, .token .number, .token .text]) "(a:1) OR (b:)".toList 12)) ∧
    Request.toQuery ⟨none, some (.one " a > null ")⟩ = .ok .wildcard ∧
    Request.toQuery ⟨none, some (.one "\tb:1")⟩ = Query.ofFilter "\tb:1" := by
  have herror : Filter.parse "(a:1) OR (b:)" = .error (.locate (.unexpected
      [.token .boolean, .token .null, .token .number, .token .text]) "(a:1) OR (b:)".toList 12) := by cbv
  have htext : (Terms.many ["a:1", " ", "b:"]).toFilter = "(a:1) OR (b:)" := by decide
  have hwildcard : Query.ofFilter " a > null " = .ok .wildcard := by cbv
  obtain ⟨hfails, _, hone⟩ := toQuery_eq_error_iff
  refine ⟨(hfails _ _).2 ⟨_, _, rfl, by rw [htext]; decide, by rw [htext]; exact herror, rfl⟩, ?_, ?_⟩
  · exact (hone " a > null " (by decide)).trans hwildcard
  · exact hone "\tb:1" (by decide)

end SearchFilter
