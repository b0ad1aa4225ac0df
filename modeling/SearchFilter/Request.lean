import SearchFilter.Compile
import SearchFilter.Filter.Parser
import SearchFilter.Text.Blank

/-!
# Search requests

A request asks for free text, for filters, or for both; either may be one text or several alternatives. Alternatives of
free text are searched together, alternatives of filters are joined by `OR`.

* `Terms.toFilter` — the one filter that several alternatives stand for.
* `Terms.textQuery`, `Terms.filterQuery` — the query of free text, and of filters.
* `Request.toQuery`, `Query.ofFilter` — the query of a request, and of a single filter.
-/

namespace SearchFilter

/-- One text, or several alternatives. -/
inductive Terms where
  | one (text : String)
  | many (texts : List String)
  deriving DecidableEq, Repr

/-- Free text and filters, each of which may be absent. -/
structure Request where
  query : Option Terms := none
  filters : Option Terms := none
  deriving DecidableEq, Repr

/-- Why a filter gives no query. -/
inductive QueryError where
  | malformed (error : SyntaxError)
  | contract (violation : ContractViolation)
  deriving DecidableEq, Repr

def QueryError.message : QueryError → String
  | malformed e => e.message
  | contract v => v.message

/-- The query of one filter; none if it constrains nothing. -/
def Query.ofFilter? (filter : String) : Except QueryError (Option Query) :=
  match Filter.parse filter with
  | .error e => .error (.malformed e)
  | .ok f =>
    match f.compile with
    | .error v => .error (.contract v)
    | .ok q => .ok q

/-- The query of one filter; one that constrains nothing matches everything. -/
def Query.ofFilter (filter : String) : Except QueryError Query :=
  (Query.ofFilter? filter).map (·.getD .wildcard)

namespace Terms

/-- What is left of texts when the white space around them is dropped, without those that become empty. -/
def nonBlank (texts : List String) : List String := (texts.map Text.trim).filter (· ≠ "")

/-- The terms of a list of texts; a single one stays as it is. -/
def ofList? : List String → Option Terms
  | [] => none
  | [only] => some (one only)
  | texts => some (many texts)

/-- The filter that alternatives stand for: each in parentheses, joined by `OR`. One filter stays as it is, so that the
places of errors are places in it. -/
def toFilter : Terms → String
  | one filter => filter
  | many filters => " OR ".intercalate ((nonBlank filters).map fun f => "(" ++ f ++ ")")

/-- Free text: alternatives are joined by a space. -/
def toText : Terms → String
  | one text => text
  | many texts => " ".intercalate (nonBlank texts)

/-- The query of free text; empty text matches everything. -/
def textQuery (terms : Terms) : Query := if terms.toText = "" then .wildcard else .text terms.toText

/-- The query of filters; none if they are blank or constrain nothing. -/
def filterQuery (terms : Terms) : Except QueryError (Option Query) :=
  if Text.trim terms.toFilter = "" then .ok none else Query.ofFilter? terms.toFilter

end Terms

namespace Request

/-- The query with all of the given parts. -/
def combine : List Query → Query
  | [] => .wildcard
  | [only] => only
  | parts => .group .and parts

/-- The query of a request. -/
def toQuery (request : Request) : Except QueryError Query := do
  let words := (request.query.map Terms.textQuery).toList
  let conditions ←
    match request.filters with
    | none => pure none
    | some filters => filters.filterQuery
  return combine (words ++ conditions.toList)

end Request

end SearchFilter
