import SearchFilter.Document.Basic
import SearchFilter.Query.Basic

/-!
# Index tokens

The form of a query that an inverted index takes: `FIELD` and `VALUE` for conditions, `AND`, `OR` and `NOT` for
combinations, a bare string for free text. The members of every object are in the order of their keys.
-/

namespace SearchFilter

/-- The field name that stands for every document. -/
def everyField : String := "_all"

namespace Query

mutual

/-- The query as a token of the search index. -/
def toIndexToken : Query → Document
  | group link members => .object [(link.keyword, .array (toIndexTokens members))]
  | not excluded included =>
    .object [("NOT", .object [("EXCLUDE", excluded.toIndexToken), ("INCLUDE", included.toIndexToken)])]
  | fieldEquals field value => .object [("FIELD", .string field), ("VALUE", .string value)]
  | fieldRange field lower upper =>
    .object [("FIELD", .string field),
      ("VALUE", .object (bound "GTE" lower ++ bound "LTE" upper))]
  | text words => .string words
  | wildcard => .object [("FIELD", .string everyField)]
where
  /-- A bound that is present, under its key. -/
  bound (key : String) : Option String → List (String × Document)
    | none => []
    | some value => [(key, .string value)]

def toIndexTokens : List Query → List Document
  | [] => []
  | q :: qs => q.toIndexToken :: toIndexTokens qs

end

end Query

end SearchFilter
