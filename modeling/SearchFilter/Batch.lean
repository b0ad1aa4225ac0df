import SearchFilter.KeyOrder
import SearchFilter.Request

/-!
# Batches of requests

A batch is compiled request by request, in the order of the names; a request that fails leaves the others alone.

* `Batch.compile` — the query or the error of every request.
-/

namespace SearchFilter

/-- Named requests. -/
structure Batch where
  requests : List (String × Request)
  deriving DecidableEq, Repr

/-- The query of a request, flattened if that is asked for. -/
def Request.toQueryWith (flatten : Bool) (request : Request) : Except QueryError Query :=
  request.toQuery.map fun q => if flatten then q.flatten else q

/-- A named request, compiled. -/
structure CompiledRequest where
  name : String
  result : Except QueryError Query

/-- Every request compiled, in the order of the names. -/
def Batch.compile (batch : Batch) (flatten : Bool) : List CompiledRequest :=
  (sortByKey batch.requests).map fun (name, request) => ⟨name, request.toQueryWith flatten⟩

end SearchFilter
