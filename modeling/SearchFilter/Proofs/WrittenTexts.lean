import SearchFilter.Proofs.Decoding
import SearchFilter.Proofs.IndexTokens
import SearchFilter.Proofs.Texts.Blocks
import SearchFilter.Proofs.Texts.Json

/-!
# What is written can be told apart

Queries are written without numbers, and documents without numbers can be told apart by their texts, as JSON as well as
YAML. So the text that is written for a query, whatever the settings, is written for no other query.

* `Format.encode_inj` — documents of the same text are the same.
* `OutputSettings.numberFree_document` — the document of a query has no numbers.
* `OutputSettings.encode_document_inj` — queries of the same text are the same.
-/

namespace SearchFilter

open Document (NumberFree)

/-! ## Documents -/

/-- **The text of a document** is that of no other document, if these have no numbers. -/
theorem Format.encode_inj {f : Format} {d e : Document} (hd : d.NumberFree) (he : e.NumberFree)
    (h : f.encode d = f.encode e) : d = e := by
  cases f with
  | json =>
    have h := congrArg String.toList h
    rw [encode, encode, String.toList_append, String.toList_append] at h
    exact hd.pretty_inj he (String.toList_inj.1 (List.append_cancel_right h))
  | yaml => exact hd.yaml_inj he h

theorem Document.sortedItems_eq_map (ds : List Document) : sortedItems ds = ds.map sorted := by
  induction ds with
  | nil => rfl
  | cons d ds ih => rw [sortedItems, ih, List.map_cons]

/-- Putting keys in order brings no numbers. -/
theorem Document.NumberFree.sorted {d : Document} (h : d.NumberFree) : d.sorted.NumberFree := by
  induction h with
  | null => exact .null
  | boolean b => exact .boolean b
  | string s => exact .string s
  | array _ ih =>
    rw [Document.sorted, sortedItems_eq_map]
    exact .array (List.forall_mem_map.2 ih)
  | object _ ih =>
    rw [Document.sorted]
    refine .object fun m hm => ?_
    obtain ⟨m, hmember, rfl⟩ := List.mem_map.1 ((Query.sortedMembers_perm _).mem_iff.1 hm)
    exact ih m hmember

/-! ## Queries -/

namespace Query

theorem numberFree_ofKind (kind : QueryKind) {fields : List (String × Document)} (h : ∀ m ∈ fields, m.2.NumberFree) :
    (ofKind kind fields).NumberFree :=
  .object (List.forall_mem_cons.2 ⟨.string kind.name, h⟩)

theorem numberFree_boundMember (key : String) (bound : Option String) :
    ∀ m ∈ boundMember key bound, m.2.NumberFree := by
  cases bound with
  | none => exact List.forall_mem_nil _
  | some value => exact List.forall_mem_singleton.2 (.string value)

mutual

theorem numberFree_toDocument : (q : Query) → q.toDocument.NumberFree
  | group link members =>
    numberFree_ofKind link.kind (List.forall_mem_singleton.2 (.array (numberFree_toDocuments members)))
  | not excluded included => numberFree_ofKind .not
    (List.forall_mem_cons.2
      ⟨numberFree_toDocument excluded, List.forall_mem_singleton.2 (numberFree_toDocument included)⟩)
  | fieldEquals field value => numberFree_ofKind .fieldEquals
    (List.forall_mem_cons.2 ⟨.string field, List.forall_mem_singleton.2 (.string value)⟩)
  | fieldRange field lower upper => numberFree_ofKind .fieldRange
    (List.forall_mem_cons.2 ⟨.string field,
      List.forall_mem_append.2 ⟨numberFree_boundMember _ lower, numberFree_boundMember _ upper⟩⟩)
  | text words => numberFree_ofKind .text (List.forall_mem_singleton.2 (.string words))
  | wildcard => numberFree_ofKind .wildcard (List.forall_mem_nil _)

theorem numberFree_toDocuments : (qs : List Query) → ∀ d ∈ toDocuments qs, d.NumberFree
  | [] => List.forall_mem_nil _
  | q :: qs => List.forall_mem_cons.2 ⟨numberFree_toDocument q, numberFree_toDocuments qs⟩

end

mutual

theorem numberFree_toIndexToken : (q : Query) → q.toIndexToken.NumberFree
  | group _ members =>
    .object (List.forall_mem_singleton.2 (.array (numberFree_toIndexTokens members)))
  | not excluded included => .object (List.forall_mem_singleton.2 (.object
    (List.forall_mem_cons.2
      ⟨numberFree_toIndexToken excluded, List.forall_mem_singleton.2 (numberFree_toIndexToken included)⟩)))
  | fieldEquals field value =>
    .object (List.forall_mem_cons.2 ⟨.string field, List.forall_mem_singleton.2 (.string value)⟩)
  | fieldRange field lower upper => .object (List.forall_mem_cons.2 ⟨.string field, List.forall_mem_singleton.2 (.object
    (List.forall_mem_append.2 ⟨numberFree_boundMember _ lower, numberFree_boundMember _ upper⟩))⟩)
  | text words => .string words
  | wildcard => .object (List.forall_mem_singleton.2 (.string everyField))

theorem numberFree_toIndexTokens : (qs : List Query) → ∀ d ∈ toIndexTokens qs, d.NumberFree
  | [] => List.forall_mem_nil _
  | q :: qs => List.forall_mem_cons.2 ⟨numberFree_toIndexToken q, numberFree_toIndexTokens qs⟩

end

end Query

namespace OutputSettings

variable {settings : OutputSettings} {q q' : Query}

/-- The document of a query has no numbers. -/
theorem numberFree_document (settings : OutputSettings) (q : Query) : (settings.document q).NumberFree := by
  unfold document
  split
  · exact q.numberFree_toIndexToken
  · exact q.numberFree_toDocument.sorted

theorem document_inj (h : settings.document q = settings.document q') : q = q' := by
  unfold document at h
  split at h
  · exact Option.some.inj (by rw [← q.ofIndexToken?_toIndexToken, h, q'.ofIndexToken?_toIndexToken])
  · refine Option.some.inj ?_
    rw [← (Query.writtenAs_sorted q).query_reading, h, (Query.writtenAs_sorted q').query_reading]

/-- **The text of a query** is that of no other query. -/
theorem encode_document_inj :
    settings.encode (settings.document q) = settings.encode (settings.document q') ↔ q = q' := by
  constructor
  · intro h
    exact document_inj (Format.encode_inj (settings.numberFree_document q) (settings.numberFree_document q') h)
  · rintro rfl
    rfl

end OutputSettings

end SearchFilter
