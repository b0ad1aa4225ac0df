import SearchFilter.Query.Forms
import SearchFilter.Settings

/-!
# Every form of a query is read

* `lookup_of_perm` — a member is found under its key, whatever the order and whatever else there is.
* `Query.WrittenAs.query_reading` — what is written for a query reads as that query.
* `Query.ofDocument?_of_writtenAs` — so does the document that is written for output, which is one of the forms.
-/

namespace SearchFilter

/-! ## Members of objects -/

section

variable {β : Type} {ms known others : List (String × β)} {key : String} {x : β}

theorem mem_of_lookup (h : ms.lookup key = some x) : (key, x) ∈ ms := by
  obtain ⟨l, r, rfl, _⟩ := List.lookup_eq_some_iff.1 h
  exact List.mem_append_right l (.head r)

theorem lookup_of_mem (hn : (known.map Prod.fst).Nodup) (h : (key, x) ∈ known) : known.lookup key = some x := by
  induction known with
  | nil => cases h
  | cons m rest ih =>
    rw [List.map_cons, List.nodup_cons] at hn
    rcases List.mem_cons.1 h with rfl | h
    · exact List.lookup_cons_self
    · have hne : key ≠ m.1 := ne_of_mem_of_not_mem (List.mem_map.2 ⟨_, h, rfl⟩) hn.1
      rw [List.lookup_cons, beq_false_of_ne hne]
      exact ih hn.2 h

/-- Neither the order of the members nor those under other keys matter. -/
theorem lookup_of_perm (hp : ms.Perm (known ++ others)) (hn : (known.map Prod.fst).Nodup)
    (hk : ∀ m ∈ others, m.1 ≠ key) : ms.lookup key = known.lookup key := by
  have hmem (x : β) : (key, x) ∈ ms ↔ known.lookup key = some x := by
    rw [hp.mem_iff, List.mem_append]
    refine ⟨?_, fun h => .inl (mem_of_lookup h)⟩
    rintro (h | h)
    · exact lookup_of_mem hn h
    · exact absurd rfl (hk _ h)
  cases hl : ms.lookup key with
  | some x => exact ((hmem x).1 (mem_of_lookup hl)).symm
  | none =>
    cases hlk : known.lookup key with
    | none => rfl
    | some x =>
      have hne := List.lookup_eq_none_iff.1 hl _ ((hmem x).2 hlk)
      simp at hne

end

/-! ## Members that are present -/

variable {keys : List String} {fields : List (Option Document)}

theorem keys_present (keys : List String) (fields : List (Option Document)) :
    ((present keys fields).map Prod.fst).Sublist keys := by
  induction keys generalizing fields with
  | nil => exact List.nil_sublist _
  | cons key keys ih =>
    cases fields with
    | nil => exact List.nil_sublist _
    | cons field fields =>
      cases field with
      | none => exact (ih fields).cons key
      | some d => exact (ih fields).cons_cons key

/-- Under each key there is what is written for its field. -/
theorem map_lookup_present (hn : keys.Nodup) (hl : fields.length = keys.length) :
    keys.map (fun key => (present keys fields).lookup key) = fields := by
  induction keys generalizing fields with
  | nil => exact (List.length_eq_zero_iff.1 hl).symm
  | cons key keys ih =>
    obtain ⟨hnew, hn⟩ := List.nodup_cons.1 hn
    obtain ⟨field, fields, rfl⟩ := List.exists_cons_of_length_eq_add_one hl
    have hrest := ih hn (Nat.succ.inj hl)
    cases field with
    | none =>
      have hnone : (present keys fields).lookup key = none := by
        refine List.lookup_eq_none_iff.2 fun m hm => ?_
        have hkey := (keys_present keys fields).subset (List.mem_map.2 ⟨m, hm, rfl⟩)
        simpa using (ne_of_mem_of_not_mem hkey hnew).symm
      rw [List.map_cons, present, hnone, hrest]
    | some d =>
      have hother : ∀ k ∈ keys, ((key, d) :: present keys fields).lookup k = (present keys fields).lookup k := by
        intro k hk
        rw [List.lookup_cons, beq_false_of_ne (ne_of_mem_of_not_mem hk hnew)]
      rw [List.map_cons, present, List.lookup_cons_self, List.map_congr_left hother, hrest]

namespace Query

/-! ## Reading -/

variable {q : Query} {d : Document} {items : List Document} {members : List (String × Document)}

theorem lookup_readMembers (ms : List (String × Document)) (key : String) :
    (readMembers ms).lookup key = (ms.lookup key).map reading := by
  induction ms with
  | nil => rfl
  | cons m rest ih =>
    rw [readMembers, List.lookup_cons, List.lookup_cons, ih]
    cases key == m.1 <;> rfl

theorem readItems_eq_map (items : List Document) : readItems items = items.map reading := by
  induction items with
  | nil => rfl
  | cons d rest ih => rw [readItems, ih, List.map_cons]

theorem ofName?_name (kind : QueryKind) : QueryKind.ofName? kind.name = some kind := by cases kind <;> rfl

theorem nodup_keys (kind : QueryKind) : ("type" :: kind.fields).Nodup := by cases kind <;> decide

theorem FieldsAs.length_eq (h : FieldsAs q fields) : fields.length = q.kind.fields.length := by
  cases h with
  | group link => cases link <;> rfl
  | not | fieldEquals | fieldRange | text | wildcard => rfl

/-- Among the members of an object the kind and the fields are found under their keys. -/
theorem lookup_object {kind : QueryKind} {others : List (String × Document)}
    (hl : fields.length = kind.fields.length) (ho : ∀ m ∈ others, m.1 ∉ "type" :: kind.fields)
    (hp : members.Perm (("type", .string kind.name) :: present kind.fields fields ++ others)) :
    members.lookup "type" = some (.string kind.name) ∧ (kind.fields.map fun key => members.lookup key) = fields := by
  have hkeys := nodup_keys kind
  obtain ⟨htype, hfields⟩ := List.nodup_cons.1 hkeys
  have hnodup : ((("type", Document.string kind.name) :: present kind.fields fields).map Prod.fst).Nodup :=
    hkeys.sublist ((keys_present kind.fields fields).cons_cons "type")
  have hlookup {key : String} (hk : key ∈ "type" :: kind.fields) :
      members.lookup key = (("type", Document.string kind.name) :: present kind.fields fields).lookup key :=
    lookup_of_perm hp hnodup fun m hm he => ho m hm (he ▸ hk)
  refine ⟨(hlookup (.head _)).trans List.lookup_cons_self, ?_⟩
  have hfield : ∀ key ∈ kind.fields, members.lookup key = (present kind.fields fields).lookup key := by
    intro key hk
    rw [hlookup (.tail _ hk), List.lookup_cons, beq_false_of_ne (ne_of_mem_of_not_mem hk htype)]
  rw [List.map_congr_left hfield, map_lookup_present hfields hl]

/-- An object is read as its fields are. -/
theorem query_reading_object (htype : members.lookup "type" = some (.string q.kind.name))
    (h : ofFields? q.kind ((q.kind.fields.map fun key => members.lookup key).map (Option.map reading)) = some q) :
    (reading (.object members)).query = some q := by
  have hkind : (reading (.string q.kind.name)).kind? = some q.kind := ofName?_name q.kind
  rw [List.map_map] at h
  show ofMembers? (readMembers members) = some q
  simp only [ofMembers?, lookup_readMembers, htype, Option.map_some, Option.bind_eq_bind, Option.bind_some, hkind]
  exact h

/-- An array is read as its items are, and what is missing at the end. -/
theorem query_reading_array {missing : Nat} (hl : items.length + missing = q.kind.fields.length)
    (h : ofFields? q.kind ((items.map some ++ List.replicate missing none).map (Option.map reading)) = some q) :
    (reading (.array (.string q.kind.name :: items))).query = some q := by
  have hkind : (reading (.string q.kind.name)).kind? = some q.kind := ofName?_name q.kind
  have hmissing : q.kind.fields.length - items.length = missing := by omega
  have hle : items.length ≤ q.kind.fields.length := by omega
  rw [List.map_append, List.map_map, List.map_replicate] at h
  show ofItems? (readItems (.string q.kind.name :: items)) = some q
  simp only [readItems, ofItems?, hkind, Option.bind_eq_bind, Option.bind_some, readItems_eq_map, List.length_map,
    if_pos hle, hmissing, List.map_map]
  exact h

/-- A bound is read, whether it is missing or null. -/
theorem BoundAs.bound?_reading {bound : Option String} {field : Option Document} (h : BoundAs bound field) :
    Reading.bound? (field.map reading) = some bound := by
  cases h <;> rfl

mutual

/-- **What is written for a query** reads as that query. -/
theorem WrittenAs.query_reading : {q : Query} → {d : Document} → WrittenAs q d → (reading d).query = some q
  | _, _, .object hf ho hp => by
    obtain ⟨htype, hfields⟩ := lookup_object hf.length_eq ho hp
    exact query_reading_object htype (hfields ▸ hf.ofFields?_reading)
  | _, _, .array hf => by
    have hl := hf.length_eq
    rw [List.length_append, List.length_map, List.length_replicate] at hl
    exact query_reading_array hl hf.ofFields?_reading

theorem FieldsAs.ofFields?_reading : {q : Query} → {fields : List (Option Document)} → FieldsAs q fields →
    ofFields? q.kind (fields.map (Option.map reading)) = some q
  | _, _, .group link hs => by
    have h : (reading (.array _)).queries = _ := hs.queries_reading
    cases link <;> simp [kind, Connective.kind, ofFields?, h]
  | _, _, .not he hi => by simp [kind, ofFields?, he.query_reading, hi.query_reading]
  | _, _, .fieldEquals field value => rfl
  | _, _, .fieldRange field hl hu => by
    simp [kind, ofFields?, hl.bound?_reading, hu.bound?_reading, reading]
  | _, _, .text words => rfl
  | _, _, .wildcard => rfl

theorem AllWrittenAs.queries_reading : {qs : List Query} → {ds : List Document} → AllWrittenAs qs ds →
    (reading (.array ds)).queries = some qs
  | _, _, .nil => rfl
  | _, _, .cons h hs => by
    have hrest := hs.queries_reading
    simp only [reading] at hrest
    simp [reading, readItems, h.query_reading, hrest]

end

/-! ## The document that is written -/

theorem sortedMembers_perm (ms : List (String × Document)) :
    (Document.sortedMembers ms).Perm (ms.map fun m => (m.1, m.2.sorted)) := by
  induction ms with
  | nil => exact .refl _
  | cons m rest ih => exact (insertByKey_perm _ _).trans (ih.cons _)

/-- An object with its keys in order is one of the forms. -/
theorem writtenAs_sorted_ofKind {ms : List (String × Document)} (hf : FieldsAs q fields)
    (hms : ms.map (fun m => (m.1, m.2.sorted)) = present q.kind.fields fields) :
    WrittenAs q (ofKind q.kind ms).sorted := by
  have hperm := sortedMembers_perm (("type", .string q.kind.name) :: ms)
  rw [List.map_cons, hms, ← List.append_nil (_ :: present q.kind.fields fields)] at hperm
  exact .object hf (fun _ h => absurd h List.not_mem_nil) hperm

mutual

theorem writtenAs_sorted : (q : Query) → WrittenAs q q.toDocument.sorted
  | group link members => by
    refine writtenAs_sorted_ofKind (.group link (allWrittenAs_sorted members)) ?_
    cases link <;> rfl
  | not excluded included => writtenAs_sorted_ofKind (.not (writtenAs_sorted excluded) (writtenAs_sorted included)) rfl
  | fieldEquals field value => writtenAs_sorted_ofKind (.fieldEquals field value) rfl
  | fieldRange field none none => writtenAs_sorted_ofKind (.fieldRange field .missing .missing) rfl
  | fieldRange field none (some upper) => writtenAs_sorted_ofKind (.fieldRange field .missing (.value upper)) rfl
  | fieldRange field (some lower) none => writtenAs_sorted_ofKind (.fieldRange field (.value lower) .missing) rfl
  | fieldRange field (some lower) (some upper) =>
    writtenAs_sorted_ofKind (.fieldRange field (.value lower) (.value upper)) rfl
  | text words => writtenAs_sorted_ofKind (.text words) rfl
  | wildcard => writtenAs_sorted_ofKind .wildcard rfl

theorem allWrittenAs_sorted : (qs : List Query) → AllWrittenAs qs (Document.sortedItems (toDocuments qs))
  | [] => .nil
  | q :: qs => .cons (writtenAs_sorted q) (allWrittenAs_sorted qs)

end

/-! ## Decoding -/

/-- The outermost kind is given by name. -/
theorem WrittenAs.namesKind (h : WrittenAs q d) : namesKind d = true := by
  cases h with
  | object hf ho hp =>
    show namesKind.namesIt (List.lookup "type" _) = true
    rw [(lookup_object hf.length_eq ho hp).1]
    rfl
  | array => rfl

/-- **Every form of a query decodes to it.** What is written for output, unless as an index token, is one of the forms.
-/
theorem ofDocument?_of_writtenAs (q : Query) :
    (∀ settings : OutputSettings, settings.token = false →
      WrittenAs q (settings.document q) ∧ ofDocument? (settings.document q) = some q) ∧
    ∀ d, WrittenAs q d → ofDocument? d = some q := by
  have hdecode {d : Document} (h : WrittenAs q d) : ofDocument? d = some q := by
    rw [ofDocument?, if_pos h.namesKind, h.query_reading]
  refine ⟨fun settings htoken => ?_, fun d h => hdecode h⟩
  have hdocument : settings.document q = q.toDocument.sorted := by simp [OutputSettings.document, htoken]
  rw [hdocument]
  exact ⟨writtenAs_sorted q, hdecode (writtenAs_sorted q)⟩

/-- An array in an object in an array, with another member, a bound that is null and one that is missing. -/
theorem ofDocument?_of_writtenAs_mixed :
    let q : Query := .group .or [.not (.fieldRange "price" none (some "5")) .wildcard, .fieldRange "size" none none]
    let price : Document := .array [.string "field_range", .string "price", .null, .string "5"]
    let size : Document :=
      .object [("upper_inclusive", .null), ("field", .string "size"), ("type", .string "field_range")]
    let negation : Document := .object [("field", .number 1 0), ("include", .array [.string "wildcard"]),
      ("exclude", price), ("type", .string "not")]
    let d : Document := .array [.string "or", .array [negation, size]]
    WrittenAs q d ∧ ofDocument? d = some q ∧
      ofDocument? (({ flatten := true } : OutputSettings).document q) = some q := by
  intro q price size negation d
  have hprice : WrittenAs (.fieldRange "price" none (some "5")) price := by
    have h : FieldsAs (.fieldRange "price" none (some "5"))
        ([.string "price", .null, .string "5"].map some ++ .replicate 0 none) := .fieldRange "price" .null (.value "5")
    exact .array h
  have hsize : WrittenAs (.fieldRange "size" none none) size :=
    @WrittenAs.object _ _ _ [] (.fieldRange "size" .missing .null) (fun _ h => absurd h List.not_mem_nil) <|
      List.reverse_perm [("type", Document.string "field_range"), ("field", Document.string "size"),
        ("upper_inclusive", Document.null)]
  have hwildcard : WrittenAs .wildcard (.array [.string "wildcard"]) := by
    have h : FieldsAs .wildcard ([].map some ++ .replicate 0 none) := .wildcard
    exact .array h
  have hnegation : WrittenAs (.not (.fieldRange "price" none (some "5")) .wildcard) negation :=
    @WrittenAs.object _ _ _ [("field", .number 1 0)] (.not hprice hwildcard) (by simp [kind, QueryKind.fields]) <|
      List.reverse_perm [("type", Document.string "not"), ("exclude", price), ("include", .array [.string "wildcard"]),
        ("field", .number 1 0)]
  have hd : WrittenAs q d := by
    have h : FieldsAs q ([.array [negation, size]].map some ++ .replicate 0 none) :=
      .group .or (.cons hnegation (.cons hsize .nil))
    exact .array h
  obtain ⟨hdocument, hforms⟩ := ofDocument?_of_writtenAs q
  exact ⟨hd, hforms d hd, (hdocument _ rfl).2⟩

end Query

end SearchFilter
