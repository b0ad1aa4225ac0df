import Mathlib.Data.List.Nodup
import SearchFilter.BatchFile

/-!
# Distinct keys

The members of a batch file are put over one another, so that no object in it has two members of one key, whatever the
text was. Each request of a batch file has a name of its own.

* `Document.DistinctKeys` — no object has two members of one key.
* `Document.distinctKeys_ofPaths` — documents that are made of paths.
* `BatchFile.names_nodup` — the requests of a batch file.
-/

namespace SearchFilter

namespace Document

/-- The members of the document, if it is an object, have different keys, and so on in the members. -/
inductive DistinctKeys : Document → Prop
  | intro {d : Document} (nodup : (d.members.map Prod.fst).Nodup) (each : ∀ m ∈ d.members, DistinctKeys m.2) :
    DistinctKeys d

/-- Members that an object of distinct keys may have. -/
structure DistinctMembers (ms : List (String × Document)) : Prop where
  nodup : (ms.map Prod.fst).Nodup
  each : ∀ m ∈ ms, m.2.DistinctKeys

theorem DistinctKeys.members {d : Document} : d.DistinctKeys → DistinctMembers d.members
  | .intro nodup each => ⟨nodup, each⟩

theorem DistinctMembers.distinctKeys {ms : List (String × Document)} (h : DistinctMembers ms) :
    (object ms).DistinctKeys :=
  .intro h.nodup h.each

/-- A document that is no object. -/
theorem distinctKeys_of_members {d : Document} (h : d.members = []) : d.DistinctKeys := by
  constructor
  · rw [h]
    exact List.nodup_nil
  · rw [h]
    nofun

/-! ## Changing members -/

section

variable {key : String} {f : Document → Document} {ms : List (String × Document)}

theorem keys_alterMember (key : String) (f : Document → Document) (ms : List (String × Document)) :
    (alterMember key f ms).map Prod.fst =
      if key ∈ ms.map Prod.fst then ms.map Prod.fst else ms.map Prod.fst ++ [key] := by
  induction ms with
  | nil => rfl
  | cons m rest ih =>
    rw [alterMember]
    split
    · next heq => simp [heq]
    · next hne =>
      have hmem : key ∈ (m :: rest).map Prod.fst ↔ key ∈ rest.map Prod.fst := by simp [Ne.symm hne]
      rw [List.map_cons, ih]
      by_cases hk : key ∈ rest.map Prod.fst
      · rw [if_pos hk, if_pos (hmem.2 hk), List.map_cons]
      · rw [if_neg hk, if_neg (mt hmem.1 hk), List.map_cons, List.cons_append]

/-- A changed member, or one that was there before. -/
theorem mem_alterMember {m : String × Document} (h : m ∈ alterMember key f ms) :
    m ∈ ms ∨ m.2 = f null ∨ ∃ m' ∈ ms, m.2 = f m'.2 := by
  induction ms with
  | nil =>
    obtain rfl := List.mem_singleton.1 h
    exact .inr (.inl rfl)
  | cons m' rest ih =>
    rw [alterMember] at h
    split at h
    · rcases List.mem_cons.1 h with rfl | h
      · exact .inr (.inr ⟨m', .head _, rfl⟩)
      · exact .inl (.tail _ h)
    · rcases List.mem_cons.1 h with rfl | h
      · exact .inl (.head _)
      · rcases ih h with h | h | ⟨m'', hm, h⟩
        · exact .inl (.tail _ h)
        · exact .inr (.inl h)
        · exact .inr (.inr ⟨m'', .tail _ hm, h⟩)

theorem DistinctMembers.alterMember (h : DistinctMembers ms) (hf : ∀ d, DistinctKeys d → DistinctKeys (f d)) :
    DistinctMembers (alterMember key f ms) where
  nodup := by
    rw [keys_alterMember]
    split
    · exact h.nodup
    · next hnew => exact List.nodup_append'.2 ⟨h.nodup, List.nodup_singleton key, by simpa using hnew⟩
  each m hm := by
    rcases mem_alterMember hm with hm | hm | ⟨m', hm', hm⟩
    · exact h.each m hm
    · rw [hm]
      exact hf null (distinctKeys_of_members rfl)
    · rw [hm]
      exact hf m'.2 (h.each m' hm')

end

/-! ## Merging -/

mutual

/-- Whatever is put over a document of distinct keys, even if its own keys are not: its members go in one by one. -/
theorem distinctKeys_merge {before : Document} (h : before.DistinctKeys) : ∀ d, (merge before d).DistinctKeys
  | object members => (distinctMembers_mergeMembers h.members members).distinctKeys
  | null | boolean _ | number _ _ | string _ | array _ => distinctKeys_of_members rfl

theorem distinctMembers_mergeMembers {before : List (String × Document)} (h : DistinctMembers before) :
    ∀ ms, DistinctMembers (mergeMembers before ms)
  | [] => h
  | (_, d) :: rest =>
    distinctMembers_mergeMembers (h.alterMember fun _ hbefore => distinctKeys_merge hbefore d) rest

end

theorem distinctKeys_alter {f : Document → Document} (hf : ∀ d, DistinctKeys d → DistinctKeys (f d))
    (path : List Step) : ∀ d, DistinctKeys d → DistinctKeys (alter f path d) := by
  induction path with
  | nil => exact hf
  | cons step path ih =>
    intro d hd
    cases step with
    | key name => exact (hd.members.alterMember ih).distinctKeys
    | index i => exact distinctKeys_of_members rfl

/-- **Documents that are made of paths** have distinct keys. -/
theorem distinctKeys_ofPaths (ms : List (String × Document)) : (ofPaths ms).DistinctKeys := by
  -- by induction on the members, with any document of distinct keys in place of the empty one
  have key (ms : List (String × Document)) : ∀ d : Document, d.DistinctKeys →
      (ms.foldl (fun d m => d.alter (merge · m.2) (stepsOf m.1)) d).DistinctKeys := by
    induction ms with
    | nil => exact fun d hd => hd
    | cons m ms ih =>
      intro d hd
      exact ih _ (distinctKeys_alter (fun _ hbefore => distinctKeys_merge hbefore m.2) (stepsOf m.1) d hd)
  exact key ms (object []) (DistinctMembers.distinctKeys ⟨List.nodup_nil, nofun⟩)

theorem DistinctMembers.of_lookup {key : String} {d : Document} {ms : List (String × Document)} (h : DistinctMembers ms)
    (hd : ms.lookup key = some d) : d.DistinctKeys := by
  obtain ⟨before, after, rfl, _⟩ := List.lookup_eq_some_iff.1 hd
  exact h.each (key, d) (List.mem_append_right _ (.head _))

end Document

/-! ## Names of requests -/

theorem Batch.names_of_mapM {surplus : Surplus} {requests : List (String × Request)} {ms : List (String × Document)}
    (h : (ms.mapM fun m => (Request.ofDocument? m.2 surplus).map (m.1, ·)) = some requests) :
    requests.map Prod.fst = ms.map Prod.fst := by
  induction ms generalizing requests with
  | nil =>
    cases h
    rfl
  | cons m rest ih =>
    rw [List.mapM_cons] at h
    simp only [Option.bind_eq_bind, Option.bind_eq_some_iff, Option.map_eq_some_iff, Option.pure_def] at h
    obtain ⟨_, ⟨request, _, rfl⟩, others, hothers, hall⟩ := h
    cases hall
    rw [List.map_cons, List.map_cons, ih hothers]

/-- The names of a batch are the keys of its document. -/
theorem Batch.names_of_ofDocument? {d : Document} {surplus : Surplus} {batch : Batch}
    (h : Batch.ofDocument? d surplus = some batch) : batch.requests.map Prod.fst = d.members.map Prod.fst := by
  cases d with
  | object ms =>
    obtain ⟨requests, hrequests, rfl⟩ := Option.map_eq_some_iff.1 h
    exact Batch.names_of_mapM hrequests
  | _ => cases h

/-- A document of distinct keys is read as a batch of distinct names. -/
theorem BatchFile.names_of_ofDocument? {d : Document} {file : BatchFile} (hd : d.DistinctKeys)
    (h : BatchFile.ofDocument? d = some file) : (file.batch.requests.map Prod.fst).Nodup := by
  cases d with
  | object ms =>
    simp only [BatchFile.ofDocument?, Option.bind_eq_bind, Option.bind_eq_some_iff, Option.pure_def] at h
    obtain ⟨requests, hrequests, batch, hbatch, output, _, hfile⟩ := h
    cases hfile
    rw [Batch.names_of_ofDocument? hbatch]
    exact (hd.members.of_lookup hrequests).members.nodup
  | _ => cases h

/-- **Every request of a batch file** has a name of its own. -/
theorem BatchFile.names_nodup {text : String} {file : BatchFile} (h : BatchFile.ofText? text = some file) :
    (file.batch.requests.map Prod.fst).Nodup := by
  simp only [BatchFile.ofText?, Option.bind_eq_bind, Option.bind_eq_some_iff] at h
  obtain ⟨node, _, d, _, h⟩ := h
  cases d with
  | object ms => exact BatchFile.names_of_ofDocument? (Document.distinctKeys_ofPaths ms) h
  | _ => cases h

end SearchFilter
