import Mathlib
import SearchFilter.Proofs.DistinctKeys
import SearchFilter.Proofs.WrittenTexts
import SearchFilter.Run

/-!
# Batches and single requests

A batch writes, under the name of each request that has a query, what a run for that request alone writes, and counts
the requests that have none. What the other requests are does not matter, and the text that is written stands for no
other members. A run without a batch that fails writes nothing.

* `Request.document` — what is written for a request.
* `Batch.members` — what is written for a batch, and `Batch.mem_members_iff`, its members one by one.
* `Outcome.Agrees` — the outcome of a batch, in terms of its requests.
* `outcome_agrees` — the outcomes of all runs.
-/

namespace SearchFilter

/-! ## One request -/

namespace Request

variable {settings settings' : OutputSettings} {request : Request}

/-- What is written for a request. -/
def document (settings : OutputSettings) (request : Request) : Except QueryError Document :=
  (request.toQueryWith settings.flatten).map settings.document

/-- The format does not matter for it. -/
theorem document_congr (ht : settings.token = settings'.token) (hf : settings.flatten = settings'.flatten) :
    request.document settings = request.document settings' := by
  have hdocument : settings.document = settings'.document := by
    funext q
    rw [OutputSettings.document, OutputSettings.document, ht]
  rw [document, document, hf, hdocument]

theorem document_eq_ok_iff {d : Document} : request.document settings = .ok d ↔
    ∃ q, request.toQueryWith settings.flatten = .ok q ∧ settings.document q = d := by
  rw [document]
  cases request.toQueryWith settings.flatten <;> simp [Except.map]

theorem exists_document_iff : (∃ d, request.document settings = .ok d) ↔ ∃ q, request.toQuery = .ok q := by
  rw [document, toQueryWith]
  cases request.toQuery <;> simp [Except.map]

end Request

namespace Options

/-- A run without a batch writes what is written for the request of its arguments. -/
theorem outcome_of_request {o : Options} (hr : o.requests = none) (ho : o.outline = false) (batchText : Option String) :
    o.outcome batchText = match o.request.document (o.settings {}) with
      | .ok d => .success ((o.settings {}).encode d)
      | .error e => .failed (.compile e) := by
  simp only [outcome, hr, ho, requestOutcome, Request.document]
  cases o.request.toQueryWith (o.settings {}).flatten <;> rfl

/-- A failing run without a batch writes nothing. -/
theorem written_of_failure {o : Options} {batchText : Option String} {e : RunError} (hr : o.requests = none)
    (h : (o.outcome batchText).failure = some e) : (o.outcome batchText).written = none := by
  cases ho : o.outline with
  | false =>
    rw [outcome_of_request hr ho] at h ⊢
    cases hd : o.request.document (o.settings {}) with
    | ok d => rw [hd] at h; cases h
    | error e => rfl
  | true =>
    simp only [outcome, hr, ho, if_true, outlineOutcome] at h ⊢
    cases hf : o.request.filters with
    | none => rfl
    | some filters =>
      simp only [hf] at h ⊢
      cases hp : Filter.parse filters.toFilter with
      | ok f => rw [hp] at h; cases h
      | error e => rfl

end Options

/-! ## The requests of a batch -/

namespace Batch

variable {settings : OutputSettings} {batch : Batch}

/-- What is written for a batch, by name. -/
def members (settings : OutputSettings) (batch : Batch) : List (String × Document) :=
  (batch.compile settings.flatten).filterMap (·.member? settings)

/-- The number of requests that have no query. -/
def failures (batch : Batch) : Nat := batch.requests.countP fun m => !m.2.toQuery.isOk

theorem member?_eq (settings : OutputSettings) (name : String) (request : Request) :
    CompiledRequest.member? settings ⟨name, request.toQueryWith settings.flatten⟩ =
      (request.document settings).toOption.map (name, ·) := by
  rw [CompiledRequest.member?, Request.document]
  cases request.toQueryWith settings.flatten <;> rfl

/-- Requests are written one by one. -/
theorem members_eq (settings : OutputSettings) (batch : Batch) : batch.members settings =
    (sortByKey batch.requests).filterMap fun m => (m.2.document settings).toOption.map (m.1, ·) := by
  rw [members, compile, List.filterMap_map]
  congr 1
  funext m
  exact member?_eq settings m.1 m.2

/-- **What stands under a name** is written for a request of that name. -/
theorem mem_members_iff {name : String} {d : Document} : (name, d) ∈ batch.members settings ↔
    ∃ request, (name, request) ∈ batch.requests ∧ request.document settings = .ok d := by
  rw [members_eq, List.mem_filterMap]
  constructor
  · rintro ⟨⟨name, request⟩, hm, hd⟩
    cases hdocument : request.document settings with
    | ok d =>
      rw [hdocument] at hd
      cases hd
      exact ⟨request, (sortByKey_perm batch.requests).mem_iff.1 hm, hdocument⟩
    | error e =>
      rw [hdocument] at hd
      cases hd
  · rintro ⟨request, hm, hd⟩
    refine ⟨(name, request), (sortByKey_perm batch.requests).mem_iff.2 hm, ?_⟩
    rw [hd]
    rfl

/-- What is written has no numbers. -/
theorem numberFree_members (settings : OutputSettings) (batch : Batch) :
    ∀ m ∈ batch.members settings, m.2.NumberFree := by
  intro m hm
  obtain ⟨request, _, hdocument⟩ := mem_members_iff.1 hm
  obtain ⟨q, _, hq⟩ := Request.document_eq_ok_iff.1 hdocument
  rw [← hq]
  exact settings.numberFree_document q

theorem names_members (settings : OutputSettings) (batch : Batch) :
    ((batch.members settings).map Prod.fst).Sublist ((sortByKey batch.requests).map Prod.fst) := by
  rw [members_eq]
  induction sortByKey batch.requests with
  | nil => exact .slnil
  | cons m rest ih =>
    rw [List.filterMap_cons]
    cases m.2.document settings with
    | ok d => exact ih.cons_cons m.1
    | error e => exact ih.cons m.1

/-- Names that are distinct in a batch stay so in what is written for it. -/
theorem nodup_members (h : (batch.requests.map Prod.fst).Nodup) : ((batch.members settings).map Prod.fst).Nodup :=
  ((((sortByKey_perm batch.requests).map Prod.fst).nodup_iff).2 h).sublist (names_members settings batch)

theorem countP_compile (flatten : Bool) (batch : Batch) :
    (batch.compile flatten).countP (·.hasFailed) = batch.failures := by
  have hfailed (m : String × Request) :
      CompiledRequest.hasFailed ⟨m.1, m.2.toQueryWith flatten⟩ = !m.2.toQuery.isOk := by
    rw [CompiledRequest.hasFailed, Request.toQueryWith]
    cases m.2.toQuery <;> rfl
  rw [compile, List.countP_map, failures, ← (sortByKey_perm batch.requests).countP_eq]
  congr 1
  funext m
  exact hfailed m

theorem failures_eq_zero_iff : batch.failures = 0 ↔ ∀ m ∈ batch.requests, ∃ q, m.2.toQuery = .ok q := by
  rw [failures, List.countP_eq_zero]
  refine forall₂_congr fun m _ => ?_
  cases m.2.toQuery <;> simp [Except.isOk, Except.toBool]

end Batch

/-! ## Runs -/

/-- The outcome of a batch of `requests`, written with `settings` as one object of `members`. -/
structure Outcome.Agrees (outcome : Outcome) (settings : OutputSettings) (requests : List (String × Request))
    (members : List (String × Document)) : Prop where
  /-- Written whether requests fail or not. -/
  written : outcome.written = some (settings.encode (.object members))
  /-- The text is that of no other members. -/
  determined : ∀ ms, (∀ m ∈ ms, m.2.NumberFree) → outcome.written = some (settings.encode (.object ms)) → ms = members
  nodup : (members.map Prod.fst).Nodup
  /-- The names are those of the requests that have a query. -/
  names : ∀ name, name ∈ members.map Prod.fst ↔ ∃ request q, (name, request) ∈ requests ∧ request.toQuery = .ok q
  /-- Under a name stands what is written for the request of that name. -/
  document : ∀ name d request, (name, d) ∈ members → (name, request) ∈ requests → request.document settings = .ok d
  /-- A run for that request alone, with the same settings, writes the same in its own format. -/
  single : ∀ name d request, (name, d) ∈ members → (name, request) ∈ requests → ∀ o : Options, o.requests = none →
    o.outline = false → o.request = request → (o.settings {}).token = settings.token →
    (o.settings {}).flatten = settings.flatten → ∀ batchText, o.outcome batchText = .success ((o.settings {}).encode d)
  succeeds : outcome.failure = none ↔ ∀ m ∈ requests, ∃ q, m.2.toQuery = .ok q
  /-- A failure tells how many requests have no query, and how many there are. -/
  counts : ∀ e, outcome.failure = some e → e = .batch (requests.countP fun m => !m.2.toQuery.isOk) requests.length

theorem Options.failure_batchOutcome (o : Options) (file : BatchFile) : (o.batchOutcome file).failure =
    if file.batch.failures = 0 then none else some (.batch file.batch.failures file.batch.requests.length) := by
  have hlength : (file.batch.compile (o.settings file.output).flatten).length = file.batch.requests.length := by
    rw [Batch.compile, List.length_map, (sortByKey_perm file.batch.requests).length_eq]
  rw [batchOutcome, Batch.countP_compile, hlength]

/-- In a batch whose requests have different names, what stands under a name is written for the request of that name. -/
theorem Batch.document_of_mem_members {settings : OutputSettings} {batch : Batch} {name : String} {d : Document}
    {request : Request} (h : (batch.requests.map Prod.fst).Nodup) (hd : (name, d) ∈ batch.members settings)
    (hrequest : (name, request) ∈ batch.requests) : request.document settings = .ok d := by
  obtain ⟨request', hrequest', hdocument⟩ := Batch.mem_members_iff.1 hd
  cases List.inj_on_of_nodup_map h hrequest' hrequest rfl
  exact hdocument

/-- The outcome of a batch whose requests have different names. -/
theorem Options.batchOutcome_agrees (o : Options) {file : BatchFile} (h : (file.batch.requests.map Prod.fst).Nodup) :
    (o.batchOutcome file).Agrees (o.settings file.output) file.batch.requests
      (file.batch.members (o.settings file.output)) where
  written := rfl
  determined ms hms h := by
    have hobject := Format.encode_inj (.object (Batch.numberFree_members _ file.batch)) (.object hms)
      (Option.some.inj h)
    exact (Document.object.inj hobject).symm
  nodup := Batch.nodup_members h
  names name := by
    constructor
    · intro hname
      obtain ⟨⟨name, d⟩, hd, rfl⟩ := List.mem_map.1 hname
      obtain ⟨request, hrequest, hdocument⟩ := Batch.mem_members_iff.1 hd
      obtain ⟨q, hq⟩ := Request.exists_document_iff.1 ⟨d, hdocument⟩
      exact ⟨request, q, hrequest, hq⟩
    · rintro ⟨request, q, hrequest, hq⟩
      obtain ⟨d, hd⟩ := Request.exists_document_iff.2 ⟨q, hq⟩
      exact List.mem_map.2 ⟨(name, d), Batch.mem_members_iff.2 ⟨request, hrequest, hd⟩, rfl⟩
  document name d request hd hrequest := Batch.document_of_mem_members h hd hrequest
  single name d request hd hrequest single hr ho heq ht hf batchText := by
    have hdocument : single.request.document (single.settings {}) = .ok d := by
      rw [heq, Request.document_congr ht hf, Batch.document_of_mem_members h hd hrequest]
    rw [Options.outcome_of_request hr ho, hdocument]
  succeeds := by
    rw [Options.failure_batchOutcome, ← Batch.failures_eq_zero_iff]
    split <;> simp_all
  counts e he := by
    rw [Options.failure_batchOutcome] at he
    split at he
    · cases he
    · cases he
      rfl

/-- The outcome of a run for the batch that a text holds, whatever the file is called. -/
theorem Options.outcome_of_batch {o : Options} {path text : String} {file : BatchFile} (hr : o.requests = some path)
    (hfile : BatchFile.ofText? text = some file) : o.outcome (some text) = o.batchOutcome file := by
  simp only [outcome, hr, Option.bind_some, hfile]

/-- **The outcome of a run.** A batch whose requests have different names writes what the runs for its requests alone
write, and fails if one of them does, wherever the batch comes from. So does a batch file, whose path does not matter. A
run without a batch that fails writes nothing. -/
theorem outcome_agrees :
    (∀ (o : Options) (file : BatchFile), (file.batch.requests.map Prod.fst).Nodup →
      ∃ members, (o.batchOutcome file).Agrees (o.settings file.output) file.batch.requests members) ∧
    (∀ (o : Options) (path text : String) (file : BatchFile), o.requests = some path →
      BatchFile.ofText? text = some file →
        ∃ members, (o.outcome (some text)).Agrees (o.settings file.output) file.batch.requests members) ∧
    ∀ (o : Options) (batchText : Option String) (e : RunError), o.requests = none →
      (o.outcome batchText).failure = some e → (o.outcome batchText).written = none := by
  refine ⟨?batch, ?file, ?single⟩
  case batch => exact fun o file hnames => ⟨_, o.batchOutcome_agrees hnames⟩
  case file =>
    intro o path text file hr hfile
    rw [Options.outcome_of_batch hr hfile]
    exact ⟨_, o.batchOutcome_agrees (BatchFile.names_nodup hfile)⟩
  case single => exact fun o batchText e hr he => Options.written_of_failure hr he

/-- One request of two fails and is reported; the other one is written as it is alone. Nor does the order of the
requests matter. -/
theorem outcome_agrees_one_failed :
    (∃ members, (Options.batchOutcome {}
      ⟨⟨[("h", ⟨none, some (.one "b")⟩), ("g", ⟨none, some (.one "a:1")⟩)]⟩, {}⟩).Agrees {}
        [("h", ⟨none, some (.one "b")⟩), ("g", ⟨none, some (.one "a:1")⟩)] members) ∧
    (∃ members d, (Options.outcome { requests := some "batch.yaml", token := true }
      (some "requests: \x7bg: \x7bfilters: a:1\x7d, h: \x7bfilters: b\x7d\x7d")).Agrees { token := true }
        [("g", ⟨none, some (.one "a:1")⟩), ("h", ⟨none, some (.one "b")⟩)] members ∧ ("g", d) ∈ members ∧
      Options.outcome { filters := ["a:1"], token := true, format := some .yaml } none =
        .success (Format.yaml.encode d)) ∧
    (Options.outcome { filters := ["a:"] } none).written = none := by
  have hfile : BatchFile.ofText? "requests: \x7bg: \x7bfilters: a:1\x7d, h: \x7bfilters: b\x7d\x7d" =
      some ⟨⟨[("g", ⟨none, some (.one "a:1")⟩), ("h", ⟨none, some (.one "b")⟩)]⟩, {}⟩ := by decide +kernel
  have hquery : Request.toQuery ⟨none, some (.one "a:1")⟩ = .ok (.fieldEquals "a" "1") := by cbv
  have hfailure : (Options.outcome { filters := ["a:"] } none).failure = some (.compile (.malformed (.locate
      (.unexpected [.token .boolean, .token .null, .token .number, .token .text]) "a:".toList 2))) := by cbv
  obtain ⟨members, hagrees⟩ :=
    outcome_agrees.2.1 { requests := some "batch.yaml", token := true } "batch.yaml" _ _ rfl hfile
  obtain ⟨⟨name, d⟩, hd, rfl⟩ := List.mem_map.1 ((hagrees.names "g").2 ⟨_, _, .head _, hquery⟩)
  have hsingle := hagrees.single _ d _ hd (.head _) { filters := ["a:1"], token := true, format := some .yaml }
    rfl rfl rfl rfl rfl
  exact ⟨outcome_agrees.1 _ _ (by decide), ⟨members, d, hagrees, hd, hsingle none⟩,
    outcome_agrees.2.2 _ none _ rfl hfailure⟩

end SearchFilter
