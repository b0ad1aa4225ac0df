import SearchFilter.Proofs.ErrorLocations
import SearchFilter.Proofs.Offsets.Calls

/-!
# The discipline of the machine

At every call that is made while a text is read the machine stands at a place of the text, with a log that holds what
the grammar misses unless the nesting limit was passed (`Fit`). So the call comes to its end, and goes back or has moved
on.

* `Trusted`, `Tracked` — what the machine remembers is true, and where it stands.
* `Accords` — a step of the machine that mirrors an attempt and keeps to the grammar.
* `Fit.leaves`, `Fit.makes` — how a call ends, and the calls within it.
* `reached_disciplined` — every call of every text is disciplined.
-/

namespace SearchFilter

open Grammar (full)

variable {text : List Char}

/-! ## Chains follow the grammar -/

/-- Unless the nesting limit was passed, the log is that of the misses so far. -/
def Log.Faithful (text : List Char) (log : Log) : Prop := log.overflow = none → ∃ ms, log.Tracks text ms

theorem Attempt.Follows.faithful {α β : Type} {x : Attempt β} {t : Grammar.Trial α} {f : α → β} {log : Log}
    (h : x.Follows text t f) (hl : log.Faithful text) : (x log).2.Faithful text := by
  intro ho
  obtain ⟨ms, hms⟩ := hl (h.sticky.eq_none ho)
  exact ⟨_, (h.agrees log ms hms ho).2⟩

theorem Cursor.Of.length_le {c : Cursor} (h : c.Of text) : c.rest.length ≤ text.length := by
  rw [show c.rest = text.drop c.index from h]
  simp

namespace Rule

open Attempt

variable {inner : Rule Filter} {c : Cursor}

/-- The rest of a chain follows what continues a statement of the grammar. -/
theorem follows_links (hs : ∀ d, (inner d).Sticky) (hi : ∀ d, d.Of text → (inner d).Follows text (full d) ofStatement)
    {n : Nat} (last : Filter) (earlier : List (Filter × Connective)) (hc : c.Of text) (hf : c.rest.length ≤ n) :
    (links inner (n + 1) last earlier c).Follows text (Grammar.continuation c) fun (next, d) =>
      (next.elim (joinAll last earlier) fun (link, s) => joinAll s.toFilter ((last, link) :: earlier), d) := by
  rw [links_succ]
  refine Follows.orElse ((records_connective c).bind_follows fun ⟨link, d⟩ hd => ?_) (Records.follows fun _ => rfl)
  have hr := (Grammar.readsPlain_connective hd).reads
  have hlt := hr.length_lt
  have hoperands := follows_operands hs (fun e he _ => hi e he) n ((last, link) :: earlier) d (hc.reads hr) (by omega)
    (Nat.le_refl _)
  exact Follows.map_trial (fun p : Grammar.Statement × Cursor => (some (link, p.1), p.2)) hoperands

/-- A chain follows an expression of the grammar and what continues it. -/
theorem follows_chain (hs : ∀ d, (inner d).Sticky) (hi : ∀ d, d.Of text → (inner d).Follows text (full d) ofStatement)
    {fuel : Nat} (hc : c.Of text) (hf : c.rest.length ≤ fuel) : (chain fuel inner c).Follows text
      (do let (left, d) ← Grammar.expression full c; let (next, e) ← Grammar.continuation d; return (left, next, e))
      fun (left, next, e) =>
        (next.elim left.toFilter fun (link, s) => joinAll s.toFilter [(left.toFilter, link)], e) := by
  refine (follows_expression hc hs fun d hd _ => hi d hd).bind (fun (f, d) => sticky_links hs fuel f [] d) ?_
  intro ⟨left, d⟩ h
  have hr := Grammar.reads_expression Grammar.reads_full h
  have hlt := hr.length_lt
  obtain ⟨n, rfl⟩ : ∃ n, fuel = n + 1 := ⟨fuel - 1, by omega⟩
  have hlinks := follows_links hs hi left.toFilter [] (hc.reads hr) (n := n) (by omega)
  exact Follows.map_trial (fun p : Option (Connective × Grammar.Statement) × Cursor => (left, p.1, p.2)) hlinks

end Rule

namespace Offsets

variable {depth k : Nat} {c d : Cursor} {log log' : Log} {s t : State} {p q : Point}

/-! ## Offsets -/

/-- Characters take bytes. -/
theorem bytesAt_add_le {i j : Nat} (h : i + k ≤ j) (hj : j ≤ text.length) : bytesAt text i + k ≤ bytesAt text j := by
  induction k generalizing i with
  | zero =>
    rcases Nat.lt_or_eq_of_le h with hlt | rfl
    · exact Nat.le_of_lt (bytesAt_lt hlt hj)
    · exact Nat.le_refl _
  | succ k ih =>
    have hnext : bytesAt text i < bytesAt text (i + 1) := bytesAt_lt (Nat.lt_succ_self i) (by omega)
    have hrest := ih (i := i + 1) (by omega)
    omega

theorem bytesAt_le {i : Nat} (hi : i ≤ text.length) : bytesAt text i ≤ byteLength text := by
  have h := bytesAt_add_le (k := 0) hi (Nat.le_refl _)
  rwa [bytesAt, bytesAt, List.take_length] at h

/-! ## What the machine remembers -/

/-- What the machine remembers is what a log does, and true. -/
structure Trusted (text : List Char) (depth : Nat) (log : Log) (s : State) : Prop where
  agrees : Agrees text depth log s
  faithful : log.Faithful text
  expected : ∀ e ∈ s.expected, MissingAt text s.furthest e
  between : ∀ offset result, s.known[offset]? = some result → ∃ i ≤ text.length, offset = byteLength (text.take i)

/-- The machine stands at `c`. -/
structure Tracked (text : List Char) (depth : Nat) (c : Cursor) (log : Log) (s : State) : Prop
    extends Trusted text depth log s where
  place : c.In text
  offset_eq : s.offset = bytesAt text c.index

theorem Tracked.stands (h : Tracked text depth c log s) : Stands text depth c log s := ⟨h.agrees, h.place, h.offset_eq⟩

theorem Tracked.deeper (h : Tracked text depth c log s) :
    Tracked text (depth + 1) c log { s with depth := s.depth + 1 } :=
  { h with agrees := h.agrees.depth_eq ▸ h.agrees.atDepth (s.depth + 1) }

/-- What is added on the way is true as well. -/
theorem Trusted.of_precedes (h : Trusted text depth log s) (hp : Precedes text s t) (ha : Agrees text depth log' t)
    (hf : log'.Faithful text) : Trusted text depth log' t where
  agrees := ha
  faithful := hf
  expected e he := by
    obtain ⟨new, heq, hnew⟩ := hp.expected
    rw [heq] at he
    rcases List.mem_append.1 he with he | he
    · exact hnew e he
    · split at he
      · next hfurthest =>
        rw [hfurthest]
        exact h.expected e he
      · cases he
  between offset result hk := by
    rcases hp.known offset result hk with hk | hbetween
    · exact h.between offset result hk
    · exact hbetween

/-- What the log remembers at a place is what the grammar gives there. -/
theorem afresh_eq_of_known {i : Nat} {r : Option (Filter × Cursor)} (h : log.Faithful text) (ho : log.overflow = none)
    (hr : log.known[i]? = some r) : (r.map fun p => (p.1, bytesAt text p.2.index)) = afresh text i := by
  obtain ⟨ms, hms⟩ := h ho
  obtain ⟨heq, _⟩ := hms.known ⟨i, text.drop i⟩ r rfl hr
  have hfuel : Grammar.expression (Grammar.statement (text.length + 1)) ⟨i, text.drop i⟩ =
      Grammar.expression full ⟨i, text.drop i⟩ := by
    refine Grammar.expression_congr fun d hd => Grammar.statement_eq_full ?_
    have hdrop : (text.drop i).length ≤ text.length := by simp
    have hd : d.rest.length < (text.drop i).length := hd
    omega
  rw [heq, afresh, hfuel, Option.map_map]
  rfl

theorem Trusted.sound (h : Trusted text depth log s) : Sound text s where
  expected := h.expected
  known offset result hk := by
    obtain ⟨i, hi, rfl⟩ := h.between offset result hk
    have heq : log.known[i]?.map (fun r => r.map fun p => (p.1, bytesAt text p.2.index)) = some result :=
      (h.agrees.known_eq i hi).symm.trans hk
    obtain ⟨r, hr, rfl⟩ := Option.map_eq_some_iff.1 heq
    refine ⟨fun f stop hstop => ?_, i, hi, rfl, fun ho => ?_⟩
    · obtain ⟨⟨f', d⟩, rfl, hd⟩ := Option.map_eq_some_iff.1 hstop
      cases hd
      obtain ⟨hin, hlt⟩ := h.agrees.known_in i hi f' d hr
      exact bytesAt_lt hlt hin.index_le
    · rw [h.agrees.overflow_eq, Option.map_eq_none_iff] at ho
      exact afresh_eq_of_known h.faithful ho hr

/-! ## Steps that accord with attempts -/

section

variable {α β : Type} {f : β → α × Cursor} {x : Attempt β} {m : Reader α}

/-- The step mirrors the attempt, which keeps its log faithful, and takes nothing back. -/
structure Accords (text : List Char) (depth : Nat) (c : Cursor) (k : Nat) (f : β → α × Cursor) (x : Attempt β)
    (m : Reader α) : Prop where
  mirrors : Mirrors text depth c k f x m
  faithful : ∀ log : Log, log.Faithful text → (x log).2.Faithful text
  progresses : m.Progresses text

/-- An attempt that only records keeps its log faithful. -/
theorem accords_of_records {γ : Type} {trial : Grammar.Trial γ} {g : γ → β} (hm : Mirrors text depth c k f x m)
    (hx : x.Records trial g) (hp : m.Progresses text) : Accords text depth c k f x m :=
  ⟨hm, fun _ hl => hx.follows.faithful hl, hp⟩

/-- Behind a step that has read something the machine stands at a place further on. -/
theorem Accords.read {a : α} (h : Accords text depth c k f x m) (hs : Tracked text depth c log s)
    (hm : m s = .ok (some a, t)) : ∃ d log', Tracked text depth d log' t ∧ c.index + k ≤ d.index := by
  obtain ⟨r, hr, ho⟩ := h.mirrors log s hs.stands
  cases hr.symm.trans hm
  have hfaithful := h.faithful log hs.faithful
  generalize x log = y at ho hfaithful
  cases ho with
  | @read b log' _ hstands hle =>
    have htrusted := hs.toTrusted.of_precedes (h.progresses s _ t hm) hstands.agrees hfaithful
    exact ⟨(f b).2, log', ⟨htrusted, hstands.place, hstands.offset_eq⟩, hle⟩

theorem Accords.fail (h : Accords text depth c k f x m) (hs : Tracked text depth c log s) (hm : m s = .ok (none, t)) :
    ∃ log', Trusted text depth log' t := by
  obtain ⟨r, hr, ho⟩ := h.mirrors log s hs.stands
  cases hr.symm.trans hm
  have hfaithful := h.faithful log hs.faithful
  generalize x log = y at ho hfaithful
  cases ho with
  | @fail log' _ hagrees => exact ⟨log', hs.toTrusted.of_precedes (h.progresses s _ t hm) hagrees hfaithful⟩

/-- Behind a step that has gone back the machine stands where it was. -/
theorem Accords.back (h : Accords text depth c k f x m) (hrewinds : m.Rewinds) (hs : Tracked text depth c log s)
    (hm : m s = .ok (none, t)) : ∃ log', Tracked text depth c log' t := by
  obtain ⟨log', htrusted⟩ := h.fail hs hm
  exact ⟨log', htrusted, hs.place, (hrewinds s t hm).trans hs.offset_eq⟩

end

/-! ## Rules that only record -/

theorem accords_literal {word : String} (hne : word.toList ≠ []) (c : Cursor) :
    Accords text depth c 1 alone (Rule.literal word c) (literal text word) :=
  accords_of_records (mirrors_literal hne c) (Rule.records_literal word c) (progresses_literal word)

theorem accords_anySpaces (c : Cursor) : Accords text depth c 0 alone (Rule.anySpaces c) (anySpaces text) :=
  accords_of_records (mirrors_anySpaces c) (Rule.records_anySpaces c) progresses_anySpaces

theorem accords_someSpaces (c : Cursor) : Accords text depth c 1 alone (Rule.someSpaces c) (someSpaces text) :=
  accords_of_records (mirrors_someSpaces c) (Rule.records_someSpaces c) progresses_someSpaces

theorem accords_connective (c : Cursor) : Accords text depth c 1 id (Rule.connective c) (connective text) :=
  accords_of_records (mirrors_connective c) (Rule.records_connective c) progresses_connective

theorem accords_anyComparison (c : Cursor) : Accords text depth c 1 id (Rule.anyComparison c) (anyComparison text) := by
  refine accords_of_records ?_ (Rule.records_anyComparison c) progresses_anyComparison
  have hcomparison (op : Operator) : Mirrors text depth c 1 id (Rule.comparison op c) (comparison text op).attempt :=
    (mirrors_comparison op c).attempt
  refine (mirrors_hasComparison c).attempt.orElse (Reader.rewinds_attempt _) ?_
  iterate 4 refine (hcomparison _).orElse (Reader.rewinds_attempt _) ?_
  exact hcomparison .equals

theorem rewinds_anyComparison : (anyComparison text).Rewinds := by
  unfold anyComparison
  iterate 5 refine (Reader.rewinds_attempt _).orElse ?_
  exact Reader.rewinds_attempt _

/-! ## Calls alone -/

theorem rewinds_reader (calls : Nat) {call : Call} (h : call ≠ .start) : (call.reader text calls).Rewinds := by
  cases call with
  | start => exact absurd rfl h
  | statement => exact rewinds_statement calls
  | chain => exact rewinds_chain _
  | expression => exact rewinds_expression _
  | negation => exact Reader.rewinds_attempt _
  | group => exact Reader.rewinds_attempt _
  | links fuel last earlier => exact fun s t hs => absurd hs (links_ne_none _ fuel last earlier s t)

/-- **A call** accords with its rule, if no more statements are around it than the limit allows and a chain has enough
fuel. -/
theorem accords_reader {levels : Nat} (hdepth : depth + levels = nestingLimit) (hin : c.In text) (call : Call)
    (hstart : call = .start → depth = 0)
    (hfuel : ∀ fuel last earlier, call = .links fuel last earlier → text.length < c.index + fuel) :
    ∃ x : Attempt (Filter × Cursor), Accords text depth c call.least id x (call.reader text (levels + 1)) := by
  have hc := hin.of
  have hprogresses : (call.reader text (levels + 1)).Progresses text := progresses_reader _ call
  have hmirrors (d : Cursor) :
      Mirrors text depth d 1 id (Rule.statement text.length levels d) (statement text (levels + 1)) :=
    mirrors_statement levels depth hdepth d
  have hsticky := Rule.sticky_statement text.length levels
  have hfollows (d : Cursor) (hd : d.Of text) :
      (Rule.statement text.length levels d).Follows text (full d) Rule.ofStatement :=
    Rule.follows_statement text.length levels d hd hd.length_le
  cases call with
  | start =>
    obtain rfl := hstart rfl
    exact ⟨_, mirrors_start c, fun _ hl => (Rule.follows_start text.length hc hc.length_le).faithful hl, hprogresses⟩
  | statement => exact ⟨_, hmirrors c, fun _ hl => (hfollows c hc).faithful hl, hprogresses⟩
  | chain =>
    exact ⟨_, mirrors_chain hmirrors c, fun _ hl => (Rule.follows_chain hsticky hfollows hc hc.length_le).faithful hl,
      hprogresses⟩
  | expression =>
    have hexpression := Rule.follows_expression hc hsticky fun d hd _ => hfollows d hd
    exact ⟨_, mirrors_expression hmirrors c, fun _ hl => hexpression.faithful hl, hprogresses⟩
  | negation =>
    have hnegation := Rule.follows_negation hc fun d hd _ => hfollows d hd
    exact ⟨_, (mirrors_negation hmirrors c).attempt, fun _ hl => hnegation.faithful hl, hprogresses⟩
  | group =>
    have hgroup := Rule.follows_group hc fun d hd _ => hfollows d hd
    exact ⟨_, (mirrors_group hmirrors c).attempt, fun _ hl => hgroup.faithful hl, hprogresses⟩
  | links fuel last earlier =>
    have hlt := hfuel fuel last earlier rfl
    have hends := hin.endsAt
    unfold Cursor.EndsAt at hends
    obtain ⟨n, rfl⟩ : ∃ n, fuel = n + 1 := ⟨fuel - 1, by omega⟩
    have hlinks := Rule.follows_links hsticky hfollows last earlier hc (n := n) (by omega)
    exact ⟨_, mirrors_links hmirrors (n + 1) last earlier c hlt, fun _ hl => hlinks.faithful hl, hprogresses⟩

/-- An expression that has been read, or not, is remembered so. -/
theorem known_of_expression {m : Reader Filter} {result : Option Filter} (h : expression text m s = .ok (result, t)) :
    t.known[s.offset]? = some (result.map fun f => (f, t.offset)) := by
  cases hknown : s.known[s.offset]? with
  | some found =>
    rw [expression_of_known hknown] at h
    cases h
    rcases found with _ | ⟨f, stop⟩ <;> exact hknown
  | none =>
    rcases hrun : alternatives text m s with e | ⟨result', t'⟩
    · simp only [expression, hknown, hrun] at h
      cases h
    · rw [expression_of_unknown hknown hrun] at h
      cases h
      exact Std.HashMap.getElem?_insert_self

/-! ## Calls within calls -/

/-- A call is made where the machine stands at a place, and there is fuel for what it may have to read. -/
structure Fit (text : List Char) (depth : Nat) (c : Cursor) (log : Log) (p : Point) : Prop where
  tracked : Tracked text depth c log p.state
  calls : ∃ levels, p.calls = levels + 1 ∧ depth + levels = nestingLimit
  outermost : p.call = .start → depth = 0
  fuel : ∀ fuel last earlier, p.call = .links fuel last earlier → text.length < c.index + fuel

theorem fit_first (text : List Char) : Fit text 0 ⟨0, text⟩ {} .first where
  tracked := {
    agrees := agrees_empty text
    faithful := fun _ => ⟨[], Log.tracks_empty⟩
    expected := by simp [Point.first]
    between := by simp [Point.first]
    place := ⟨rfl, Nat.zero_add _⟩
    offset_eq := rfl }
  calls := ⟨nestingLimit, rfl, Nat.zero_add _⟩
  outermost _ := rfl
  fuel := nofun

/-- A rule that reads something may be called wherever another one is. -/
theorem Fit.recall (h : Fit text depth c log p) {call : Call} (hcall : call = p.call ∨ call.least = 1) :
    Fit text depth c log ⟨call, p.calls, p.state⟩ where
  tracked := h.tracked
  calls := h.calls
  outermost := by
    rintro rfl
    rcases hcall with hcall | hcall
    · exact h.outermost hcall.symm
    · cases hcall
  fuel := by
    rintro fuel last earlier rfl
    rcases hcall with hcall | hcall
    · exact h.fuel fuel last earlier hcall.symm
    · cases hcall

theorem Fit.accords (h : Fit text depth c log p) : ∃ x : Attempt (Filter × Cursor),
    Accords text depth c p.call.least id x (p.call.reader text p.calls) := by
  obtain ⟨levels, hcalls, hdepth⟩ := h.calls
  rw [hcalls]
  exact accords_reader hdepth h.tracked.place p.call h.outermost h.fuel

/-- **The end of a call.** It fails and goes back, or has moved on. -/
theorem Fit.leaves (h : Fit text depth c log p) :
    ∃ result t, p.run text = .ok (result, t) ∧ Leaves text p result t := by
  obtain ⟨x, hx⟩ := h.accords
  obtain ⟨⟨result, t⟩, hrun, _⟩ := hx.mirrors log p.state h.tracked.stands
  have hprecedes := hx.progresses p.state result t hrun
  have hdepth := h.tracked.agrees.depth_eq
  have hstored : p.call = .expression → t.known[p.state.offset]? = some (result.map fun f => (f, t.offset)) := by
    intro hcall
    have hread : p.call.reader text p.calls p.state = .ok (result, t) := hrun
    rw [hcall] at hread
    exact known_of_expression hread
  refine ⟨result, t, hrun, ?_⟩
  cases result with
  | none =>
    obtain ⟨log', htrusted⟩ := hx.fail h.tracked hrun
    exact {
      depth_eq := htrusted.agrees.depth_eq.trans hdepth.symm
      offset_eq := fun hcall _ => rewinds_reader p.calls hcall p.state t hrun
      offset_le := fun hne => absurd rfl hne
      precedes := hprecedes
      sound := htrusted.sound
      stored := hstored }
  | some f =>
    obtain ⟨d, log', htracked, hle⟩ := hx.read h.tracked hrun
    exact {
      depth_eq := htracked.agrees.depth_eq.trans hdepth.symm
      offset_eq := fun _ => nofun
      offset_le := fun _ => by
        rw [h.tracked.offset_eq, htracked.offset_eq]
        exact ⟨bytesAt_add_le hle htracked.place.index_le, bytesAt_le htracked.place.index_le⟩
      precedes := hprecedes
      sound := htracked.sound
      stored := hstored }

/-- A filter that ends before the text does ends at a place where something is ahead. -/
theorem Fit.ends (h : Fit text depth c log p) {f : Filter} (hrun : p.run text = .ok (some f, t))
    (hoffset : t.offset ≠ byteLength text) :
    Precedes text t (t.miss .endOfInput) ∧ Sound text (t.miss .endOfInput) := by
  obtain ⟨x, hx⟩ := h.accords
  obtain ⟨d, log', htracked, _⟩ := hx.read h.tracked hrun
  have hstands := htracked.stands
  have hprecedes : Precedes text t (t.miss .endOfInput) := by
    apply precedes_miss
    exact ⟨d.rest, hstands.behind_eq, mt hstands.offset_eq_iff.2 hoffset⟩
  refine ⟨hprecedes, (htracked.toTrusted.of_precedes hprecedes (hstands.miss .endOfInput) fun ho => ?_).sound⟩
  obtain ⟨ms, hms⟩ := htracked.faithful ((Log.overflow_miss log' _ _).symm.trans ho)
  exact ⟨_, hms.miss ⟨d.index, .endOfInput⟩⟩

/-- A statement below the nesting limit may nest one more. -/
theorem exists_levels_of_lt {levels calls : Nat} (h : Tracked text depth c log s) (hcalls : calls + 1 = levels + 1)
    (hdepth : depth + levels = nestingLimit) (hlt : s.depth < nestingLimit) :
    ∃ n, calls = n + 1 ∧ depth + 1 + n = nestingLimit := by
  have heq := h.agrees.depth_eq
  exact ⟨levels - 1, by omega, by omega⟩

/-- **A call within a call** is made at a point that fits. -/
theorem Fit.makes (h : Fit text depth c log p) (hm : Makes text p q) : ∃ depth' d log', Fit text depth' d log' q := by
  obtain ⟨levels, hcalls, hdepth⟩ := h.calls
  have hs := h.tracked
  cases hm with
  | startStatement hspaces =>
    obtain rfl := h.outermost rfl
    obtain ⟨d, log', ht, _⟩ := (accords_anySpaces c).read hs hspaces
    exact ⟨0, d, log', ht, ⟨nestingLimit, rfl, Nat.zero_add _⟩, nofun, nofun⟩
  | startGroup hspaces hfail =>
    obtain rfl := h.outermost rfl
    obtain ⟨d, log', ht, _⟩ := (accords_anySpaces c).read hs hspaces
    obtain ⟨x, hx⟩ := accords_reader (Nat.zero_add nestingLimit) ht.place .statement nofun nofun
    obtain ⟨log'', hu⟩ := hx.back (rewinds_statement _) ht hfail
    exact ⟨0, d, log'', hu, ⟨nestingLimit, rfl, Nat.zero_add _⟩, nofun, nofun⟩
  | @statementChain calls s hover hlt =>
    have hlevels := exists_levels_of_lt hs hcalls hdepth hlt
    exact ⟨depth + 1, c, log, hs.deeper, hlevels, nofun, nofun⟩
  | @statementNegation calls s t hover hlt hfail =>
    obtain ⟨n, rfl, hdepth'⟩ := exists_levels_of_lt hs hcalls hdepth hlt
    obtain ⟨x, hx⟩ := accords_reader hdepth' hs.place .chain nofun nofun
    obtain ⟨log', ht⟩ := hx.back (rewinds_chain _) hs.deeper hfail
    exact ⟨depth + 1, c, log', ht, ⟨n, rfl, hdepth'⟩, nofun, nofun⟩
  | chainExpression => exact ⟨depth, c, log, hs, h.calls, nofun, nofun⟩
  | chainLinks hfirst =>
    obtain rfl := hcalls
    obtain ⟨x, hx⟩ := accords_reader hdepth hs.place .expression nofun nofun
    obtain ⟨d, log', ht, hle⟩ := hx.read hs hfirst
    have hle : c.index + 1 ≤ d.index := hle
    have hfuel : text.length < d.index + text.length := by omega
    exact ⟨depth, d, log', ht, h.calls, nofun, by rintro _ _ _ ⟨⟩; exact hfuel⟩
  | linksExpression hlink =>
    obtain ⟨d, log', ht, _⟩ := (accords_connective c).read hs hlink
    exact ⟨depth, d, log', ht, h.calls, nofun, nofun⟩
  | linksLinks hlink hoperand =>
    obtain rfl := hcalls
    -- A round reads a connective at least, so there is enough fuel for the next one.
    obtain ⟨d, log', ht, hle⟩ := (accords_connective c).read hs hlink
    obtain ⟨x, hx⟩ := accords_reader hdepth ht.place .expression nofun nofun
    obtain ⟨e, log'', hu, hle'⟩ := hx.read ht hoperand
    have hfuel := h.fuel _ _ _ rfl
    exact ⟨depth, e, log'', hu, h.calls, nofun, by rintro _ _ _ ⟨⟩; omega⟩
  | linksNegation hlink hfail =>
    obtain rfl := hcalls
    obtain ⟨d, log', ht, _⟩ := (accords_connective c).read hs hlink
    obtain ⟨x, hx⟩ := accords_reader hdepth ht.place .expression nofun nofun
    obtain ⟨log'', hu⟩ := hx.back (rewinds_expression _) ht hfail
    exact ⟨depth, d, log'', hu, h.calls, nofun, nofun⟩
  | expressionGroup _ hfail =>
    obtain ⟨log', ht⟩ := (accords_anyComparison c).back rewinds_anyComparison hs hfail
    exact ⟨depth, c, log', ht, h.calls, nofun, nofun⟩
  | negationStatement hword hspaces =>
    obtain ⟨d, log', ht, _⟩ := (accords_literal (by decide) c).read hs hword
    obtain ⟨e, log'', hu, _⟩ := (accords_someSpaces d).read ht hspaces
    exact ⟨depth, e, log'', hu, h.calls, nofun, nofun⟩
  | groupStatement hopen hspaces =>
    obtain ⟨d, log', ht, _⟩ := (accords_literal (by decide) c).read hs hopen
    obtain ⟨e, log'', hu, _⟩ := (accords_anySpaces d).read ht hspaces
    exact ⟨depth, e, log'', hu, h.calls, nofun, nofun⟩

/-- Whatever the text, every call within the first one is made at a point that fits. -/
theorem Reached.fit (h : Reached text p) : ∃ depth c log, Fit text depth c log p := by
  induction h with
  | refl => exact ⟨0, _, _, fit_first text⟩
  | tail _ hm ih =>
    obtain ⟨depth, c, log, hfit⟩ := ih
    exact hfit.makes hm

theorem Reached.disciplined (h : Reached text p) : Disciplined text p := by
  obtain ⟨depth, c, log, hfit⟩ := h.fit
  exact {
    sound := hfit.tracked.sound
    leaves := fun call hcall => (hfit.recall hcall).leaves
    makes := fun q hm => ⟨hm.precedes, fun _ _ _ _ => hm.precedes_end⟩
    ends := fun _ _ _ hrun hoffset => hfit.ends hrun hoffset }

/-- **The discipline of the machine**, which reads every text as the rules do. Every call that is made while a text is
read, however deep, comes to its end; it fails and goes back, or has moved on within the text; and what the machine
remembers stays true and is never taken back. -/
theorem reached_disciplined {text : String} (h : Reached text.toList p) :
    Disciplined text.toList p ∧ parse text = .ok (Filter.parse text) :=
  ⟨h.disciplined, parse_eq text⟩

/-- Behind an opening parenthesis only a space is missing so far, and the statement there is one deep. -/
theorem reached_disciplined_open_group :
    let p : Point := ⟨.statement, nestingLimit,
      { offset := 1, furthest := 1, expected := [.token .space], depth := 1 }⟩
    Reached "(a".toList p ∧ Disciplined "(a".toList p ∧ parse "(a" = .ok (Filter.parse "(a") := by
  intro p
  have hspaces : anySpaces "(a".toList {} = .ok (some (), { expected := [.token .space] }) := by cbv
  have hfail : anyComparison "(a".toList { expected := [.token .space], depth := 1 } =
      .ok (none, { expected := List.replicate 6 (.token .word) ++ [.token .space], depth := 1 }) := by cbv
  have hopen : literal "(a".toList "("
      { expected := List.replicate 6 (.token .word) ++ [.token .space], depth := 1 } =
      .ok (some (), { offset := 1, expected := List.replicate 6 (.token .word) ++ [.token .space], depth := 1 }) := by
    cbv
  have hinside : anySpaces "(a".toList
      { offset := 1, expected := List.replicate 6 (.token .word) ++ [.token .space], depth := 1 } =
      .ok (some (), { offset := 1, furthest := 1, expected := [.token .space], depth := 1 }) := by cbv
  have hstatement : Reached "(a".toList ⟨.statement, nestingLimit + 1, { expected := [.token .space] }⟩ :=
    .single (.startStatement hspaces)
  have hchain := hstatement.tail (.statementChain rfl (by decide))
  have hgroup := (hchain.tail .chainExpression).tail (.expressionGroup (by simp) hfail)
  have hinner : Reached "(a".toList p := hgroup.tail (.groupStatement hopen hinside)
  exact ⟨hinner, reached_disciplined hinner⟩

end Offsets

end SearchFilter
