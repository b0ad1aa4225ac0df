import Mathlib
import SearchFilter.Proofs.Parser.Recording
import SearchFilter.Proofs.Quoting

/-!
# Reading agrees with the grammar

As long as the nesting limit is not passed, every rule gives what the rule of the grammar gives, and its log holds the
furthest of all that the grammar misses (`Attempt.Follows`). Remembered expressions are what the grammar derives at
their places, and what they miss has been noted before (`Log.Tracks`).

* `follows_expression` — an expression, read anew or remembered.
* `follows_operands` — a chain as the right-recursive rules derive it.
* `parse_cases` — a text is too deep, or read as the grammar derives it.
* `parse_refines_derivation`, `parse_error_furthest` — what that means for filters and for errors.
-/

namespace SearchFilter

open Grammar (Miss Trial Covered full)

variable {text : List Char}

/-! ## Places of a text -/

section

variable {c d : Cursor} {u : List Char}

/-- The place is one of `text`. -/
def Cursor.Of (text : List Char) (c : Cursor) : Prop := c.rest = text.drop c.index

theorem Cursor.Of.spans (h : c.Of text) (hs : c.Spans u d) : d.Of text := by
  have hr : text.drop c.index = u ++ d.rest := h.symm.trans hs.rest_eq
  rw [Cursor.Of, hs.index_eq, ← List.drop_drop, hr, List.drop_left]

theorem Cursor.Of.reads (h : c.Of text) (hr : c.Reads d) : d.Of text := by
  obtain ⟨_, _, _, hs⟩ := hr
  exact h.spans hs

theorem Cursor.Of.eq (h : c.Of text) (h' : d.Of text) (hi : c.index = d.index) : c = d := by
  obtain ⟨i, cs⟩ := c
  obtain ⟨j, ds⟩ := d
  have hi : i = j := hi
  have hc : cs = text.drop i := h
  have hd : ds = text.drop j := h'
  rw [hc, hd, hi]

end

/-! ## Logs that track misses -/

namespace Log

/-- The furthest of the misses `ms` are at place `reach`, and they are `missing`. -/
structure Furthest (reach : Nat) (missing : List Expectation) (ms : List Miss) : Prop where
  le_reach : ∀ m ∈ ms, m.index ≤ reach
  mem_iff : ∀ e, e ∈ missing ↔ ⟨reach, e⟩ ∈ ms
  reach_eq : missing = [] → reach = 0

section

variable {reach i : Nat} {missing : List Expectation} {ms ns : List Miss} {x : Expectation}

theorem mem_snoc {j : Nat} {e : Expectation} : (⟨j, e⟩ : Miss) ∈ ms ++ [⟨i, x⟩] ↔ ⟨j, e⟩ ∈ ms ∨ j = i ∧ e = x := by
  simp

/-- A miss before the furthest ones changes nothing. -/
theorem Furthest.snoc_before (h : Furthest reach missing ms) (hi : i < reach) :
    Furthest reach missing (ms ++ [⟨i, x⟩]) := by
  refine ⟨fun m hm => ?_, fun e => ?_, h.reach_eq⟩
  · rcases mem_snoc.1 hm with hm | ⟨hi', _⟩
    · exact h.le_reach m hm
    · omega
  · rw [mem_snoc, h.mem_iff]
    exact ⟨.inl, fun hm => hm.resolve_right fun hi' => by omega⟩

/-- A miss behind the furthest ones is the only one that counts. -/
theorem Furthest.snoc_behind (h : Furthest reach missing ms) (hi : reach < i) : Furthest i [x] (ms ++ [⟨i, x⟩]) := by
  refine ⟨fun m hm => ?_, fun e => ?_, nofun⟩
  · rcases mem_snoc.1 hm with hm | ⟨hi', _⟩
    · have := h.le_reach m hm
      omega
    · omega
  · rw [mem_snoc, List.mem_singleton]
    refine ⟨fun hx => .inr ⟨rfl, hx⟩, fun hm => (hm.resolve_left fun hm => ?_).2⟩
    have : i ≤ reach := h.le_reach _ hm
    omega

theorem Furthest.snoc_at (h : Furthest reach missing ms) : Furthest reach (x :: missing) (ms ++ [⟨reach, x⟩]) := by
  refine ⟨fun m hm => ?_, fun e => ?_, nofun⟩
  · rcases mem_snoc.1 hm with hm | ⟨hi, _⟩
    · exact h.le_reach m hm
    · omega
  · rw [mem_snoc, List.mem_cons, h.mem_iff]
    constructor
    · rintro (rfl | hm)
      · exact .inr ⟨rfl, rfl⟩
      · exact .inl hm
    · rintro (hm | ⟨_, rfl⟩)
      · exact .inr hm
      · exact .inl rfl

/-- Misses that do not matter may be left out or put in. -/
theorem Furthest.of_covered (h : Furthest reach missing ms) (hn : Covered ns ms) (hm : Covered ms ns) :
    Furthest reach missing ns := by
  have hle : ∀ n ∈ ns, n.index ≤ reach := by
    intro n hmem
    rcases hn n hmem with hmem | ⟨m, hmem, hlt⟩
    · exact h.le_reach n hmem
    · exact Nat.le_trans (Nat.le_of_lt hlt) (h.le_reach m hmem)
  refine ⟨hle, fun e => ?_, h.reach_eq⟩
  rw [h.mem_iff]
  constructor <;> intro hmem
  · exact (hm _ hmem).resolve_right fun ⟨n, hmem, hlt⟩ => Nat.not_lt.2 (hle n hmem) hlt
  · exact (hn _ hmem).resolve_right fun ⟨m, hmem, hlt⟩ => Nat.not_lt.2 (h.le_reach m hmem) hlt

/-- Where something was missing, something is on record. -/
theorem Furthest.ne_nil (h : Furthest reach missing ms) (hne : ms ≠ []) : missing ≠ [] := by
  intro hnil
  obtain ⟨⟨i, e⟩, hm⟩ := List.exists_mem_of_ne_nil ms hne
  have hle : i ≤ reach := h.le_reach _ hm
  have hz := h.reach_eq hnil
  obtain rfl : i = reach := by omega
  have hmem := (h.mem_iff e).2 hm
  rw [hnil] at hmem
  cases hmem

end

/-- The log holds the furthest of the misses `ms`, and everything it remembers is so. -/
structure Tracks (text : List Char) (log : Log) (ms : List Miss) : Prop where
  furthest : Furthest log.reach log.missing ms
  known : ∀ c r, c.Of text → log.known[c.index]? = some r →
    r = (Grammar.expression full c).result.map Rule.ofExpression ∧ Covered (Grammar.expression full c).misses ms

variable {log : Log} {ms ns : List Miss}

theorem tracks_empty : Tracks text {} [] where
  furthest := ⟨nofun, fun _ => ⟨nofun, nofun⟩, fun _ => rfl⟩
  known c r _ h := by simp at h

theorem Tracks.of_covered (h : log.Tracks text ms) (hn : Covered ns ms) (hm : Covered ms ns) : log.Tracks text ns := by
  refine ⟨h.furthest.of_covered hn hm, fun c r hc hr => ?_⟩
  obtain ⟨hres, hcov⟩ := h.known c r hc hr
  exact ⟨hres, hcov.trans hm⟩

theorem furthest_miss (h : Furthest log.reach log.missing ms) (i : Nat) (x : Expectation) :
    Furthest (log.miss i x).reach (log.miss i x).missing (ms ++ [⟨i, x⟩]) := by
  unfold Log.miss
  split
  · next hlt => exact h.snoc_before hlt
  · split
    · next hgt => exact h.snoc_behind hgt
    · obtain rfl : i = log.reach := by omega
      exact h.snoc_at

theorem Tracks.miss (h : log.Tracks text ms) (m : Miss) :
    (log.miss m.index m.expectation).Tracks text (ms ++ [m]) := by
  refine ⟨furthest_miss h.furthest m.index m.expectation, fun c r hc hr => ?_⟩
  rw [known_miss] at hr
  obtain ⟨hres, hcov⟩ := h.known c r hc hr
  exact ⟨hres, hcov.mono (List.subset_append_left _ _)⟩

theorem Tracks.missAll (h : log.Tracks text ms) (ns : List Miss) : (log.missAll ns).Tracks text (ms ++ ns) := by
  induction ns generalizing log ms with
  | nil => rwa [List.append_nil]
  | cons n ns ih =>
    rw [List.append_cons]
    exact ih (h.miss n)

/-- An expression that is remembered as the grammar derives it keeps the log true. -/
theorem Tracks.learn {c : Cursor} (h : log.Tracks text ms) (hc : c.Of text)
    (hm : Covered (Grammar.expression full c).misses ms) :
    (log.learn c.index ((Grammar.expression full c).result.map Rule.ofExpression)).Tracks text ms := by
  refine ⟨h.furthest, fun d r hd hr => ?_⟩
  rw [Log.learn, Std.HashMap.getElem?_insert] at hr
  split at hr
  · next hi =>
    obtain rfl := hc.eq hd (by simpa using hi)
    exact ⟨(Option.some.inj hr).symm, hm⟩
  · exact h.known d r hd hr

end Log

/-! ## Attempts that follow the grammar -/

namespace Attempt

variable {α β γ δ : Type} {x x' : Attempt β} {t t' : Trial α} {f : α → β}

/-- Once the nesting limit was passed, the first such place stays. -/
def Sticky (x : Attempt β) : Prop := ∀ log i, log.overflow = some i → (x log).2.overflow = some i

theorem sticky_pure (b : β) : (Pure.pure b : Attempt β).Sticky := fun _ _ h => h

theorem Records.sticky (h : x.Records t f) : x.Sticky := by
  intro log i hi
  rw [h log, Log.overflow_missAll]
  exact hi

theorem Sticky.bind {y : β → Attempt δ} (hx : x.Sticky) (hy : ∀ b, (y b).Sticky) : (x >>= y).Sticky := by
  intro log i hi
  have h := hx log i hi
  rw [bind_apply]
  generalize x log = r at h ⊢
  obtain ⟨_ | b, l⟩ := r
  · exact h
  · exact hy b l i h

theorem Sticky.orElse (hx : x.Sticky) (hx' : x'.Sticky) : (x <|> x').Sticky := by
  intro log i hi
  have h := hx log i hi
  rw [orElse_apply]
  generalize x log = r at h ⊢
  obtain ⟨_ | b, l⟩ := r
  · exact hx' l i h
  · exact h

/-- Unless the nesting limit was passed, the attempt gives what the trial gives, through `f`, and tracks what it misses.
-/
structure Follows (text : List Char) (x : Attempt β) (t : Trial α) (f : α → β) : Prop where
  sticky : x.Sticky
  agrees : ∀ log ms, log.Tracks text ms → (x log).2.overflow = none →
    (x log).1 = t.result.map f ∧ (x log).2.Tracks text (ms ++ t.misses)

theorem Sticky.eq_none (hx : x.Sticky) {log : Log} (h : (x log).2.overflow = none) : log.overflow = none := by
  cases ho : log.overflow with
  | none => rfl
  | some i => rw [hx log i ho] at h; cases h

theorem Records.follows (h : x.Records t f) : x.Follows text t f where
  sticky := h.sticky
  agrees log ms hm _ := by
    rw [h log]
    exact ⟨rfl, hm.missAll t.misses⟩

/-- An attempt that only records gives the same values in every state. -/
theorem Records.bind_follows {y : β → Attempt δ} {u : α → Trial γ} {g : γ → δ} (hx : x.Records t f)
    (hy : ∀ a, t.result = some a → (y (f a)).Follows text (u a) g) : (x >>= y).Follows text (t >>= u) g := by
  obtain ⟨_ | a, m⟩ := t
  · have hn : ∀ log, (x >>= y) log = (none, log.missAll m) := fun log => bind_of_none (hx log)
    refine ⟨fun log i hi => ?_, fun log ms hm _ => ?_⟩
    · rw [hn log, Log.overflow_missAll]
      exact hi
    · rw [hn log]
      exact ⟨rfl, hm.missAll m⟩
  · have hs : ∀ log, (x >>= y) log = y (f a) (log.missAll m) := fun log => bind_of_some (hx log)
    refine ⟨fun log i hi => ?_, fun log ms hm ho => ?_⟩
    · rw [hs log]
      exact (hy a rfl).sticky _ i ((Log.overflow_missAll log m).trans hi)
    · rw [hs log] at ho ⊢
      obtain ⟨hr, hl⟩ := (hy a rfl).agrees _ _ (hm.missAll m) ho
      exact ⟨hr, List.append_assoc ms m _ ▸ hl⟩

theorem Follows.bind {y : β → Attempt δ} {u : α → Trial γ} {g : γ → δ} (hx : x.Follows text t f)
    (hs : ∀ b, (y b).Sticky) (hy : ∀ a, t.result = some a → (y (f a)).Follows text (u a) g) :
    (x >>= y).Follows text (t >>= u) g where
  sticky := hx.sticky.bind hs
  agrees log ms hm ho := by
    have h := hx.agrees log ms hm
    rw [bind_apply] at ho ⊢
    generalize x log = r at h ho ⊢
    obtain ⟨_ | b, l⟩ := r
    · obtain ⟨hr, hl⟩ := h ho
      obtain ⟨_ | a, m⟩ := t
      · exact ⟨rfl, hl⟩
      · cases hr
    · obtain ⟨hr, hl⟩ := h ((hs b).eq_none ho)
      obtain ⟨_ | a, m⟩ := t
      · cases hr
      · cases hr
        obtain ⟨hr', hl'⟩ := (hy a rfl).agrees l _ hl ho
        exact ⟨hr', List.append_assoc ms m _ ▸ hl'⟩

theorem Follows.orElse (hx : x.Follows text t f) (hx' : x'.Follows text t' f) :
    (x <|> x').Follows text (t <|> t') f where
  sticky := hx.sticky.orElse hx'.sticky
  agrees log ms hm ho := by
    have h := hx.agrees log ms hm
    rw [orElse_apply] at ho ⊢
    generalize x log = r at h ho ⊢
    obtain ⟨_ | b, l⟩ := r
    · obtain ⟨hr, hl⟩ := h (hx'.sticky.eq_none ho)
      obtain ⟨_ | a, m⟩ := t
      · obtain ⟨hr', hl'⟩ := hx'.agrees l _ hl ho
        exact ⟨hr', List.append_assoc ms m _ ▸ hl'⟩
      · cases hr
    · obtain ⟨hr, hl⟩ := h ho
      obtain ⟨_ | a, m⟩ := t
      · cases hr
      · exact ⟨hr, hl⟩

/-- Misses that do not matter may differ. -/
theorem Follows.of_like (hx : x.Follows text t f) (h : t'.Like t) : x.Follows text t' f where
  sticky := hx.sticky
  agrees log ms hm ho := by
    obtain ⟨hr, hl⟩ := hx.agrees log ms hm ho
    have hms := Covered.refl ms
    exact ⟨h.result_eq ▸ hr, hl.of_covered (hms.append_both h.covered) (hms.append_both h.covers)⟩

/-- The trial may go on with a change of its value. -/
theorem Follows.map_trial {g : γ → β} (k : α → γ) (hx : x.Follows text t fun a => g (k a)) :
    x.Follows text (t >>= fun a => Pure.pure (k a)) g where
  sticky := hx.sticky
  agrees log ms hm ho := by
    obtain ⟨hr, hl⟩ := hx.agrees log ms hm ho
    obtain ⟨_ | a, m⟩ := t
    · exact ⟨hr, hl⟩
    · refine ⟨hr, ?_⟩
      show (x log).2.Tracks text (ms ++ (m ++ []))
      rwa [List.append_nil]

/-- The attempt may go on with a change of its value. -/
theorem Follows.map_attempt (k : β → δ) (hx : x.Follows text t f) :
    (x >>= fun b => Pure.pure (k b)).Follows text t fun a => k (f a) where
  sticky := hx.sticky.bind fun b => sticky_pure (k b)
  agrees log ms hm ho := by
    have h := hx.agrees log ms hm
    rw [bind_apply] at ho ⊢
    generalize x log = r at h ho ⊢
    obtain ⟨_ | b, l⟩ := r
    · obtain ⟨hr, hl⟩ := h ho
      refine ⟨?_, hl⟩
      obtain ⟨_ | a, m⟩ := t
      · rfl
      · cases hr
    · obtain ⟨hr, hl⟩ := h ho
      refine ⟨?_, hl⟩
      obtain ⟨_ | a, m⟩ := t
      · cases hr
      · cases hr
        rfl

end Attempt

namespace Rule

open Attempt

variable {inner : Rule Filter} {c d : Cursor} {log : Log}

/-! ## The nesting limit stays passed -/

/-- A remembered expression is not read again. -/
theorem expression_of_known {r : Option (Filter × Cursor)} (h : log.known[c.index]? = some r) :
    expression inner c log = (r, log) := by
  simp only [expression, h]

theorem expression_of_unknown (h : log.known[c.index]? = none) :
    expression inner c log =
      ((alternatives inner c log).1, (alternatives inner c log).2.learn c.index (alternatives inner c log).1) := by
  simp only [expression, h]

/-- What stands behind a statement reads no other one. -/
theorem sticky_close (f : Filter) (c : Cursor) :
    (do let c ← anySpaces c; let c ← literal ")" c; return (f, c) : Attempt (Filter × Cursor)).Sticky :=
  (records_anySpaces c).sticky.bind fun d => (records_literal ")" d).sticky.bind fun _ => sticky_pure _

theorem sticky_end (f : Filter) (c : Cursor) :
    (do let c ← anySpaces c; return (f, c) : Attempt (Filter × Cursor)).Sticky :=
  (records_anySpaces c).sticky.bind fun _ => sticky_pure _

theorem sticky_group (hi : ∀ d, (inner d).Sticky) (c : Cursor) : (group inner c).Sticky :=
  (records_literal "(" c).sticky.bind fun c₁ => (records_anySpaces c₁).sticky.bind fun c₂ => (hi c₂).bind fun ⟨f, d⟩ =>
    sticky_close f d

theorem sticky_expression (hi : ∀ d, (inner d).Sticky) (c : Cursor) : (expression inner c).Sticky := by
  have ha : (alternatives inner c).Sticky := by
    rw [alternatives_eq]
    exact (records_anyComparison c).sticky.orElse (sticky_group hi c)
  intro log i h
  cases hk : log.known[c.index]? with
  | some r => rw [expression_of_known hk]; exact h
  | none => rw [expression_of_unknown hk]; exact ha log i h

theorem sticky_negation (hi : ∀ d, (inner d).Sticky) (c : Cursor) : (negation inner c).Sticky :=
  (records_literal "NOT" c).sticky.bind fun c₁ => (records_someSpaces c₁).sticky.bind fun c₂ =>
    (hi c₂).bind fun ⟨_, _⟩ => sticky_pure _

theorem sticky_operands (hi : ∀ d, (inner d).Sticky) {fuel : Nat} {earlier : List (Filter × Connective)}
    (hl : ∀ last d, (links inner fuel last earlier d).Sticky) (c : Cursor) : (operands inner fuel earlier c).Sticky :=
  ((sticky_expression hi c).bind fun ⟨operand, d⟩ => hl operand d).orElse
    ((sticky_negation hi c).bind fun ⟨_, _⟩ => sticky_pure _)

theorem sticky_links (hi : ∀ d, (inner d).Sticky) (fuel : Nat) :
    ∀ (last : Filter) (earlier : List (Filter × Connective))
    (c : Cursor), (links inner fuel last earlier c).Sticky := by
  induction fuel with
  | zero => intro last earlier c; exact sticky_pure _
  | succ fuel ih =>
    intro last earlier c
    rw [links_succ]
    refine ((records_connective c).sticky.bind fun ⟨link, next⟩ => ?_).orElse (sticky_pure _)
    exact sticky_operands hi (fun last' d => ih last' ((last, link) :: earlier) d) next

theorem sticky_statement (fuel levels : Nat) (c : Cursor) : (statement fuel levels c).Sticky := by
  intro log i h
  cases levels with
  | zero =>
    show (log.overflow <|> some c.index) = some i
    rw [h]
    rfl
  | succ levels =>
    rw [statement_succ, h]
    exact h

/-! ## Rules that follow the grammar -/

/-- A group follows the grammar if the statement in it does. -/
theorem follows_group (hc : c.Of text) (hi : ∀ d, d.Of text → d.rest.length < c.rest.length →
    (inner d).Follows text (full d) ofStatement) : (group inner c).Follows text (Grammar.group full c) ofStatement := by
  refine (records_literal "(" c).bind_follows fun c₁ h₁ => (records_anySpaces c₁).bind_follows fun c₂ h₂ => ?_
  have hs₁ := Grammar.spans_literal h₁
  have hs₂ := Grammar.spans_anySpaces h₂
  have hlt := hs₁.length_lt (by decide)
  have hle := hs₂.length_eq
  refine (hi c₂ ((hc.spans hs₁).spans hs₂) (by omega)).bind (fun ⟨f, d⟩ => sticky_close f d) fun ⟨s, c₃⟩ _ => ?_
  exact (records_anySpaces c₃).bind_follows fun c₄ _ => (records_literal ")" c₄).bind_follows fun c₅ _ =>
    (records_pure (s, c₅) ofStatement).follows

/-- A negation follows the grammar if the statement behind `NOT` does. -/
theorem follows_negation (hc : c.Of text) (hi : ∀ d, d.Of text → d.rest.length < c.rest.length →
    (inner d).Follows text (full d) ofStatement) :
    (negation inner c).Follows text (Grammar.negated full c) ofStatement := by
  refine (records_literal "NOT" c).bind_follows fun c₁ h₁ => (records_someSpaces c₁).bind_follows fun c₂ h₂ => ?_
  have hs₁ := Grammar.spans_literal h₁
  have hr₂ := (Grammar.readsPlain_someSpaces h₂).reads
  have hle := hs₁.length_eq
  have hlt := hr₂.length_lt
  refine (hi c₂ ((hc.spans hs₁).reads hr₂) (by omega)).bind (fun ⟨_, _⟩ => sticky_pure _) fun ⟨s, c₃⟩ _ => ?_
  exact (records_pure (Grammar.Statement.not c.index s, c₃) ofStatement).follows

/-- **An expression**, read anew or remembered, is what the grammar derives, and it adds nothing to what is known to be
missing but what the grammar misses. -/
theorem follows_expression (hc : c.Of text) (hs : ∀ d, (inner d).Sticky) (hi : ∀ d, d.Of text →
    d.rest.length < c.rest.length → (inner d).Follows text (full d) ofStatement) :
    (expression inner c).Follows text (Grammar.expression full c) ofExpression := by
  have ha : (alternatives inner c).Follows text (Grammar.expression full c) ofExpression := by
    rw [alternatives_eq, Grammar.expression_eq]
    refine (records_anyComparison c).follows.orElse ?_
    exact Follows.map_trial (fun p : Grammar.Statement × Cursor => (Grammar.Expression.group p.1, p.2))
      (follows_group hc hi)
  refine ⟨sticky_expression hs c, fun log ms hm ho => ?_⟩
  cases hk : log.known[c.index]? with
  | some r =>
    rw [expression_of_known hk]
    obtain ⟨hr, hcov⟩ := hm.known c r hc hk
    exact ⟨hr, hm.of_covered ((Covered.refl ms).append hcov) (Grammar.covered_of_subset (List.subset_append_left _ _))⟩
  | none =>
    rw [expression_of_unknown hk] at ho ⊢
    obtain ⟨hr, hl⟩ := ha.agrees log ms hm ho
    rw [hr]
    exact ⟨rfl, hl.learn hc (Grammar.covered_of_subset (List.subset_append_right _ _))⟩

/-- What an operand follows if the rest of the chain is what continues the grammar's statement. -/
theorem follows_operands_of_links {fuel : Nat} {earlier : List (Filter × Connective)} (hc : c.Of text)
    (hs : ∀ d, (inner d).Sticky) (hi : ∀ d, d.Of text → d.rest.length < c.rest.length →
      (inner d).Follows text (full d) ofStatement)
    (hl : ∀ left d, (Grammar.expression full c).result = some (left, d) →
      (links inner fuel left.toFilter earlier d).Follows text (Grammar.continuation d) fun (next, e) =>
        (joinAll (Grammar.Statement.extend c.index left next).toFilter earlier, e)) :
    (operands inner fuel earlier c).Follows text (full c) fun (s, d) => (joinAll s.toFilter earlier, d) := by
  refine Follows.of_like (Follows.orElse ?_ ?_) (Grammar.full_like_factored c)
  · refine (follows_expression hc hs hi).bind (fun (f, d) => sticky_links hs fuel f earlier d) fun ⟨left, d⟩ h => ?_
    exact Follows.map_trial (fun p : Option (Connective × Grammar.Statement) × Cursor =>
      (Grammar.Statement.extend c.index left p.1, p.2)) (hl left d h)
  · exact Follows.map_attempt (fun p : Filter × Cursor => (joinAll p.1 earlier, p.2)) (follows_negation hc hi)

/-- **A chain.** With enough fuel the operands ahead, joined to the earlier ones, are the statement that the
right-recursive rules derive. -/
theorem follows_operands {limit : Nat} (hs : ∀ d, (inner d).Sticky)
    (hi : ∀ d, d.Of text → d.rest.length < limit → (inner d).Follows text (full d) ofStatement) (fuel : Nat) :
    ∀ (earlier : List (Filter × Connective)) (c : Cursor), c.Of text → c.rest.length ≤ fuel → c.rest.length ≤ limit →
      (operands inner fuel earlier c).Follows text (full c) fun (s, d) => (joinAll s.toFilter earlier, d) := by
  induction fuel with
  | zero =>
    intro earlier c hc hf hl
    refine follows_operands_of_links hc hs (fun d hd hlt => hi d hd (by omega)) fun left d h => ?_
    have hlt := (Grammar.reads_expression Grammar.reads_full h).length_lt
    omega
  | succ fuel ih =>
    intro earlier c hc hf hl
    refine follows_operands_of_links hc hs (fun d hd hlt => hi d hd (by omega)) fun left d h => ?_
    have hr := Grammar.reads_expression Grammar.reads_full h
    have hlt := hr.length_lt
    rw [links_succ]
    refine Follows.orElse ((records_connective d).bind_follows fun ⟨link, next⟩ hn => ?_) (Records.follows fun _ => rfl)
    have hrn := (Grammar.readsPlain_connective hn).reads
    have hltn := hrn.length_lt
    exact Follows.map_trial (fun p : Grammar.Statement × Cursor => (some (link, p.1), p.2))
      (ih ((left.toFilter, link) :: earlier) next ((hc.reads hr).reads hrn) (by omega) (by omega))

/-- **A statement** follows the grammar, however many levels it may still nest. -/
theorem follows_statement (fuel levels : Nat) : ∀ c, c.Of text → c.rest.length ≤ fuel →
    (statement fuel levels c).Follows text (full c) ofStatement := by
  induction levels with
  | zero =>
    intro c _ _
    refine ⟨sticky_statement fuel 0 c, fun log ms _ ho => ?_⟩
    have ho : (log.overflow <|> some c.index) = none := ho
    cases hlog : log.overflow <;> rw [hlog] at ho <;> cases ho
  | succ levels ih =>
    intro c hc hf
    have hoperands :=
      follows_operands (sticky_statement fuel levels) (fun d hd hlt => ih d hd (Nat.le_of_lt hlt)) fuel [] c hc hf hf
    refine ⟨sticky_statement fuel (levels + 1) c, fun log ms hm ho => ?_⟩
    rw [statement_succ] at ho ⊢
    split at ho
    · next hover => rw [ho] at hover; cases hover
    · next hover =>
      rw [if_neg hover]
      exact hoperands.agrees log ms hm ho

/-- A block follows the grammar. -/
theorem follows_block (fuel levels : Nat) (hc : c.Of text) (hf : c.rest.length ≤ fuel) :
    (statement fuel levels c <|> group (statement fuel levels) c).Follows text (Grammar.block c) ofStatement :=
  (follows_statement fuel levels c hc hf).orElse
    (follows_group hc fun d hd hlt => follows_statement fuel levels d hd (by omega))

theorem follows_start (fuel : Nat) (hc : c.Of text) (hf : c.rest.length ≤ fuel) :
    (start fuel c).Follows text (Grammar.start (fuel + 1) c) ofStatement := by
  rw [Grammar.start_eq (by omega)]
  refine (records_anySpaces c).bind_follows fun c₁ h₁ => ?_
  have hs := Grammar.spans_anySpaces h₁
  have hle := hs.length_eq
  have hblock := follows_block fuel nestingLimit (hc.spans hs) (by omega)
  refine hblock.bind (fun ⟨f, d⟩ => sticky_end f d) fun ⟨s, c₂⟩ _ => ?_
  exact (records_anySpaces c₂).bind_follows fun c₃ _ => (records_pure (s, c₃) ofStatement).follows

end Rule

/-! ## Texts -/

namespace Log

variable {log : Log} {input : List Char}

theorem problem_error {i : Nat} (h : log.overflow = some i) : (log.error input).problem = .nestedTooDeep := by
  simp only [error, h]
  rfl

theorem error_eq (h : log.overflow = none) :
    log.error input = .locate (.unexpected (Expectation.ordered log.missing)) input log.reach := by
  simp only [error, h]

end Log

/-- A text nests too deep, or it is read as the grammar derives it. -/
theorem parse_cases (text : String) :
    (∃ e, Filter.parse text = .error e ∧ e.problem = .nestedTooDeep) ∨
    ∃ log : Log, log.overflow = none ∧ log.Tracks text.toList (Grammar.derivation text.toList).misses ∧
      Filter.parse text = match (Grammar.derivation text.toList).result with
        | some s => .ok s.toFilter
        | none => .error (log.error text.toList) := by
  have hf := @Rule.follows_start text.toList ⟨0, text.toList⟩ text.toList.length rfl (Nat.le_refl _)
  have ha := hf.agrees {} [] Log.tracks_empty
  unfold Filter.parse Grammar.derivation
  simp only
  generalize Rule.start text.toList.length ⟨0, text.toList⟩ {} = r at ha
  generalize Grammar.start (text.toList.length + 1) ⟨0, text.toList⟩ = t at ha
  obtain ⟨result, log⟩ := r
  cases ho : log.overflow with
  | some i =>
    left
    cases result with
    | none => exact ⟨_, rfl, Log.problem_error ho⟩
    | some p =>
      have hover := (Log.overflow_miss log p.2.index .endOfInput).trans ho
      refine ⟨(log.miss p.2.index .endOfInput).error text.toList, ?_, Log.problem_error hover⟩
      simp [ho]
  | none =>
    right
    obtain ⟨hr, hl⟩ := ha ho
    obtain ⟨_ | ⟨s, d⟩, m⟩ := t
    · cases hr
      exact ⟨log, ho, hl, rfl⟩
    · cases hr
      by_cases hd : d.rest = []
      · refine ⟨log, ho, ?_, ?_⟩
        · rw [Trial.misses_bind]
          simpa [hd] using hl
        · rw [Trial.result_bind]
          simp [hd, ho, Rule.ofStatement]
      · refine ⟨log.miss d.index .endOfInput, (Log.overflow_miss log _ _).trans ho, ?_, ?_⟩
        · rw [Trial.misses_bind]
          simpa [hd] using hl.miss ⟨d.index, .endOfInput⟩
        · rw [Trial.result_bind]
          simp [hd, Rule.ofStatement]

/-- **Reading refines the grammar.** A text that is read is derived as the same filter, and but for texts that nest too
deep every text that is derived is read. -/
theorem parse_refines_derivation (text : String) (f : Filter) :
    (Filter.parse text = .ok f → (Grammar.derivation text.toList).result.map (·.toFilter) = some f) ∧
    ((∀ e, Filter.parse text = .error e → e.problem ≠ .nestedTooDeep) →
      (Filter.parse text = .ok f ↔ (Grammar.derivation text.toList).result.map (·.toFilter) = some f)) := by
  rcases parse_cases text with ⟨e, he, hp⟩ | ⟨log, _, _, hparse⟩
  · rw [he]
    exact ⟨nofun, fun hn => absurd hp (hn e rfl)⟩
  · have hiff : Filter.parse text = .ok f ↔ (Grammar.derivation text.toList).result.map (·.toFilter) = some f := by
      rw [hparse]
      cases (Grammar.derivation text.toList).result <;> simp
    exact ⟨hiff.1, fun _ => hiff⟩

/-- A field may be named `NOT`, and a negation may stand behind it. -/
theorem parse_refines_derivation_not_field :
    (∀ e, Filter.parse "NOT:1 OR NOT a > 2" = .error e → e.problem ≠ .nestedTooDeep) ∧
    (Grammar.derivation "NOT:1 OR NOT a > 2".toList).result.map (·.toFilter) = some (.join .or
      (.compare .has "NOT" (.literal (.number 1))) (.not (.compare .greater "a" (.literal (.number 2))))) := by
  have hparse : Filter.parse "NOT:1 OR NOT a > 2" = .ok (.join .or (.compare .has "NOT" (.literal (.number 1)))
      (.not (.compare .greater "a" (.literal (.number 2))))) := by cbv
  have hn : ∀ e, Filter.parse "NOT:1 OR NOT a > 2" = .error e → e.problem ≠ .nestedTooDeep := by
    intro e he
    rw [hparse] at he
    cases he
  exact ⟨hn, ((parse_refines_derivation _ _).2 hn).1 hparse⟩

/-- The place of an error, unless the text nests too deep: the furthest that the derivation came to. The error says what
the derivation misses there. -/
theorem exists_furthest {text : String} {e : SyntaxError} (h : Filter.parse text = .error e)
    (hn : e.problem ≠ .nestedTooDeep) :
    (Grammar.derivation text.toList).result = none ∧
    ∃ k ≤ text.toList.length, e.start = Position.after (text.toList.take k) ∧
      (Grammar.derivation text.toList).Within k ∧
      (∀ x, x ∈ e.expected ↔ ⟨k, x⟩ ∈ (Grammar.derivation text.toList).misses) ∧
      e.expected.Pairwise (·.description < ·.description) ∧ e.expected ≠ [] := by
  rcases parse_cases text with ⟨e', he', hp⟩ | ⟨log, ho, hl, hparse⟩
  · rw [he'] at h
    cases h
    exact absurd hp hn
  · rw [hparse] at h
    cases hr : (Grammar.derivation text.toList).result with
    | some s => rw [hr] at h; cases h
    | none =>
      rw [hr] at h
      obtain rfl : log.error text.toList = e := Except.error.inj h
      rw [Log.error_eq ho]
      have hmem : ∀ x, x ∈ Expectation.ordered log.missing ↔
          (⟨log.reach, x⟩ : Miss) ∈ (Grammar.derivation text.toList).misses := fun x =>
        Expectation.mem_ordered_iff.trans (hl.furthest.mem_iff x)
      have hspace : (⟨_, .token .space⟩ : Miss) ∈ (Grammar.derivation text.toList).misses :=
        Trial.mem_misses_bind_left (Trial.mem_misses_bind_left (List.mem_singleton_self _))
      have hne : log.missing ≠ [] := hl.furthest.ne_nil (List.ne_nil_of_mem hspace)
      obtain ⟨x, hx⟩ := List.exists_mem_of_ne_nil _ hne
      have hat := (hl.furthest.mem_iff x).1 hx
      exact ⟨rfl, log.reach, Grammar.within_derivation _ _ hat, rfl, hl.furthest.le_reach, hmem,
        Expectation.pairwise_ordered _, List.ne_nil_of_mem (Expectation.mem_ordered_iff.2 hx)⟩

/-- **The error of a text** is at the furthest place where the grammar misses something, and says all that is missing
there, each once and in the order of the descriptions. -/
theorem parse_error_furthest {text : String} {e : SyntaxError} (h : Filter.parse text = .error e)
    (hn : e.problem ≠ .nestedTooDeep) :
    ∃ k ≤ text.toList.length, e.start = Position.after (text.toList.take k) ∧
      e.start.offset = (String.ofList (text.toList.take k)).utf8ByteSize ∧
      (∃ m ∈ (Grammar.derivation text.toList).misses, m.index = k) ∧
      (∀ m ∈ (Grammar.derivation text.toList).misses, m.index ≤ k) ∧
      (∀ x, x ∈ e.expected ↔ ⟨k, x⟩ ∈ (Grammar.derivation text.toList).misses) ∧
      e.expected.Pairwise (·.description < ·.description) ∧ e.expected ≠ [] := by
  obtain ⟨_, k, hk, hstart, hw, hmem, hordered, hne⟩ := exists_furthest h hn
  obtain ⟨x, hx⟩ := List.exists_mem_of_ne_nil _ hne
  have hoffset := congrArg Position.offset hstart
  rw [Position.offset_after] at hoffset
  exact ⟨k, hk, hstart, hoffset, ⟨_, (hmem x).1 hx, rfl⟩, hw, hmem, hordered, hne⟩

/-- Behind a filter and a space, the furthest place is the one where a connective or the end is missing. -/
theorem parse_error_furthest_second_word :
    Filter.parse "a:1 b" = .error (.locate
      (.unexpected [.literal "AND", .literal "OR", .endOfInput, .token .space]) "a:1 b".toList 4) ∧
    ∃ k ≤ "a:1 b".toList.length, 4 = (String.ofList ("a:1 b".toList.take k)).utf8ByteSize ∧
      (∀ m ∈ (Grammar.derivation "a:1 b".toList).misses, m.index ≤ k) ∧
      ⟨k, .endOfInput⟩ ∈ (Grammar.derivation "a:1 b".toList).misses := by
  have hparse : Filter.parse "a:1 b" = .error (.locate
      (.unexpected [.literal "AND", .literal "OR", .endOfInput, .token .space]) "a:1 b".toList 4) := by cbv
  obtain ⟨k, hk, _, hoffset, _, hle, hmem, _⟩ := parse_error_furthest hparse (by decide)
  exact ⟨hparse, k, hk, hoffset, hle, (hmem .endOfInput).1 (by decide)⟩

end SearchFilter
