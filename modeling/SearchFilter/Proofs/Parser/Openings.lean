import SearchFilter.Proofs.Grammar.Openings
import SearchFilter.Proofs.Parser.Agreement

/-!
# Texts that open few groups

Every statement that is tried inside another stands behind a parenthesis that opens or a `NOT`, whether or not the
attempt is given up later. A text with fewer of them than the nesting limit never passes it, so its error says what is
missing (`problem_of_openings`).

* `Log.Calm` — the limit was not passed, and what is remembered is true.
* `Attempt.Keeps` — an attempt after which it is still so.
* `keeps_statement` — statements with fewer openings ahead than levels left.
-/

namespace SearchFilter

open Grammar (Trial full)
open Text (openings)

variable {text : List Char}

/-! ## Attempts that keep the limit -/

/-- The nesting limit was not passed, and the log is that of the misses so far. -/
structure Log.Calm (text : List Char) (log : Log) : Prop where
  overflow_eq : log.overflow = none
  tracks : ∃ ms, log.Tracks text ms

namespace Attempt

variable {α β δ : Type} {x x' : Attempt β} {t : Trial α} {f : α → β} {y : β → Attempt δ} {Q : β → Prop} {R : δ → Prop}

/-- The attempt does not pass the nesting limit, and what it gives is as `Q` says. -/
def Keeps (text : List Char) (Q : β → Prop) (x : Attempt β) : Prop := ∀ log, log.Calm text →
  (x log).2.Calm text ∧ ∀ b, (x log).1 = some b → Q b

theorem keeps_pure {b : β} (h : Q b) : (Pure.pure b : Attempt β).Keeps text Q := fun _ hl =>
  ⟨hl, fun _ hb => Option.some.inj hb ▸ h⟩

/-- What follows the grammar and does not pass the limit gives what the grammar gives. -/
theorem Follows.keeps (h : x.Follows text t f) (ho : ∀ log, log.Calm text → (x log).2.overflow = none)
    (hq : ∀ a, t.result = some a → Q (f a)) : x.Keeps text Q := by
  intro log hl
  obtain ⟨ms, hms⟩ := hl.tracks
  obtain ⟨hr, htracks⟩ := h.agrees log ms hms (ho log hl)
  refine ⟨⟨ho log hl, _, htracks⟩, fun b hb => ?_⟩
  obtain ⟨a, ha, rfl⟩ := Option.map_eq_some_iff.1 (hr.symm.trans hb)
  exact hq a ha

theorem Records.keeps (h : x.Records t f) (hq : ∀ a, t.result = some a → Q (f a)) : x.Keeps text Q :=
  h.follows.keeps (fun log hl => by rw [h log]; exact (Log.overflow_missAll log _).trans hl.overflow_eq) hq

theorem Keeps.bind (hx : x.Keeps text Q) (hy : ∀ b, Q b → (y b).Keeps text R) : (x >>= y).Keeps text R := by
  intro log hl
  have h := hx log hl
  rw [bind_apply]
  generalize x log = r at h
  obtain ⟨_ | b, l⟩ := r
  · exact ⟨h.1, nofun⟩
  · exact hy b (h.2 b rfl) l h.1

theorem Records.bind_keeps (hx : x.Records t f) (hy : ∀ a, t.result = some a → (y (f a)).Keeps text R) :
    (x >>= y).Keeps text R :=
  (hx.keeps (Q := fun b => ∃ a, t.result = some a ∧ f a = b) fun a ha => ⟨a, ha, rfl⟩).bind
    fun _ ⟨a, ha, hb⟩ => hb ▸ hy a ha

theorem Keeps.orElse (hx : x.Keeps text Q) (hx' : x'.Keeps text Q) : (x <|> x').Keeps text Q := by
  intro log hl
  have h := hx log hl
  rw [orElse_apply]
  generalize x log = r at h
  obtain ⟨_ | b, l⟩ := r
  · exact hx' l h.1
  · exact h

end Attempt

namespace Rule

open Attempt

/-- A place of the text with at most `size` characters and `n` openings ahead. -/
structure Near (text : List Char) (size n : Nat) (c : Cursor) : Prop where
  of : c.Of text
  length_le : c.rest.length ≤ size
  openings_le : openings c.rest ≤ n

variable {inner : Rule Filter} {c d : Cursor} {size n : Nat} {u : List Char}

theorem Near.spans (h : Near text size n c) (hs : c.Spans u d) : Near text size n d where
  of := h.of.spans hs
  length_le := by
    have hle := hs.length_eq
    have hsize := h.length_le
    omega
  openings_le := Nat.le_trans (Grammar.openings_of_spans hs) h.openings_le

theorem Near.reads (h : Near text size n c) (hr : c.Reads d) : Near text size n d := by
  obtain ⟨_, _, _, hs⟩ := hr
  exact h.spans hs

/-! ## Rules that keep the limit -/

section

variable (hs : ∀ d, (inner d).Sticky)
  (hf : ∀ d, d.Of text → d.rest.length ≤ size → (inner d).Follows text (full d) ofStatement)
  (hi : ∀ d, Near text size n d → openings d.rest < n → (inner d).Keeps text fun _ => True)

include hi

theorem keeps_group (hc : Near text size n c) : (group inner c).Keeps text fun _ => True := by
  refine (records_literal "(" c).bind_keeps fun c₁ h₁ => (records_anySpaces c₁).bind_keeps fun c₂ h₂ => ?_
  have hs₂ := Grammar.spans_anySpaces h₂
  have hlt := Grammar.openings_of_open h₁
  have hle := Grammar.openings_of_spans hs₂
  have hn := hc.openings_le
  refine (hi c₂ ((hc.spans (Grammar.spans_literal h₁)).spans hs₂) (by omega)).bind
    fun ⟨_, d⟩ _ => ?_
  exact (records_anySpaces d).bind_keeps fun c₃ _ => (records_literal ")" c₃).bind_keeps fun _ _ => keeps_pure trivial

theorem keeps_negation (hc : Near text size n c) : (negation inner c).Keeps text fun _ => True := by
  refine (records_literal "NOT" c).bind_keeps fun c₁ h₁ => (records_someSpaces c₁).bind_keeps fun c₂ h₂ => ?_
  have hr₂ := (Grammar.readsPlain_someSpaces h₂).reads
  have hlt := Grammar.openings_of_not h₁
  have hle := Grammar.openings_of_reads hr₂
  have hn := hc.openings_le
  refine (hi c₂ ((hc.spans (Grammar.spans_literal h₁)).reads hr₂) (by omega)).bind
    fun ⟨_, _⟩ _ => keeps_pure trivial

include hs hf

theorem keeps_expression (hc : Near text size n c) : (expression inner c).Keeps text fun p => Near text size n p.2 := by
  have hsize := hc.length_le
  have hfollows := follows_expression hc.of hs fun d hd hlt => hf d hd (by omega)
  refine hfollows.keeps (fun log hl => ?_) fun ⟨_, d⟩ h => hc.reads (Grammar.reads_expression Grammar.reads_full h)
  have halternatives : (alternatives inner c).Keeps text fun _ => True := by
    rw [alternatives_eq]
    exact ((records_anyComparison c).keeps fun _ _ => trivial).orElse (keeps_group hi hc)
  cases hk : log.known[c.index]? with
  | some r =>
    rw [expression_of_known hk]
    exact hl.overflow_eq
  | none =>
    rw [expression_of_unknown hk]
    exact (halternatives log hl).1.overflow_eq

/-- **A chain** keeps the limit, operand by operand. -/
theorem keeps_operands (fuel : Nat) : ∀ (earlier : List (Filter × Connective)) (c : Cursor), Near text size n c →
    (operands inner fuel earlier c).Keeps text fun _ => True := by
  induction fuel with
  | zero =>
    intro earlier c hc
    exact ((keeps_expression hs hf hi hc).bind fun _ _ => keeps_pure trivial).orElse
      ((keeps_negation hi hc).bind fun _ _ => keeps_pure trivial)
  | succ fuel ih =>
    intro earlier c hc
    refine ((keeps_expression hs hf hi hc).bind fun ⟨operand, d⟩ hd => ?_).orElse
      ((keeps_negation hi hc).bind fun _ _ => keeps_pure trivial)
    -- connectives nest nothing: the operands behind one stand at the same level
    show (links inner (fuel + 1) operand earlier d).Keeps text _
    rw [links_succ]
    refine ((records_connective d).bind_keeps fun ⟨link, next⟩ hn => ?_).orElse (keeps_pure trivial)
    exact ih _ next (hd.reads (Grammar.readsPlain_connective hn).reads)

end

/-- **A statement** with fewer openings ahead than levels left keeps the limit. -/
theorem keeps_statement (fuel levels : Nat) : ∀ c, c.Of text → c.rest.length ≤ fuel → openings c.rest < levels →
    (statement fuel levels c).Keeps text fun _ => True := by
  induction levels with
  | zero => intro c _ _ h; omega
  | succ levels ih =>
    intro c hc hf ho log hl
    rw [statement_succ, hl.overflow_eq]
    exact keeps_operands (sticky_statement fuel levels) (follows_statement fuel levels)
      (fun d hd hlt => ih d hd.of hd.length_le hlt) fuel [] c ⟨hc, hf, Nat.le_of_lt_succ ho⟩ log hl

theorem keeps_start (fuel : Nat) (hc : c.Of text) (hf : c.rest.length ≤ fuel) (ho : openings c.rest < nestingLimit) :
    (start fuel c).Keeps text fun _ => True := by
  refine (records_anySpaces c).bind_keeps fun c₁ h₁ => ?_
  have hc₁ := Near.spans ⟨hc, hf, Nat.le_of_lt ho⟩ (Grammar.spans_anySpaces h₁)
  have ho₁ := Nat.lt_of_le_of_lt (Grammar.openings_of_spans (Grammar.spans_anySpaces h₁)) ho
  refine ((keeps_statement fuel nestingLimit c₁ hc₁.of hc₁.length_le ho₁).orElse
    (keeps_group (fun d hd hlt => keeps_statement fuel nestingLimit d hd.of hd.length_le hlt) hc₁)).bind
      fun ⟨_, d⟩ _ => ?_
  exact (records_anySpaces d).bind_keeps fun _ _ => keeps_pure trivial

end Rule

/-! ## Texts -/

/-- **A text with fewer openings than the limit** is not refused for its nesting. -/
theorem problem_of_openings {text : String} {e : SyntaxError} (h : Filter.parse text = .error e)
    (ho : openings text.toList < nestingLimit) : e.problem ≠ .nestedTooDeep := by
  have hkeeps := Rule.keeps_start (c := ⟨0, text.toList⟩) text.toList.length rfl (Nat.le_refl _) ho
  have hcalm := (hkeeps {} ⟨rfl, [], Log.tracks_empty⟩).1.overflow_eq
  unfold Filter.parse at h
  simp only at h
  generalize Rule.start text.toList.length ⟨0, text.toList⟩ {} = r at h hcalm
  have herror {log : Log} (hl : log.overflow = none) : (log.error text.toList).problem ≠ .nestedTooDeep := by
    rw [Log.error_eq hl]
    nofun
  obtain ⟨_ | p, log⟩ := r
  · cases h
    exact herror hcalm
  · simp only at h
    split at h
    · cases h
    · cases h
      exact herror ((Log.overflow_miss log _ _).trans hcalm)

end SearchFilter
