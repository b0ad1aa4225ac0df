import SearchFilter.Proofs.Grammar.Levels
import SearchFilter.Proofs.Parser.Agreement

/-!
# The nesting limit

Where the grammar derives a whole text, reading it never gives up an alternative that nests: the first statement too
deep that is met is the leftmost one of the derivation, and if there is none the text is read (`parse_of_derivation`).

* `Attempt.Nests` — what an attempt on the derived path does to the limit.
* `nests_statement` — the statement that the grammar derives, at any level.
* `parse_eq_ok_iff` — what is read: the filters of derivations within the limit.
-/

namespace SearchFilter

open Grammar (Trial full Statement)

/-! ## Attempts on the derived path -/

/-- Nothing is remembered from place `i` on. -/
def Log.FreshFrom (log : Log) (i : Nat) : Prop := ∀ j ≥ i, log.known[j]? = none

namespace Attempt

variable {α β δ : Type} {x x' : Attempt β} {t : Trial α} {f : α → β} {a : α} {b : β} {b' : δ} {y : β → Attempt δ}
  {i j k : Nat} {o o' : Option Nat}

/-- With nothing remembered from place `i` on, the attempt first passes the limit at `o`; if it does not pass it, it
gives `b` and remembers nothing from place `j` on. -/
def Nests (x : Attempt β) (i j : Nat) (b : β) (o : Option Nat) : Prop := ∀ log, log.overflow = none → log.FreshFrom i →
  (x log).2.overflow = o ∧ (o = none → (x log).1 = some b ∧ (x log).2.FreshFrom j)

theorem Records.freshFrom (h : x.Records t f) {log : Log} (hf : log.FreshFrom i) (hij : i ≤ j) :
    (x log).2.FreshFrom j := by
  intro n hn
  rw [h log, Log.known_missAll]
  exact hf n (Nat.le_trans hij hn)

theorem Records.bind_nests (h : x.Records t f) (ha : t.result = some a) (hij : i ≤ j)
    (hy : (y (f a)).Nests j k b' o) : (x >>= y).Nests i k b' o := by
  intro log ho hf
  have hx := h log
  rw [ha] at hx
  have hfresh := h.freshFrom hf hij
  rw [bind_of_some hx]
  rw [hx] at hfresh
  exact hy _ ((Log.overflow_missAll log _).trans ho) hfresh

/-- What fails by recording only goes on failing. -/
theorem Records.bind_none {γ : Type} {g : γ → δ} (h : x.Records t f) (ht : t.result = none) (y : β → Attempt δ) :
    (x >>= y).Records (⟨none, t.misses⟩ : Trial γ) g := by
  intro log
  have hx := h log
  rw [ht] at hx
  exact bind_of_none hx

theorem nests_pure (b : β) (hij : i ≤ j) : (Pure.pure b : Attempt β).Nests i j b none := fun _ ho hf =>
  ⟨ho, fun _ => ⟨rfl, fun n hn => hf n (Nat.le_trans hij hn)⟩⟩

theorem Records.nests (h : x.Records t f) (ha : t.result = some a) (hij : i ≤ j) : x.Nests i j (f a) none := by
  intro log ho hf
  have hfresh := h.freshFrom hf hij
  rw [h log, ha] at hfresh ⊢
  exact ⟨(Log.overflow_missAll log _).trans ho, fun _ => ⟨rfl, hfresh⟩⟩

/-- The limit is first passed in the first attempt or, if not there, in the second. -/
theorem Nests.bind (hx : x.Nests i j b o) (hs : ∀ b, (y b).Sticky) (hy : (y b).Nests j k b' o') :
    (x >>= y).Nests i k b' (o.or o') := by
  intro log ho hf
  obtain ⟨hxo, hxn⟩ := hx log ho hf
  rw [bind_apply]
  cases o with
  | some n =>
    generalize x log = r at hxo
    obtain ⟨_ | c, l⟩ := r
    · exact ⟨hxo, nofun⟩
    · exact ⟨hs c l n hxo, nofun⟩
  | none =>
    obtain ⟨hb, hfresh⟩ := hxn rfl
    generalize x log = r at hxo hb hfresh
    obtain ⟨_ | c, l⟩ := r
    · cases hb
    · cases hb
      exact hy l hxo hfresh

theorem Nests.orElse (hx : x.Nests i j b o) (hs : x'.Sticky) : (x <|> x').Nests i j b o := by
  intro log ho hf
  obtain ⟨hxo, hxn⟩ := hx log ho hf
  rw [orElse_apply]
  cases o with
  | some n =>
    generalize x log = r at hxo
    obtain ⟨_ | c, l⟩ := r
    · exact ⟨hs l n hxo, nofun⟩
    · exact ⟨hxo, nofun⟩
  | none =>
    obtain ⟨hb, hfresh⟩ := hxn rfl
    generalize x log = r at hxo hb hfresh
    obtain ⟨_ | c, l⟩ := r
    · cases hb
    · cases hb
      exact ⟨hxo, fun _ => ⟨rfl, hfresh⟩⟩

/-- A failure that only records does not count. -/
theorem Records.orElse_nests (h : x.Records t f) (ht : t.result = none) (hx : x'.Nests i j b o) :
    (x <|> x').Nests i j b o := by
  intro log ho hf
  have hn := h log
  rw [ht] at hn
  have hfresh := h.freshFrom hf (Nat.le_refl i)
  rw [orElse_of_none hn]
  rw [hn] at hfresh
  exact hx _ ((Log.overflow_missAll log _).trans ho) hfresh

end Attempt

namespace Rule

open Attempt

variable {inner : Rule Filter} {c d : Cursor} {s : Statement} {level fuel n : Nat}
  {earlier : List (Filter × Connective)}

/-! ## Rules on the derived path -/

theorem anySpaces_bind_nests {δ : Type} {y : Cursor → Attempt δ} {b : δ} {k : Nat} {o : Option Nat}
    (h : (y c.pastSpaces).Nests c.pastSpaces.index k b o) : (anySpaces c >>= y).Nests c.index k b o := by
  have hi := c.spans_pastSpaces.index_eq
  exact (records_anySpaces c).bind_nests (Grammar.anySpaces_eq_some_iff.2 rfl) (by omega) h

/-- A rule that reads the statements of fewer than `n` characters that stand at level `level`. -/
def NestsStatements (inner : Rule Filter) (n level : Nat) : Prop := ∀ (c : Cursor) (s : Statement) (d : Cursor),
  c.rest.length < n → (full c).result = some (s, d) → d.Closed →
    (inner c).Nests c.index d.index (s.toFilter, d) (overrun (s.levels level))

theorem nests_group (hi : inner.NestsStatements c.rest.length level)
    (h : (Grammar.group full c).result = some (s, d)) :
    (group inner c).Nests c.index d.index (s.toFilter, d) (overrun (s.levels level)) := by
  obtain ⟨ho, e, hfull, hc, rfl⟩ := Grammar.group_eq_some_iff.1 h
  have hopen := Grammar.literal_open_eq_some_iff.2 ⟨ho, rfl⟩
  have hclose := Grammar.literal_close_eq_some_iff.2 ⟨hc, rfl⟩
  have hlt := (Grammar.spans_literal hopen).length_lt (by decide)
  have hle := Grammar.length_pastSpaces_le (c.advance 1)
  have hopen' := (Grammar.spans_literal hopen).index_eq
  have hclose' := (Grammar.spans_literal hclose).index_eq
  apply (records_literal "(" c).bind_nests (j := (c.advance 1).index) hopen (by omega)
  apply anySpaces_bind_nests
  rw [← Option.or_none (o := overrun (s.levels level))]
  refine (hi _ s e (by omega) hfull (.inr hc)).bind (fun ⟨f, d⟩ => sticky_close f d) ?_
  apply anySpaces_bind_nests
  exact (records_literal ")" _).bind_nests (j := (e.pastSpaces.advance 1).index) hclose (by omega)
    (nests_pure _ (Nat.le_refl _))

/-- What is remembered of an expression lies before its end. -/
theorem nests_expression_of_alternatives {b : Filter × Cursor} {o : Option Nat} {j : Nat} (hj : c.index < j)
    (h : (alternatives inner c).Nests c.index j b o) : (expression inner c).Nests c.index j b o := by
  intro log ho hf
  obtain ⟨hover, hnone⟩ := h log ho hf
  rw [expression_of_unknown (hf c.index (Nat.le_refl _))]
  refine ⟨hover, fun hn => ?_⟩
  obtain ⟨hb, hfresh⟩ := hnone hn
  refine ⟨hb, fun k hk => ?_⟩
  have hne : ¬ (c.index == k) = true := by simp; omega
  show ((alternatives inner c log).2.known.insert c.index _)[k]? = none
  rw [Std.HashMap.getElem?_insert, if_neg hne]
  exact hfresh k hk

theorem nests_expression {e : Grammar.Expression} (hs : ∀ d, (inner d).Sticky)
    (hi : inner.NestsStatements c.rest.length (level + 1)) (h : (Grammar.expression full c).result = some (e, d)) :
    (expression inner c).Nests c.index d.index (e.toFilter, d) (overrun (e.levels level)) := by
  have hlt := (Grammar.reads_expression Grammar.reads_full h).index_lt
  apply nests_expression_of_alternatives hlt
  rw [alternatives_eq]
  rcases Grammar.expression_eq_some_iff.1 h with hc | ⟨hn, inner', hg, rfl⟩
  · obtain ⟨op, field, v, rfl⟩ := (Grammar.reads_anyComparison hc).1
    exact ((records_anyComparison c).nests hc (Nat.le_of_lt hlt)).orElse (sticky_group hs c)
  · exact (records_anyComparison c).orElse_nests hn (nests_group hi hg)

/-- Where no expression stands, at no parenthesis, the attempt to read one leaves no trace but what it remembers. -/
theorem expression_eq_none {log : Log} (h : (Grammar.expression full c).result = none) (hp : c.rest.head? ≠ some '(')
    (hf : log.FreshFrom c.index) : (expression inner c log).1 = none ∧
      (expression inner c log).2.overflow = log.overflow ∧ (expression inner c log).2.FreshFrom (c.index + 1) := by
  have hn : (Grammar.anyComparison c).result = none := by
    rw [Grammar.expression_eq, Trial.result_orElse, Option.or_eq_none_iff] at h
    exact h.1
  have hopen : (Grammar.literal "(" c).result = none := by
    cases ho : (Grammar.literal "(" c).result with
    | none => rfl
    | some d => exact absurd (Grammar.literal_open_eq_some_iff.1 ho).1 hp
  have hg : (group inner c).Records (⟨none, (Grammar.literal "(" c).misses⟩ : Trial (Statement × Cursor)) ofStatement :=
    (records_literal "(" c).bind_none hopen _
  have hc := records_anyComparison c log
  rw [hn] at hc
  rw [expression_of_unknown (hf c.index (Nat.le_refl _)), alternatives_eq, orElse_of_none hc, hg]
  refine ⟨rfl, (Log.overflow_missAll _ _).trans (Log.overflow_missAll _ _), fun k hk => ?_⟩
  have hne : ¬ (c.index == k) = true := by simp; omega
  show (Std.HashMap.insert _ c.index _)[k]? = none
  rw [Std.HashMap.getElem?_insert, if_neg hne, Log.known_missAll, Log.known_missAll]
  exact hf k (by omega)

theorem nests_negation (hl : level ≤ nestingLimit) (hi : inner.NestsStatements c.rest.length (level + 1))
    (h : (Grammar.negated full c).result = some (s, d)) (hd : d.Closed) :
    (negation inner c).Nests (c.index + 1) d.index (s.toFilter, d) (overrun (s.levels level)) := by
  obtain ⟨c₁, c₂, operand, h₁, h₂, hr, rfl⟩ := Grammar.negated_eq_some_iff.1 h
  have hs₁ := Grammar.spans_literal h₁
  have hr₂ := (Grammar.readsPlain_someSpaces h₂).reads
  have hlen : "NOT".toList.length = 3 := rfl
  have hi₁ := hs₁.index_eq
  have hi₂ := hr₂.index_lt
  have hl₁ := hs₁.length_eq
  have hl₂ := hr₂.length_lt
  have hlevels : overrun ((Statement.not c.index operand).levels level) =
      (overrun (operand.levels (level + 1))).or none := by
    rw [Option.or_none]
    exact overrun_cons_of_le hl _
  rw [hlevels]
  apply (records_literal "NOT" c).bind_nests (j := c₁.index) h₁ (by omega)
  apply (records_someSpaces c₁).bind_nests h₂ (Nat.le_of_lt hi₂)
  exact (hi c₂ operand d (by omega) hr hd).bind (fun ⟨_, _⟩ => sticky_pure _) (nests_pure _ (Nat.le_refl _))

theorem nests_operands_of_links (hl : level ≤ nestingLimit) (hs : ∀ d, (inner d).Sticky)
    (hi : inner.NestsStatements c.rest.length (level + 1)) (h : (full c).result = some (s, d)) (hd : d.Closed)
    (hlinks : ∀ left c₁ next, (Grammar.expression full c).result = some (left, c₁) →
      (Grammar.continuation c₁).result = some (next, d) →
      (links inner fuel left.toFilter earlier c₁).Nests c₁.index d.index
        (joinAll (Statement.extend c.index left next).toFilter earlier, d)
        (overrun (Grammar.continuedLevels level next))) :
    (operands inner fuel earlier c).Nests c.index d.index (joinAll s.toFilter earlier, d)
      (overrun (s.levels level)) := by
  rcases Grammar.full_eq_some_iff.1 h with ⟨left, c₁, next, he, hn, rfl⟩ | ⟨he, hneg⟩
  · rw [Grammar.levels_extend, overrun_cons_of_le hl, overrun_append]
    refine Nests.orElse ?_ ((sticky_negation hs c).bind fun ⟨_, _⟩ => sticky_pure _)
    exact (nests_expression hs hi he).bind (fun ⟨f, e⟩ => sticky_links hs fuel f earlier e) (hlinks left c₁ next he hn)
  · intro log ho hf
    obtain ⟨_, _, _, hnot, _⟩ := Grammar.negated_eq_some_iff.1 hneg
    have hp : c.rest.head? ≠ some '(' := by
      obtain ⟨v, hv⟩ := (Grammar.literal_eq_some_iff.1 hnot).1
      rw [← hv]
      nofun
    obtain ⟨hr, hover, hfresh⟩ := @expression_eq_none inner c log he hp hf
    have hnone : expression inner c log = (none, (expression inner c log).2) := Prod.ext hr rfl
    have hx := Attempt.bind_of_none (f := fun p : Filter × Cursor => links inner fuel p.1 earlier p.2) hnone
    have hnests := (nests_negation hl hi hneg hd).bind (fun p => sticky_pure (joinAll p.1 earlier, p.2))
      (nests_pure (joinAll s.toFilter earlier, d) (Nat.le_refl _))
    rw [Option.or_none] at hnests
    rw [operands, orElse_of_none hx]
    exact hnests _ (hover.trans ho) hfresh

/-- **A chain** on the derived path: nothing that is read is given up. -/
theorem nests_operands (hl : level ≤ nestingLimit) (hs : ∀ d, (inner d).Sticky)
    (hi : inner.NestsStatements n (level + 1)) (fuel : Nat) : ∀ (earlier : List (Filter × Connective)) (c : Cursor)
    (s : Statement) (d : Cursor), c.rest.length ≤ fuel → c.rest.length ≤ n → (full c).result = some (s, d) → d.Closed →
      (operands inner fuel earlier c).Nests c.index d.index (joinAll s.toFilter earlier, d)
        (overrun (s.levels level)) := by
  induction fuel with
  | zero =>
    intro earlier c s d hf hn h hd
    have hlt := (Grammar.reads_full _ _ _ h).length_lt
    omega
  | succ fuel ih =>
    intro earlier c s d hf hn h hd
    refine nests_operands_of_links hl hs (fun e t e' he => hi e t e' (by omega)) h hd fun left c₁ next he hnext => ?_
    have hlt := (Grammar.reads_expression Grammar.reads_full he).length_lt
    rw [links_succ]
    rcases Grammar.continuation_eq_some_iff.1 hnext with ⟨link, right, c₂, hc, hr, rfl⟩ | ⟨_, rfl, rfl⟩
    · have hrc := (Grammar.readsPlain_connective hc).reads
      have hltc := hrc.length_lt
      refine Nests.orElse ((records_connective c₁).bind_nests hc (Nat.le_of_lt hrc.index_lt) ?_) (sticky_pure _)
      exact ih ((left.toFilter, link) :: earlier) c₂ right d (by omega) (by omega) hr hd
    · have hfail := (records_connective c₁).bind_none (g := ofStatement) (Grammar.connective_of_closed hd)
        fun p => operands inner fuel ((left.toFilter, p.1) :: earlier) p.2
      exact hfail.orElse_nests rfl (nests_pure _ (Nat.le_refl _))

/-- **A statement** that the grammar derives, at any level: read, or given up where it first passes the limit. -/
theorem nests_statement (fuel levels : Nat) : ∀ level, level + levels = nestingLimit + 1 →
    (statement fuel levels).NestsStatements (fuel + 1) level := by
  induction levels with
  | zero =>
    intro level hl c s d _ h _ log ho _
    obtain ⟨ls, hls⟩ := Grammar.exists_levels_eq h level
    rw [hls, overrun_cons_of_lt (by omega)]
    refine ⟨?_, nofun⟩
    show (log.overflow <|> some c.index) = some c.index
    rw [ho]
    rfl
  | succ levels ih =>
    intro level hl c s d hf h hd log ho hfresh
    have hnests := nests_operands (by omega) (sticky_statement fuel levels) (ih (level + 1) (by omega)) fuel [] c s d
      (by omega) (by omega) h hd
    rw [statement_succ, ho]
    exact hnests log ho hfresh

/-- A whole text that is derived starts at level 1. -/
theorem nests_start {text : List Char} (h : (full (Cursor.mk 0 text).pastSpaces).result = some (s, d))
    (hd : d.pastSpaces.rest = []) :
    (start text.length ⟨0, text⟩).Nests 0 d.pastSpaces.index (s.toFilter, d.pastSpaces) (overrun (s.levels 1)) := by
  have hle := Grammar.length_pastSpaces_le (Cursor.mk 0 text)
  have hstatement := nests_statement text.length nestingLimit 1 (Nat.add_comm _ _) _ s d (Nat.lt_succ_of_le hle) h
    (.inl hd)
  refine anySpaces_bind_nests (c := ⟨0, text⟩) ?_
  rw [← Option.or_none (o := overrun (s.levels 1))]
  refine (hstatement.orElse (sticky_group (sticky_statement _ _) _)).bind (fun ⟨f, e⟩ => sticky_end f e) ?_
  exact anySpaces_bind_nests (nests_pure _ (Nat.le_refl _))

end Rule

/-! ## Texts -/

/-- **The nesting limit.** A text that is derived is read or, if a statement of the derivation is nested too deep,
refused where the first such statement starts. -/
theorem parse_of_derivation {text : String} {s : Statement} (h : (Grammar.derivation text.toList).result = some s) :
    Filter.parse text = match overrun (s.levels 1) with
      | none => .ok s.toFilter
      | some i => .error (.locate .nestedTooDeep text.toList i) := by
  obtain ⟨d, hs, hd⟩ := Grammar.derivation_eq_some_iff.1 h
  have hstart := Rule.nests_start hs hd
  obtain ⟨hover, hnone⟩ := hstart {} rfl fun j _ => by simp
  unfold Filter.parse
  simp only
  cases ho : overrun (s.levels 1) with
  | none =>
    obtain ⟨hr, _⟩ := hnone ho
    rw [ho] at hover
    generalize Rule.start text.toList.length ⟨0, text.toList⟩ {} = r at hover hr
    obtain ⟨result, log⟩ := r
    cases hr
    have hlog : log.overflow = none := hover
    simp [hlog, hd]
  | some i =>
    rw [ho] at hover
    generalize Rule.start text.toList.length ⟨0, text.toList⟩ {} = r at hover
    obtain ⟨result, log⟩ := r
    have hlog : log.overflow = some i := hover
    cases result with
    | none => simp [Log.error, hlog]
    | some p => simp [Log.error, hlog, Log.overflow_miss]

/-- What is read are the filters of derivations within the limit. -/
theorem parse_eq_ok_iff {text : String} {f : Filter} : Filter.parse text = .ok f ↔
    ∃ s, (Grammar.derivation text.toList).result = some s ∧ s.Fits 1 ∧ s.toFilter = f := by
  constructor
  · intro h
    rcases parse_cases text with ⟨e, he, _⟩ | ⟨log, _, _, hparse⟩
    · rw [he] at h
      cases h
    · cases hr : (Grammar.derivation text.toList).result with
      | none => rw [hparse, hr] at h; cases h
      | some s =>
        have hlimit := parse_of_derivation hr
        rw [h] at hlimit
        cases ho : overrun (s.levels 1) with
        | none =>
          rw [ho] at hlimit
          exact ⟨s, rfl, Grammar.overrun_eq_none_iff.1 ho, (Except.ok.inj hlimit).symm⟩
        | some i => rw [ho] at hlimit; cases hlimit
  · rintro ⟨s, hs, hl, rfl⟩
    rw [parse_of_derivation hs, Grammar.overrun_eq_none_iff.2 hl]

end SearchFilter
