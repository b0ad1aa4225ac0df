import SearchFilter.Filter.Calls
import SearchFilter.Proofs.Offsets.Agreement

/-!
# What the machine never takes back

Whatever a step of the machine does, and whether or not it succeeds, the state behind it is one that its first state
precedes (`Reader.Progresses`): the furthest place does not move back, the first place that passed the nesting limit
stays, and only what is missing is noted.

* `Precedes.trans`, `precedes_miss` — changes of the state.
* `Progresses.bind`, `Progresses.orElse` — one step behind another, and one in the place of another.
* `progresses_expression` — an expression is stored between two characters.
* `progresses_statement`, `progresses_start` — the rules.
-/

namespace SearchFilter.Offsets

variable {text : List Char} {s t u : State}

/-! ## States -/

theorem Precedes.refl (s : State) : Precedes text s s where
  furthest_le := Nat.le_refl _
  expected := ⟨[], by simp, by simp⟩
  overflow _ h := h
  known _ _ h := .inl h

theorem Precedes.trans (h : Precedes text s t) (h' : Precedes text t u) : Precedes text s u where
  furthest_le := Nat.le_trans h.furthest_le h'.furthest_le
  expected := by
    obtain ⟨new, heq, hnew⟩ := h.expected
    obtain ⟨new', heq', hnew'⟩ := h'.expected
    have hle := h.furthest_le
    have hle' := h'.furthest_le
    by_cases hfurthest : u.furthest = t.furthest
    · -- What was new behind the first steps is still missing at the furthest place.
      refine ⟨new' ++ new, ?_, ?_⟩
      · rw [heq', if_pos hfurthest, heq, hfurthest, List.append_assoc]
      · intro e he
        rcases List.mem_append.1 he with he | he
        · exact hnew' e he
        · rw [hfurthest]
          exact hnew e he
    · have hne : u.furthest ≠ s.furthest := by omega
      exact ⟨new', by rw [heq', if_neg hfurthest, if_neg hne], hnew'⟩
  overflow offset ho := h'.overflow offset (h.overflow offset ho)
  known offset result hk := by
    rcases h'.known offset result hk with hk | hbetween
    · exact h.known offset result hk
    · exact .inr hbetween

/-- The offset may be anything. -/
theorem Precedes.seek (h : Precedes text s t) (n : Nat) : Precedes text s { t with offset := n } := { h with }

/-- The depth may be anything. -/
theorem Precedes.atDepth (h : Precedes text s t) (n : Nat) : Precedes text s { t with depth := n } := { h with }

theorem precedes_miss {e : Expectation} (h : MissingAt text s.offset e) : Precedes text s (s.miss e) := by
  unfold State.miss
  by_cases hlt : s.offset < s.furthest
  · rw [if_pos hlt]
    exact .refl s
  rw [if_neg hlt]
  have hmissing : ∀ x ∈ [e], MissingAt text s.offset x := by simpa using h
  by_cases hgt : s.furthest < s.offset
  · rw [if_pos hgt]
    exact {
      furthest_le := Nat.le_of_lt hgt
      expected := ⟨[e], by simp [Nat.ne_of_gt hgt], hmissing⟩
      overflow := fun _ h => h
      known := fun _ _ h => .inl h }
  · rw [if_neg hgt]
    have heq : s.furthest = s.offset := by omega
    exact {
      furthest_le := Nat.le_refl _
      expected := ⟨[e], by simp, by rwa [← heq] at hmissing⟩
      overflow := fun _ h => h
      known := fun _ _ h => .inl h }

/-- A remembered expression is stored at an offset between two characters. -/
theorem Precedes.store {i : Nat} (h : Precedes text s t) (hi : i ≤ text.length) (result : Option (Filter × Nat)) :
    Precedes text s { t with known := t.known.insert (byteLength (text.take i)) result } where
  furthest_le := h.furthest_le
  expected := h.expected
  overflow := h.overflow
  known offset result' hk := by
    rw [Std.HashMap.getElem?_insert] at hk
    split at hk
    · next heq => exact .inr ⟨i, hi, (beq_iff_eq.1 heq).symm⟩
    · exact h.known offset result' hk

/-- An offset behind which there is a text is between two characters. -/
theorem exists_place_of_behind {n : Nat} {rest : List Char} (h : behind n text = .ok rest) :
    ∃ i ≤ text.length, n = byteLength (text.take i) := by
  unfold behind at h
  split at h
  · next u v hcut =>
    obtain ⟨rfl, rfl⟩ := append_of_cut hcut
    exact ⟨u.length, by simp, by rw [List.take_left]⟩
  · cases h

/-! ## Steps -/

section

variable {α β : Type} {x y : Reader α}

/-- The step leaves a state that its first state precedes. -/
def Reader.Progresses (text : List Char) (x : Reader α) : Prop :=
  ∀ s result t, x s = .ok (result, t) → Precedes text s t

open Reader (bind_of_some bind_of_none bind_of_error orElse_of_some orElse_of_none orElse_of_error attempt_of_some
  attempt_of_none attempt_of_error)

theorem progresses_pure (a : α) : (pure a : Reader α).Progresses text := by
  intro s result t h
  cases h
  exact .refl s

theorem Reader.Progresses.bind {f : α → Reader β} (hx : x.Progresses text) (hf : ∀ a, (f a).Progresses text) :
    (x >>= f).Progresses text := by
  intro s result t h
  rcases hs : x s with e | ⟨_ | a, s'⟩
  · rw [bind_of_error hs] at h
    cases h
  · rw [bind_of_none hs] at h
    cases h
    exact hx s none t hs
  · rw [bind_of_some hs] at h
    exact (hx s (some a) s' hs).trans (hf a s' result t h)

theorem Reader.Progresses.orElse (hx : x.Progresses text) (hy : y.Progresses text) : (x <|> y).Progresses text := by
  intro s result t h
  rcases hs : x s with e | ⟨_ | a, s'⟩
  · rw [orElse_of_error hs] at h
    cases h
  · rw [orElse_of_none hs] at h
    exact (hx s none s' hs).trans (hy s' result t h)
  · rw [orElse_of_some hs] at h
    cases h
    exact hx s (some a) t hs

theorem Reader.Progresses.attempt (hx : x.Progresses text) : x.attempt.Progresses text := by
  intro s result t h
  rcases hs : x s with e | ⟨_ | a, s'⟩
  · rw [attempt_of_error hs] at h
    cases h
  · rw [attempt_of_none hs] at h
    cases h
    exact (hx s none s' hs).seek s.offset
  · rw [attempt_of_some hs] at h
    cases h
    exact hx s (some a) t hs

theorem Reader.Progresses.optional (hx : x.Progresses text) : x.optional.Progresses text := by
  intro s result t h
  rcases hs : x s with e | ⟨a, s'⟩
  · simp only [Reader.optional, hs] at h
    cases h
  · simp only [Reader.optional, hs] at h
    cases h
    exact hx s a t hs

/-! ## Tokens -/

/-- A token that cannot be read is missing. -/
theorem progresses_token {kind : TokenClass} {scan : Token α} (hscan : ∀ rest, kind.isAhead rest = (scan rest).isSome) :
    (token text kind scan).Progresses text := by
  intro s result t h
  cases hrest : behind s.offset text with
  | error e =>
    simp only [token, hrest] at h
    cases h
  | ok rest =>
    cases hlexeme : scan rest with
    | none =>
      rw [token_of_none hrest hlexeme] at h
      cases h
      apply precedes_miss
      refine ⟨rest, hrest, ?_⟩
      simp [Expectation.IsMissing, hscan, hlexeme]
    | some lexeme =>
      rw [token_of_some hrest hlexeme] at h
      cases h
      exact (Precedes.refl s).seek _

theorem progresses_literal (word : String) : (literal text word).Progresses text := by
  intro s result t h
  unfold literal at h
  split at h
  · cases h
  · next rest hrest =>
    split at h
    · cases h
      exact (Precedes.refl s).seek _
    · next hword =>
      cases h
      apply precedes_miss
      refine ⟨rest, hrest, ?_⟩
      simpa [Expectation.IsMissing] using hword

theorem progresses_space : (token text .space Token.spaces).Progresses text := progresses_token fun _ => rfl

theorem progresses_spaces (fuel : Nat) : (spaces text fuel).Progresses text := by
  induction fuel with
  | zero => exact fun _ _ _ => nofun
  | succ fuel ih =>
    refine progresses_space.optional.bind fun taken => ?_
    cases taken with
    | none => exact progresses_pure ()
    | some _ => exact ih

theorem progresses_anySpaces : (anySpaces text).Progresses text := progresses_spaces _

theorem progresses_someSpaces : (someSpaces text).Progresses text := progresses_space.bind fun _ => progresses_anySpaces

/-! ## Values and comparisons -/

theorem progresses_value : (value text).Progresses text := by
  have htoken {γ : Type} {kind : TokenClass} {scan : Token γ} (hscan : ∀ rest, kind.isAhead rest = (scan rest).isSome)
      (f : γ → Literal) : (token text kind scan >>= fun a => pure (f a)).Progresses text :=
    (progresses_token hscan).bind fun a => progresses_pure (f a)
  refine (htoken (fun _ => rfl) .number).orElse ((htoken (fun _ => rfl) .boolean).orElse ?_)
  exact (htoken (fun _ => rfl) fun _ => .null).orElse (htoken (fun _ => rfl) .text)

theorem progresses_hasComparison : (hasComparison text).Progresses text :=
  (progresses_token fun _ => rfl).bind fun _ => (progresses_literal _).bind fun _ => progresses_value.bind fun _ =>
    progresses_pure _

theorem progresses_comparison (op : Operator) : (comparison text op).Progresses text :=
  (progresses_token fun _ => rfl).bind fun _ => progresses_anySpaces.bind fun _ => (progresses_literal _).bind fun _ =>
    progresses_anySpaces.bind fun _ => progresses_value.bind fun _ => progresses_pure _

theorem progresses_anyComparison : (anyComparison text).Progresses text := by
  refine progresses_hasComparison.attempt.orElse ?_
  iterate 4 refine (progresses_comparison _).attempt.orElse ?_
  exact (progresses_comparison _).attempt

theorem orElse_assoc (x y z : Reader α) : ((x <|> y) <|> z) = (x <|> (y <|> z)) := by
  funext s
  simp only [Reader.orElse_apply]
  rcases x s with e | ⟨_ | a, t⟩ <;> rfl

end

/-! ## Statements -/

section

variable {m : Reader Filter}

theorem alternatives_eq (m : Reader Filter) :
    alternatives text m = (anyComparison text <|> (group text m).attempt) := by
  simp only [alternatives, anyComparison, orElse_assoc]

theorem progresses_group (hm : m.Progresses text) : (group text m).Progresses text :=
  (progresses_literal "(").bind fun _ => progresses_anySpaces.bind fun _ => hm.bind fun f =>
    progresses_anySpaces.bind fun _ =>
    (progresses_literal ")").bind fun _ => progresses_pure f

theorem progresses_negation (hm : m.Progresses text) : (negation text m).Progresses text :=
  (progresses_literal "NOT").bind fun _ => progresses_someSpaces.bind fun _ => hm.bind fun f =>
    progresses_pure (Filter.not f)

theorem progresses_alternatives (hm : m.Progresses text) : (alternatives text m).Progresses text := by
  rw [alternatives_eq]
  exact progresses_anyComparison.orElse (progresses_group hm).attempt

/-- Alternatives look at the text behind the place where they are tried. -/
theorem alternatives_of_fault {e : Fault} (h : behind s.offset text = .error e) : alternatives text m s = .error e := by
  have htoken : token text .word Token.word s = .error e := by simp only [token, h]
  have hfirst : hasComparison text s = .error e := Reader.bind_of_error htoken
  exact Reader.orElse_of_error (Reader.attempt_of_error hfirst)

theorem exists_place_of_alternatives {result : Option Filter} (h : alternatives text m s = .ok (result, t)) :
    ∃ i ≤ text.length, s.offset = byteLength (text.take i) := by
  cases hrest : behind s.offset text with
  | error e =>
    rw [alternatives_of_fault hrest] at h
    cases h
  | ok rest => exact exists_place_of_behind hrest

/-- **An expression** changes the state as its alternatives do, and is stored between two characters of the text. -/
theorem progresses_expression (hm : m.Progresses text) : (expression text m).Progresses text := by
  intro s result t h
  cases hknown : s.known[s.offset]? with
  | some found =>
    rw [expression_of_known hknown] at h
    cases h
    exact (Precedes.refl s).seek _
  | none =>
    rcases hs : alternatives text m s with e | ⟨result', s'⟩
    · simp only [expression, hknown, hs] at h
      cases h
    · rw [expression_of_unknown hknown hs] at h
      cases h
      obtain ⟨i, hi, hoffset⟩ := exists_place_of_alternatives hs
      rw [hoffset]
      exact (progresses_alternatives hm s _ s' hs).store hi _

theorem progresses_connective : (connective text).Progresses text := by
  have hkeyword (link : Connective) : (literal text link.keyword >>= fun _ => pure link).Progresses text :=
    (progresses_literal _).bind fun _ => progresses_pure link
  exact progresses_someSpaces.bind fun _ => ((hkeyword .and).orElse (hkeyword .or)).bind fun link =>
    progresses_someSpaces.bind fun _ => progresses_pure link

theorem progresses_links (hm : m.Progresses text) (fuel : Nat) :
    ∀ (last : Filter) (earlier : List (Filter × Connective)),
    (links text m fuel last earlier).Progresses text := by
  induction fuel with
  | zero => exact fun _ _ _ _ _ => nofun
  | succ fuel ih =>
    intro last earlier s result t h
    rw [links_succ_apply] at h
    rcases h₁ : connective text s with e | ⟨_ | link, s₁⟩ <;> rw [h₁] at h
    · cases h
    · cases h
      exact (progresses_connective s none s₁ h₁).seek _
    have hs₁ := progresses_connective s _ s₁ h₁
    dsimp only at h
    rcases h₂ : expression text m s₁ with e | ⟨_ | operand, s₂⟩ <;> rw [h₂] at h
    · cases h
    · have hs₂ := hs₁.trans (progresses_expression hm s₁ _ s₂ h₂)
      dsimp only at h
      rcases h₃ : (negation text m).attempt s₂ with e | ⟨_ | operand, s₃⟩ <;> rw [h₃] at h
      · cases h
      · cases h
        exact (hs₂.trans ((progresses_negation hm).attempt s₂ _ s₃ h₃)).seek _
      · cases h
        exact hs₂.trans ((progresses_negation hm).attempt s₂ _ t h₃)
    · have hs₂ := hs₁.trans (progresses_expression hm s₁ _ s₂ h₂)
      exact hs₂.trans (ih operand _ s₂ result t h)

theorem progresses_chain (hm : m.Progresses text) : (chain text m).Progresses text :=
  (progresses_expression hm).bind fun first => progresses_links hm text.length first []

end

theorem progresses_statement (calls : Nat) : (statement text calls).Progresses text := by
  induction calls with
  | zero => exact fun _ _ _ => nofun
  | succ calls ih =>
    intro s result t h
    rw [statement_succ_apply] at h
    split at h
    · cases h
      exact .refl s
    next hpassed =>
    split at h
    · cases h
      have hsame : Precedes text s s := .refl s
      exact { hsame with overflow := fun offset ho => by simp [ho] at hpassed }
    split at h
    · cases h
    next result' t' hs =>
    cases h
    have hrules := (progresses_chain ih).orElse (progresses_negation ih).attempt
    have hdeeper : Precedes text s { s with depth := s.depth + 1 } := (Precedes.refl s).atDepth _
    exact (hdeeper.trans (hrules _ _ t' hs)).atDepth _

theorem progresses_start : (start text).Progresses text := by
  have hstatement : (statement text (nestingLimit + 1)).Progresses text := progresses_statement _
  have hblock := hstatement.orElse (progresses_group hstatement).attempt
  exact progresses_anySpaces.bind fun _ => hblock.bind fun f => progresses_anySpaces.bind fun _ => progresses_pure f

/-- **Every call** leaves a state that the state where it is made precedes. -/
theorem progresses_reader (calls : Nat) (call : Call) : (call.reader text calls).Progresses text := by
  have hinner : (statement text calls).Progresses text := progresses_statement calls
  cases call with
  | start => exact progresses_start
  | statement => exact hinner
  | chain => exact progresses_chain hinner
  | expression => exact progresses_expression hinner
  | negation => exact (progresses_negation hinner).attempt
  | group => exact (progresses_group hinner).attempt
  | links fuel last earlier => exact progresses_links hinner fuel last earlier

end SearchFilter.Offsets
