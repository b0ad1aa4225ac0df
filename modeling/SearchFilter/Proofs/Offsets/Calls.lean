import SearchFilter.Proofs.Offsets.Progress

/-!
# The states of calls in their order

A call that another one makes starts behind the start of that one and ends before its end, so the states in which calls
start and end stand in one line, each preceding the next.

* `Makes.precedes` — from the start of a call to the start of a call that it makes.
* `Makes.precedes_end` — from the end of a call to the end of the call that made it.
-/

namespace SearchFilter.Offsets

variable {text : List Char} {s t t' u : State} {p q : Point}

/-! ## Steps that have begun -/

namespace Reader

variable {α β : Type} {x y : Reader α} {r : Option β} {r' ra : Option α}

theorem exists_of_bind {f : α → Reader β} (h : (x >>= f) s = .ok (r, t)) : ∃ r' t', x s = .ok (r', t') := by
  rcases hs : x s with e | ⟨r', t'⟩
  · rw [bind_of_error hs] at h
    cases h
  · exact ⟨r', t', rfl⟩

theorem exists_of_attempt (h : x.attempt s = .ok (ra, t)) : ∃ r' t', x s = .ok (r', t') := by
  rcases hs : x s with e | ⟨r', t'⟩
  · rw [attempt_of_error hs] at h
    cases h
  · exact ⟨r', t', rfl⟩

/-- What is left of a sequence behind its first step. -/
theorem precedes_of_bind {f : α → Reader β} (hf : ∀ a, (f a).Progresses text) (hx : x s = .ok (r', t'))
    (h : (x >>= f) s = .ok (r, t)) : Precedes text t' t := by
  cases r' with
  | none =>
    rw [bind_of_none hx] at h
    cases h
    exact .refl _
  | some a =>
    rw [bind_of_some hx] at h
    exact hf a t' r t h

/-- What is left of a choice behind its first step. -/
theorem precedes_of_orElse (hy : y.Progresses text) (hx : x s = .ok (r', t')) (h : (x <|> y) s = .ok (ra, t)) :
    Precedes text t' t := by
  cases r' with
  | none =>
    rw [orElse_of_none hx] at h
    exact hy t' ra t h
  | some a =>
    rw [orElse_of_some hx] at h
    cases h
    exact .refl _

theorem precedes_of_attempt (hx : x s = .ok (r', t')) (h : x.attempt s = .ok (ra, t)) : Precedes text t' t := by
  cases r' with
  | none =>
    rw [attempt_of_none hx] at h
    cases h
    exact (Precedes.refl t').seek s.offset
  | some a =>
    rw [attempt_of_some hx] at h
    cases h
    exact .refl _

end Reader

open Reader (bind_of_some orElse_of_none exists_of_bind exists_of_attempt precedes_of_bind precedes_of_orElse
  precedes_of_attempt)

/-! ## Starts of calls -/

/-- A call starts in a state that the start of the call around it precedes. -/
theorem Makes.precedes (h : Makes text p q) : Precedes text p.state q.state := by
  cases h with
  | startStatement hspaces => exact progresses_anySpaces _ _ _ hspaces
  | startGroup hspaces hfail => exact (progresses_anySpaces _ _ _ hspaces).trans (progresses_statement _ _ _ _ hfail)
  | @statementChain calls s _ _ => exact (Precedes.refl s).atDepth _
  | @statementNegation calls s t _ _ hfail =>
    have hdeeper : Precedes text s { s with depth := s.depth + 1 } := (Precedes.refl s).atDepth _
    exact hdeeper.trans (progresses_chain (progresses_statement calls) _ _ _ hfail)
  | chainExpression => exact .refl _
  | @chainLinks calls _ _ _ hfirst => exact progresses_expression (progresses_statement calls) _ _ _ hfirst
  | linksExpression hlink => exact progresses_connective _ _ _ hlink
  | @linksLinks calls _ _ _ _ _ _ _ _ hlink hoperand =>
    exact (progresses_connective _ _ _ hlink).trans (progresses_expression (progresses_statement calls) _ _ _ hoperand)
  | @linksNegation calls _ _ _ _ _ _ _ hlink hfail =>
    exact (progresses_connective _ _ _ hlink).trans (progresses_expression (progresses_statement calls) _ _ _ hfail)
  | expressionGroup _ hfail => exact progresses_anyComparison _ _ _ hfail
  | negationStatement hword hspaces =>
    exact (progresses_literal "NOT" _ _ _ hword).trans (progresses_someSpaces _ _ _ hspaces)
  | groupStatement hopen hspaces =>
    exact (progresses_literal "(" _ _ _ hopen).trans (progresses_anySpaces _ _ _ hspaces)

/-! ## Ends of calls -/

/-- A statement that neither is nested too deep nor comes behind one is what its rules give, one deeper. -/
theorem exists_of_statement {calls : Nat} {result : Option Filter} (hover : s.overflow = none)
    (hdepth : s.depth < nestingLimit) (h : statement text (calls + 1) s = .ok (result, t)) : ∃ t',
      (chain text (statement text calls) <|> (negation text (statement text calls)).attempt)
        { s with depth := s.depth + 1 } = .ok (result, t') ∧ Precedes text t' t := by
  rw [statement_succ_apply, if_neg (by simp [hover]), if_neg (Nat.not_le.2 hdepth)] at h
  split at h
  · cases h
  · next t' hrun =>
    cases h
    exact ⟨t', hrun, (Precedes.refl t').atDepth _⟩

/-- What is left of a group behind its statement. -/
theorem precedes_of_group {m : Reader Filter} {r r' : Option Filter} (hopen : literal text "(" s = .ok (some (), t))
    (hspaces : anySpaces text t = .ok (some (), u)) (hm : m u = .ok (r', t')) {v : State}
    (h : (group text m).attempt s = .ok (r, v)) : Precedes text t' v := by
  obtain ⟨r₁, t₁, hgroup⟩ := exists_of_attempt h
  have hclose := hgroup
  rw [group, bind_of_some hopen, bind_of_some hspaces] at hclose
  refine Precedes.trans (precedes_of_bind (fun f => ?_) hm hclose) (precedes_of_attempt hgroup h)
  exact progresses_anySpaces.bind fun _ => (progresses_literal ")").bind fun _ => progresses_pure f

/-- What is left of a negation behind its statement. -/
theorem precedes_of_negation {m : Reader Filter} {r r' : Option Filter}
    (hword : literal text "NOT" s = .ok (some (), t)) (hspaces : someSpaces text t = .ok (some (), u))
    (hm : m u = .ok (r', t')) {v : State} (h : (negation text m).attempt s = .ok (r, v)) : Precedes text t' v := by
  obtain ⟨r₁, t₁, hnegation⟩ := exists_of_attempt h
  have hrest := hnegation
  rw [negation, bind_of_some hword, bind_of_some hspaces] at hrest
  have hfirst : Precedes text t' t₁ := precedes_of_bind (fun f => progresses_pure (Filter.not f)) hm hrest
  exact hfirst.trans (precedes_of_attempt hnegation h)

/-- What is left of a round of a chain behind the negation in it. -/
theorem precedes_of_links_negation {m : Reader Filter} {fuel : Nat} {last : Filter}
    {earlier : List (Filter × Connective)} {link : Connective} {r r' : Option Filter}
    (hlink : connective text s = .ok (some link, t)) (hfail : expression text m t = .ok (none, u))
    (hm : (negation text m).attempt u = .ok (r', t')) {v : State}
    (h : links text m (fuel + 1) last earlier s = .ok (r, v)) : Precedes text t' v := by
  rw [links_succ_apply, hlink] at h
  dsimp only at h
  rw [hfail] at h
  dsimp only at h
  rw [hm] at h
  cases r' with
  | none =>
    cases h
    exact (Precedes.refl t').seek _
  | some operand =>
    cases h
    exact .refl t'

/-- What is left of a round of a chain behind the expression in it. -/
theorem precedes_of_links_expression {m : Reader Filter} (hmp : m.Progresses text) {fuel : Nat} {last : Filter}
    {earlier : List (Filter × Connective)} {link : Connective} {r r' : Option Filter}
    (hlink : connective text s = .ok (some link, t)) (hm : expression text m t = .ok (r', t')) {v : State}
    (h : links text m (fuel + 1) last earlier s = .ok (r, v)) : Precedes text t' v := by
  cases r' with
  | none =>
    have hround := h
    rw [links_succ_apply, hlink] at hround
    dsimp only at hround
    rw [hm] at hround
    dsimp only at hround
    rcases hnegation : (negation text m).attempt t' with e | ⟨r₁, t₁⟩
    · rw [hnegation] at hround
      cases hround
    · have hpast := (progresses_negation hmp).attempt t' r₁ t₁ hnegation
      exact hpast.trans (precedes_of_links_negation hlink hm hnegation h)
  | some operand =>
    rw [links_succ_apply, hlink] at h
    dsimp only at h
    rw [hm] at h
    exact progresses_links hmp fuel operand _ t' r v h

/-- A call ends in a state that precedes the end of the call around it. -/
theorem Makes.precedes_end (h : Makes text p q) {r r' : Option Filter} (hp : p.run text = .ok (r, t))
    (hq : q.run text = .ok (r', t')) : Precedes text t' t := by
  cases h with
  | startStatement hspaces =>
    have hrest : start text _ = _ := hp
    rw [start, bind_of_some hspaces] at hrest
    obtain ⟨r₁, t₁, hblock⟩ := exists_of_bind hrest
    have hgroup : (group text (statement text (nestingLimit + 1))).attempt.Progresses text :=
      (progresses_group (progresses_statement _)).attempt
    refine (precedes_of_orElse hgroup hq hblock).trans (precedes_of_bind (fun f => ?_) hblock hrest)
    exact progresses_anySpaces.bind fun _ => progresses_pure f
  | startGroup hspaces hfail =>
    have hrest : start text _ = _ := hp
    rw [start, bind_of_some hspaces] at hrest
    refine precedes_of_bind (fun f => ?_) ((orElse_of_none hfail).trans hq) hrest
    exact progresses_anySpaces.bind fun _ => progresses_pure f
  | @statementChain calls _ hover hdepth =>
    obtain ⟨t₁, hrules, hleft⟩ := exists_of_statement hover hdepth hp
    exact (precedes_of_orElse (progresses_negation (progresses_statement calls)).attempt hq hrules).trans hleft
  | statementNegation hover hdepth hfail =>
    obtain ⟨t₁, hrules, hleft⟩ := exists_of_statement hover hdepth hp
    rw [orElse_of_none hfail] at hrules
    cases hq.symm.trans hrules
    exact hleft
  | @chainExpression calls s =>
    exact precedes_of_bind (fun first => progresses_links (progresses_statement calls) _ first []) hq hp
  | chainLinks hfirst =>
    cases hq.symm.trans ((bind_of_some hfirst).symm.trans hp)
    exact .refl _
  | @linksExpression calls _ _ _ _ _ _ hlink =>
    exact precedes_of_links_expression (progresses_statement calls) hlink hq hp
  | linksLinks hlink hoperand =>
    have hround : links text _ _ _ _ _ = _ := hp
    rw [links_succ_apply, hlink] at hround
    dsimp only at hround
    rw [hoperand] at hround
    cases hq.symm.trans hround
    exact .refl _
  | linksNegation hlink hfail => exact precedes_of_links_negation hlink hfail hq hp
  | @expressionGroup calls s t₁ hunknown hfail =>
    have hrules : alternatives text (statement text calls) s = .ok (r', t') := by
      rw [alternatives_eq, orElse_of_none hfail]
      exact hq
    obtain ⟨i, hi, hoffset⟩ := exists_place_of_alternatives hrules
    cases hp.symm.trans (expression_of_unknown hunknown hrules)
    rw [hoffset]
    exact (Precedes.refl t').store hi _
  | negationStatement hword hspaces => exact precedes_of_negation hword hspaces hq hp
  | groupStatement hopen hspaces => exact precedes_of_group hopen hspaces hq hp

end SearchFilter.Offsets
