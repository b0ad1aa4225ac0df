import SearchFilter.Filter.Parser
import SearchFilter.Proofs.Grammar.Factoring

/-!
# Rules that only record

A rule that reads no statement neither looks up nor remembers anything: it gives what the rule of the grammar gives, and
notes what is missing there (`Attempt.Records`). Tokens, comparisons and connectives are such rules.

* `Log.missAll` — a log after several misses.
* `records_anyComparison`, `records_connective` — what comparisons and connectives do.
* `statement_succ`, `links_succ` — statements and chains as sequences of operands.
-/

namespace SearchFilter

open Grammar (Miss Trial)

/-! ## Logs -/

namespace Log

/-- The log with all of `ms` noted, in order. -/
def missAll (log : Log) (ms : List Miss) : Log := ms.foldl (fun log m => log.miss m.index m.expectation) log

theorem missAll_append (log : Log) (ms ns : List Miss) : log.missAll (ms ++ ns) = (log.missAll ms).missAll ns :=
  List.foldl_append

theorem overflow_miss (log : Log) (index : Nat) (e : Expectation) : (log.miss index e).overflow = log.overflow := by
  unfold miss
  split
  · rfl
  · split <;> rfl

theorem known_miss (log : Log) (index : Nat) (e : Expectation) : (log.miss index e).known = log.known := by
  unfold miss
  split
  · rfl
  · split <;> rfl

theorem overflow_missAll (log : Log) (ms : List Miss) : (log.missAll ms).overflow = log.overflow := by
  induction ms generalizing log with
  | nil => rfl
  | cons m ms ih => exact (ih (log.miss m.index m.expectation)).trans (overflow_miss log _ _)

theorem known_missAll (log : Log) (ms : List Miss) : (log.missAll ms).known = log.known := by
  induction ms generalizing log with
  | nil => rfl
  | cons m ms ih => exact (ih (log.miss m.index m.expectation)).trans (known_miss log _ _)

end Log

/-! ## Attempts that only record -/

namespace Attempt

variable {α β γ δ : Type}

/-- The attempt gives what the trial gives, through `f`, and notes what the trial misses. -/
def Records (x : Attempt β) (t : Trial α) (f : α → β) : Prop := ∀ log, x log = (t.result.map f, log.missAll t.misses)

theorem records_pure (a : α) (f : α → β) : (Pure.pure (f a) : Attempt β).Records (Pure.pure a) f := fun _ => rfl

theorem records_miss (c : Cursor) (e : Expectation) (f : α → β) : (miss c e : Attempt β).Records (Trial.miss c e) f :=
  fun _ => rfl

variable {x x' : Attempt β} {t t' : Trial α} {f : α → β}

theorem Records.bind {y : β → Attempt δ} {u : α → Trial γ} {g : γ → δ} (hx : x.Records t f)
    (hy : ∀ a, t.result = some a → (y (f a)).Records (u a) g) : (x >>= y).Records (t >>= u) g := by
  intro log
  have h := hx log
  obtain ⟨_ | a, m⟩ := t
  · exact bind_of_none h
  · rw [bind_of_some h]
    exact (hy a rfl (log.missAll m)).trans (congrArg (Prod.mk _) (Log.missAll_append log m _).symm)

theorem Records.orElse (hx : x.Records t f) (hx' : x'.Records t' f) : (x <|> x').Records (t <|> t') f := by
  intro log
  have h := hx log
  obtain ⟨_ | a, m⟩ := t
  · rw [orElse_of_none h]
    exact (hx' (log.missAll m)).trans (congrArg (Prod.mk _) (Log.missAll_append log m _).symm)
  · exact orElse_of_some h

theorem orElse_assoc (x y z : Attempt α) : ((x <|> y) <|> z) = (x <|> (y <|> z)) := by
  funext log
  simp only [orElse_apply]
  rcases x log with ⟨_ | a, l⟩ <;> rfl

end Attempt

namespace Rule

open Attempt

/-! ## Tokens and comparisons -/

theorem records_token {α : Type} (kind : TokenClass) (scan : Token α) (c : Cursor) :
    (token kind scan c).Records (Grammar.token kind scan c) id := by
  unfold token Grammar.token
  cases scan c.rest with
  | none => exact records_miss c _ id
  | some t => exact records_pure _ id

theorem records_literal (text : String) (c : Cursor) : (literal text c).Records (Grammar.literal text c) id := by
  unfold literal Grammar.literal
  split
  · exact records_pure _ id
  · exact records_miss c _ id

theorem records_anySpaces (c : Cursor) : (anySpaces c).Records (Grammar.anySpaces c) id := fun _ => rfl

theorem records_someSpaces (c : Cursor) : (someSpaces c).Records (Grammar.someSpaces c) id :=
  (records_token _ _ c).bind fun ⟨_, d⟩ _ => records_anySpaces d

theorem records_value (c : Cursor) : (value c).Records (Grammar.value c) id := by
  refine Records.orElse ?_ (Records.orElse ?_ (Records.orElse ?_ ?_))
  all_goals exact (records_token _ _ c).bind fun ⟨_, _⟩ _ => records_pure _ id

/-- What an expression of the grammar is read as. -/
def ofExpression (p : Grammar.Expression × Cursor) : Filter × Cursor := (p.1.toFilter, p.2)

/-- What a statement of the grammar is read as. -/
def ofStatement (p : Grammar.Statement × Cursor) : Filter × Cursor := (p.1.toFilter, p.2)

theorem records_hasComparison (c : Cursor) : (hasComparison c).Records (Grammar.hasComparison c) ofExpression :=
  (records_token _ _ c).bind fun ⟨field, c₁⟩ _ => (records_literal _ c₁).bind fun c₂ _ =>
    (records_value c₂).bind fun ⟨v, d⟩ _ => records_pure (Grammar.Expression.comparison .has field v, d) ofExpression

theorem records_comparison (op : Operator) (c : Cursor) :
    (comparison op c).Records (Grammar.comparison op c) ofExpression :=
  (records_token _ _ c).bind fun ⟨field, c₁⟩ _ => (records_anySpaces c₁).bind fun c₂ _ =>
    (records_literal _ c₂).bind fun c₃ _ => (records_anySpaces c₃).bind fun c₄ _ =>
      (records_value c₄).bind fun ⟨v, d⟩ _ => records_pure (Grammar.Expression.comparison op field v, d) ofExpression

/-- A comparison, whatever its operator. -/
def anyComparison : Rule Filter := fun c =>
  hasComparison c
  <|> comparison .greaterEq c
  <|> comparison .greater c
  <|> comparison .lessEq c
  <|> comparison .less c
  <|> comparison .equals c

theorem records_anyComparison (c : Cursor) : (anyComparison c).Records (Grammar.anyComparison c) ofExpression :=
  (records_hasComparison c).orElse ((records_comparison _ c).orElse ((records_comparison _ c).orElse
    ((records_comparison _ c).orElse ((records_comparison _ c).orElse (records_comparison _ c)))))

theorem alternatives_eq (inner : Rule Filter) (c : Cursor) :
    alternatives inner c = (anyComparison c <|> group inner c) := by
  simp only [alternatives, anyComparison, Attempt.orElse_assoc]

theorem records_connective (c : Cursor) : (connective c).Records (Grammar.connective c) id := by
  refine (records_someSpaces c).bind fun c₁ _ => Records.bind (f := id) (Records.orElse ?_ ?_) fun ⟨link, c₂⟩ _ => ?_
  · exact (records_literal _ c₁).bind fun _ _ => records_pure _ id
  · exact (records_literal _ c₁).bind fun _ _ => records_pure _ id
  · exact (records_someSpaces c₂).bind fun _ _ => records_pure _ id

/-! ## Chains as sequences of operands -/

/-- The operands that are ahead, joined to those that were read before. -/
def operands (inner : Rule Filter) (fuel : Nat) (earlier : List (Filter × Connective)) : Rule Filter := fun c =>
  (do let (operand, c) ← expression inner c; links inner fuel operand earlier c)
  <|> (do let (operand, c) ← negation inner c; return (joinAll operand earlier, c))

theorem links_succ_apply (inner : Rule Filter) (fuel : Nat) (last : Filter) (earlier : List (Filter × Connective))
    (c : Cursor) (log : Log) : links inner (fuel + 1) last earlier c log =
      match connective c log with
      | (none, log) => (some (joinAll last earlier, c), log)
      | (some (link, next), log) =>
        match expression inner next log with
        | (some (operand, next), log) => links inner fuel operand ((last, link) :: earlier) next log
        | (none, log) =>
          match negation inner next log with
          | (some (operand, next), log) => (some (joinAll operand ((last, link) :: earlier), next), log)
          | (none, log) => (some (joinAll last earlier, c), log) := by
  rw [links, bind_apply, optional_apply]
  rcases connective c log with ⟨_ | ⟨link, next⟩, l₁⟩
  · rfl
  simp only [bind_apply, optional_apply]
  rcases expression inner next l₁ with ⟨_ | ⟨operand, next'⟩, l₂⟩
  · simp only [bind_apply, optional_apply]
    rcases negation inner next l₂ with ⟨_ | ⟨operand, next'⟩, l₃⟩ <;> rfl
  · rfl

/-- The rest of a chain never fails: it may be empty. -/
theorem isSome_links (inner : Rule Filter) (fuel : Nat) : ∀ (last : Filter) (earlier : List (Filter × Connective))
    (c : Cursor) (log : Log), (links inner fuel last earlier c log).1.isSome := by
  induction fuel with
  | zero => intro last earlier c log; rfl
  | succ fuel ih =>
    intro last earlier c log
    rw [links_succ_apply]
    rcases connective c log with ⟨_ | ⟨link, next⟩, l₁⟩
    · rfl
    dsimp only
    rcases expression inner next l₁ with ⟨_ | ⟨operand, next'⟩, l₂⟩
    · dsimp only
      rcases negation inner next l₂ with ⟨_ | ⟨operand, next'⟩, l₃⟩ <;> rfl
    · exact ih operand _ next' l₂

/-- The rest of a chain is a connective and more operands, or nothing. -/
theorem links_succ (inner : Rule Filter) (fuel : Nat) (last : Filter) (earlier : List (Filter × Connective))
    (c : Cursor) :
    links inner (fuel + 1) last earlier c =
      ((do let (link, next) ← connective c; operands inner fuel ((last, link) :: earlier) next)
        <|> Pure.pure (joinAll last earlier, c)) := by
  funext log
  rw [links_succ_apply, orElse_apply, bind_apply]
  rcases connective c log with ⟨_ | ⟨link, next⟩, l₁⟩
  · rfl
  simp only [operands, orElse_apply, bind_apply]
  rcases expression inner next l₁ with ⟨_ | ⟨operand, next'⟩, l₂⟩
  · dsimp only
    rcases negation inner next l₂ with ⟨_ | ⟨operand, next'⟩, l₃⟩ <;> rfl
  · have h := isSome_links inner fuel operand ((last, link) :: earlier) next' l₂
    dsimp only
    generalize links inner fuel operand ((last, link) :: earlier) next' l₂ = r at h
    obtain ⟨_ | r, l₃⟩ := r
    · cases h
    · rfl

/-- A statement that may still nest is a sequence of operands, unless the limit was passed before. -/
theorem statement_succ (fuel levels : Nat) (c : Cursor) (log : Log) :
    statement fuel (levels + 1) c log =
      if log.overflow.isSome then (none, log) else operands (statement fuel levels) fuel [] c log := by
  show (if log.overflow.isSome then _ else
    (chain fuel (statement fuel levels) c <|> negation (statement fuel levels) c) log) = _
  apply if_congr Iff.rfl rfl
  simp only [operands, chain, orElse_apply]
  rcases (expression (statement fuel levels) c >>= fun (first, c) =>
    links (statement fuel levels) fuel first [] c) log with ⟨_ | a, l⟩
  · simp only [bind_apply]
    rcases negation (statement fuel levels) c l with ⟨_ | ⟨f, d⟩, l'⟩ <;> rfl
  · rfl

end Rule

end SearchFilter
