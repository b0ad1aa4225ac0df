import Std.Data.HashMap
import SearchFilter.Filter.Basic
import SearchFilter.Filter.SyntaxError

/-!
# Attempts to read

Reading a filter is pure backtracking: a rule gets the place it starts from as an argument, and a rule that fails gives
no place back. What survives a failure is the `Log`: the furthest place at which something was missing, what was missing
there, the first place that passed the nesting limit, and what expressions were found where.

* `Attempt` — something that may be read, and the log it leaves.
* `Rule` — an attempt for every place, which also tells where it ended.
-/

namespace SearchFilter

/-- What reading remembers across failures. -/
structure Log where
  /-- The furthest place at which something was missing. -/
  reach : Nat := 0
  /-- What was missing there, newest first. -/
  missing : List Expectation := []
  /-- The first place at which a statement passed the nesting limit. -/
  overflow : Option Nat := none
  /-- For every place where an expression was tried: what it gave. -/
  known : Std.HashMap Nat (Option (Filter × Cursor)) := ∅

/-- Note that `e` was missing at place `index`; only the furthest such place counts. -/
def Log.miss (log : Log) (index : Nat) (e : Expectation) : Log :=
  if index < log.reach then log
  else if log.reach < index then { log with reach := index, missing := [e] }
  else { log with missing := e :: log.missing }

/-- Note a statement at place `index` that passes the nesting limit, unless there was one before. -/
def Log.exceed (log : Log) (index : Nat) : Log := { log with overflow := log.overflow <|> some index }

/-- Note what an expression at place `index` gave. -/
def Log.learn (log : Log) (index : Nat) (result : Option (Filter × Cursor)) : Log :=
  { log with known := log.known.insert index result }

/-- An attempt to read an `α`, which leaves a log whether or not it succeeds. -/
def Attempt (α : Type) := Log → Option α × Log

namespace Attempt

variable {α β : Type}

@[inline] def pure (a : α) : Attempt α := fun log => (some a, log)

@[inline] def bind (x : Attempt α) (f : α → Attempt β) : Attempt β := fun log =>
  match x log with
  | (some a, log) => f a log
  | (none, log) => (none, log)

/-- The first attempt, or the second if the first fails. -/
@[inline] def orElse (x : Attempt α) (y : Unit → Attempt α) : Attempt α := fun log =>
  match x log with
  | (some a, log) => (some a, log)
  | (none, log) => y () log

instance : Monad Attempt where
  pure := pure
  bind := bind

instance : OrElse (Attempt α) where
  orElse := orElse

/-- Fail because `e` is missing at `c`. -/
def miss (c : Cursor) (e : Expectation) : Attempt α := fun log => (none, log.miss c.index e)

/-- What an attempt gives, if it succeeds. -/
@[inline] def optional (x : Attempt α) : Attempt (Option α) := fun log =>
  match x log with
  | (result, log) => (some result, log)

@[simp] theorem pure_apply (a : α) (log : Log) : (Pure.pure a : Attempt α) log = (some a, log) := rfl

theorem bind_apply (x : Attempt α) (f : α → Attempt β) (log : Log) :
    (x >>= f) log = match x log with
      | (some a, log) => f a log
      | (none, log) => (none, log) := rfl

theorem bind_of_some {x : Attempt α} {f : α → Attempt β} {log log' : Log} {a : α} (h : x log = (some a, log')) :
    (x >>= f) log = f a log' := by
  rw [bind_apply, h]

theorem bind_of_none {x : Attempt α} {f : α → Attempt β} {log log' : Log} (h : x log = (none, log')) :
    (x >>= f) log = (none, log') := by
  rw [bind_apply, h]

theorem orElse_apply (x y : Attempt α) (log : Log) :
    (x <|> y) log = match x log with
      | (some a, log) => (some a, log)
      | (none, log) => y log := rfl

theorem orElse_of_some {x y : Attempt α} {log log' : Log} {a : α} (h : x log = (some a, log')) :
    (x <|> y) log = (some a, log') := by
  rw [orElse_apply, h]

theorem orElse_of_none {x y : Attempt α} {log log' : Log} (h : x log = (none, log')) :
    (x <|> y) log = y log' := by
  rw [orElse_apply, h]

@[simp] theorem miss_apply (c : Cursor) (e : Expectation) (log : Log) :
    (miss c e : Attempt α) log = (none, log.miss c.index e) := rfl

@[simp] theorem optional_apply (x : Attempt α) (log : Log) : x.optional log = (some (x log).1, (x log).2) := rfl

end Attempt

/-- A rule of the grammar: started at a place, it gives a value and the place behind it. -/
abbrev Rule (α : Type) := Cursor → Attempt (α × Cursor)

end SearchFilter
