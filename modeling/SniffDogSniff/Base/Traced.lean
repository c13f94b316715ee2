import Mathlib.Tactic.Common

/-!
# Computations with a trace

A computation on a state of type `σ` that also lists the events it causes, so
that a statement can speak about what happened on the way and not only about the
state at the end.

## Main definitions

* `Traced ε σ α`, a monad; `events`, `value` and `final` of a run.
* `Traced.times` — a counted loop with an accumulator.

## Main results

* `events_bind`, `value_bind`, `final_bind` — what a sequence does.
* `times_succ` — the loop, one round at a time.
-/

/-- A computation on a state that lists its events. -/
def Traced (ε σ α : Type) : Type := σ → List ε × α × σ

namespace Traced

variable {ε σ α β : Type}

instance : Monad (Traced ε σ) where
  pure a := fun s => ([], a, s)
  bind m f := fun s => ((m s).1 ++ (f (m s).2.1 (m s).2.2).1, (f (m s).2.1 (m s).2.2).2)

/-- The events of a run from `s`, in order. -/
def events (m : Traced ε σ α) (s : σ) : List ε := (m s).1

/-- The value of a run from `s`. -/
def value (m : Traced ε σ α) (s : σ) : α := (m s).2.1

/-- The state after a run from `s`. -/
def final (m : Traced ε σ α) (s : σ) : σ := (m s).2.2

@[simp] theorem events_pure (a : α) (s : σ) : (pure a : Traced ε σ α).events s = [] := rfl

@[simp] theorem value_pure (a : α) (s : σ) : (pure a : Traced ε σ α).value s = a := rfl

@[simp] theorem final_pure (a : α) (s : σ) : (pure a : Traced ε σ α).final s = s := rfl

@[simp] theorem events_bind (m : Traced ε σ α) (f : α → Traced ε σ β) (s : σ) :
    (m >>= f).events s = m.events s ++ (f (m.value s)).events (m.final s) := rfl

@[simp] theorem value_bind (m : Traced ε σ α) (f : α → Traced ε σ β) (s : σ) :
    (m >>= f).value s = (f (m.value s)).value (m.final s) := rfl

@[simp] theorem final_bind (m : Traced ε σ α) (f : α → Traced ε σ β) (s : σ) :
    (m >>= f).final s = (f (m.value s)).final (m.final s) := rfl

/-- `n` rounds of a loop, the `i`-th of which gets the number of rounds before it
and the accumulator. -/
def times (f : ℕ → α → Traced ε σ α) : ℕ → ℕ → α → Traced ε σ α
  | 0, _, a => pure a
  | n + 1, i, a => f i a >>= times f n (i + 1)

theorem times_succ (f : ℕ → α → Traced ε σ α) (n i : ℕ) (a : α) :
    times f (n + 1) i a = f i a >>= times f n (i + 1) := rfl

end Traced
