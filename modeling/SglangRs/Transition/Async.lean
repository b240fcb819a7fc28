import Mathlib.Data.List.Basic

/-!
# Asynchronous code that leaves a trace

Asynchronous code runs from one await to the next. What an await comes to is not its own doing: the
value is ready, or the deadline around the code elapses first, or the caller drops the code and it
never goes on. `Async ω α` is such code with the trace of what it did up to where it ended, each
entry an `ω`, and a value of type `α` if it came to its end. Code that fails is
`ExceptT ε (Async ω) α`.

## Main definitions

* `Transition.Awaited`: what an await comes to.
* `Transition.Async`: code with its trace, a monad.
* `Async.await`, `Async.emit`, `Async.timeout`: an await, an entry, a deadline.

## Main results

* `Async.run_bind_of_ok`, `Async.run_bind_of_error`, `Async.run_bind_of_elapsed`,
  `Async.run_bind_of_dropped`: code that does not come to its end goes no further.
-/

namespace Transition

/-- What an await comes to. -/
inductive Awaited (α : Type) where
  | ready (a : α)
  | elapsed
  | dropped

/-- The trace of the code and its ending. -/
structure Async (ω α : Type) where
  trace : List ω
  ending : Awaited α

namespace Async

variable {ω ω' ε α β : Type}

/-- Code goes on when its first part has come to its end. -/
protected def bind (x : Async ω α) (f : α → Async ω β) : Async ω β :=
  match x.ending with
  | .ready a => ⟨x.trace ++ (f a).trace, (f a).ending⟩
  | .elapsed => ⟨x.trace, .elapsed⟩
  | .dropped => ⟨x.trace, .dropped⟩

instance : Monad (Async ω) where
  pure a := ⟨[], .ready a⟩
  bind := Async.bind

def await (a : Awaited α) : Async ω α := ⟨[], a⟩

def emit (entry : ω) : Async ω Unit := ⟨[entry], .ready ()⟩

/-- Code under a deadline. What it did before the deadline is done; its entries are seen through `f`
from outside. -/
def timeout (f : ω → ω') (x : Async ω α) : Async ω' (Option α) where
  trace := x.trace.map f
  ending :=
    match x.ending with
    | .ready a => .ready (some a)
    | .elapsed => .ready none
    | .dropped => .dropped

theorem pure_def (a : α) : (pure a : Async ω α) = ⟨[], .ready a⟩ := rfl

@[simp] theorem mk_ready_bind (es : List ω) (a : α) (f : α → Async ω β) :
    (⟨es, .ready a⟩ : Async ω α) >>= f = ⟨es ++ (f a).trace, (f a).ending⟩ := rfl

@[simp] theorem mk_elapsed_bind (es : List ω) (f : α → Async ω β) :
    (⟨es, .elapsed⟩ : Async ω α) >>= f = ⟨es, .elapsed⟩ := rfl

@[simp] theorem mk_dropped_bind (es : List ω) (f : α → Async ω β) :
    (⟨es, .dropped⟩ : Async ω α) >>= f = ⟨es, .dropped⟩ := rfl

section Failing

variable {x : ExceptT ε (Async ω) α} {f : α → ExceptT ε (Async ω) β} {y : Async ω α} {es : List ω}

theorem run_bind_of_ok {a : α} (hx : x.run = ⟨es, .ready (.ok a)⟩) :
    (x >>= f).run = ⟨es ++ (f a).run.trace, (f a).run.ending⟩ := by
  rw [ExceptT.run_bind, hx]
  rfl

theorem run_bind_of_error {e : ε} (hx : x.run = ⟨es, .ready (.error e)⟩) :
    (x >>= f).run = ⟨es, .ready (.error e)⟩ := by
  rw [ExceptT.run_bind, hx, mk_ready_bind]
  simp [pure_def]

theorem run_bind_of_elapsed (hx : x.run = ⟨es, .elapsed⟩) : (x >>= f).run = ⟨es, .elapsed⟩ := by
  rw [ExceptT.run_bind, hx, mk_elapsed_bind]

theorem run_bind_of_dropped (hx : x.run = ⟨es, .dropped⟩) : (x >>= f).run = ⟨es, .dropped⟩ := by
  rw [ExceptT.run_bind, hx, mk_dropped_bind]

/-! Code that does not fail, as the first part of code that may. -/

theorem lift_bind_of_ready {a : α} (hy : y.ending = .ready a) :
    (ExceptT.lift y >>= f).run = ⟨y.trace ++ (f a).run.trace, (f a).run.ending⟩ := by
  obtain ⟨trace, ending⟩ := y
  obtain rfl : ending = .ready a := hy
  refine run_bind_of_ok ?_
  show (⟨trace ++ [], .ready (.ok a)⟩ : Async ω (Except ε α)) = _
  rw [List.append_nil]

theorem lift_bind_of_dropped (hy : y.ending = .dropped) :
    (ExceptT.lift y >>= f).run = ⟨y.trace, .dropped⟩ := by
  obtain ⟨trace, ending⟩ := y
  obtain rfl : ending = .dropped := hy
  exact run_bind_of_dropped rfl

end Failing

end Async

end Transition
