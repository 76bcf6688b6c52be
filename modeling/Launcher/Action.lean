/-!
Computations on a state that can fail. A failure keeps the state as it was changed before.
-/
namespace Launcher

/-- A computation on states of type `σ` that gives an `α` or fails with an `ε`. -/
def Action (ε σ α : Type) : Type := σ → Except ε α × σ

namespace Action

variable {ε σ α β : Type}

def pure (a : α) : Action ε σ α := fun s => (.ok a, s)

def bind (x : Action ε σ α) (f : α → Action ε σ β) : Action ε σ β := fun s =>
  match x s with
  | (.ok a, s) => f a s
  | (.error e, s) => (.error e, s)

instance : Monad (Action ε σ) where
  pure := pure
  bind := bind

def fail (e : ε) : Action ε σ α := fun s => (.error e, s)

def get : Action ε σ σ := fun s => (.ok s, s)

def modify (f : σ → σ) : Action ε σ Unit := fun s => (.ok (), f s)

def ofExcept : Except ε α → Action ε σ α
  | .ok a => pure a
  | .error e => fail e

/-- Carry out `cleanUp` if `x` fails. -/
def onFail (x : Action ε σ α) (cleanUp : σ → σ) : Action ε σ α := fun s =>
  match x s with
  | (.ok a, s) => (.ok a, s)
  | (.error e, s) => (.error e, cleanUp s)

end Action

end Launcher
