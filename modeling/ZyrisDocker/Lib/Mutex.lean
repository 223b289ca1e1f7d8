import Mathlib.Tactic.TypeStar

-- A lock around a value. It is poisoned by a panic of who holds it, and then nobody can take it any more.
structure Mutex (α : Type) where
  value    : α
  poisoned : Bool := false

namespace Mutex

-- `lock().unwrap()`, and what is done with the value until the lock is released. What panics has no result.
def access (m : Mutex α) (f : α → Option (α × β)) : Mutex α × Option β :=
  if m.poisoned then (m, none) else
  match f m.value with
  | some (value, b) => ({ m with value }, some b)
  | none            => ({ m with poisoned := true }, none)

-- Holders that do not panic do not keep each other from taking the lock.
theorem access_eq {m : Mutex α} {f : α → Option (α × β)} (hp : m.poisoned = false) (hf : f m.value = some (a, b)) :
    m.access f = (⟨a, false⟩, some b) := by
  simp [access, hp, hf]

end Mutex
