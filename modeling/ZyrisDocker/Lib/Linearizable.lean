import Mathlib.Logic.Function.Basic
import ZyrisDocker.Lib.Simulation

namespace Transition

-- A sequential object: what an operation does to its value, and what it returns.
structure Object (σ ω ρ : Type*) where
  apply : ω → σ → σ × ρ

namespace Object

-- A call takes its effect at once, at some time between its invocation and its return.
inductive Call (ρ : Type*)
  | waiting
  | invoked
  | effected (r : ρ)
  | returned (r : ρ)

structure State (ι σ ρ : Type*) where
  value : σ
  calls : ι → Call ρ

inductive Event (ι : Type*)
  | invoke (i : ι)
  | effect (i : ι)
  | answer (i : ι)

-- What the callers see. That other systems show the same is what makes them linearizable.
inductive Seen (ι ρ : Type*)
  | invoked (i : ι)
  | returned (i : ι) (r : ρ)

variable {ι σ ω ρ : Type*} (object : Object σ ω ρ) (ops : ι → ω)

def init (value : σ) : State ι σ ρ where
  value   := value
  calls _ := .waiting

def sees (s : State ι σ ρ) (e : Event ι) (_ : State ι σ ρ) : List (Seen ι ρ) :=
  match e with
  | .invoke i => [.invoked i]
  | .effect _ => []
  | .answer i =>
    match s.calls i with
    | .effected r => [.returned i r]
    | _           => []

variable [DecidableEq ι]

def State.set (s : State ι σ ρ) (i : ι) (call : Call ρ) : State ι σ ρ :=
  { s with calls := Function.update s.calls i call }

-- Each call `i` is one of the operation `ops i`.
def step (s : State ι σ ρ) : Event ι → Option (State ι σ ρ)
  | .invoke i =>
    match s.calls i with
    | .waiting => s.set i .invoked
    | _        => none
  | .effect i =>
    match s.calls i with
    | .invoked =>
      let (value, r) := object.apply (ops i) s.value
      some <| { s with value }.set i (.effected r)
    | _ => none
  | .answer i =>
    match s.calls i with
    | .effected r => s.set i (.returned r)
    | _           => none

variable {object : Object σ ω ρ} {ops : ι → ω} {s : State ι σ ρ} {i : ι} {v : σ} {r : ρ}

@[simp]
theorem State.set_self {call : Call ρ} : (s.set i call).calls i = call :=
  Function.update_self ..

@[simp]
theorem State.set_set {call call' : Call ρ} : (s.set i call).set i call' = s.set i call' := by
  simp [State.set]

theorem State.set_eq {call : Call ρ} (h : s.calls i = call) : s.set i call = s := by
  simp [State.set, ← h]

section Trace

variable (h : s.calls i = .waiting) (h' : s.calls i = .invoked) (ha : object.apply (ops i) s.value = (v, r))

include h in
theorem invokes : Trace (Fires <| step object ops) sees s [.invoked i] (s.set i .invoked) :=
  .single (show Fires (step object ops) s (.invoke i) _ by simp [Fires, step, h])

include h' ha in
theorem effects : Trace (Fires <| step object ops) sees s [] ({ s with value := v }.set i (.effected r)) :=
  .single (show Fires (step object ops) s (.effect i) _ by simp [Fires, step, h', ha])

theorem answers (h : s.calls i = .effected r) :
    Trace (Fires <| step object ops) sees s [.returned i r] (s.set i (.returned r)) := by
  have t : Trace (Fires <| step object ops) sees s (sees s (.answer i) _) (s.set i (.returned r)) :=
    .single <| by simp [Fires, step, h]
  simpa [sees, h] using t

include h ha in
theorem invokes_effects : Trace (Fires <| step object ops) sees s [.invoked i] ({ s with value := v }.set i (.effected r)) := by
  have t := (invokes h).append <| effects (s := s.set i .invoked) State.set_self ha
  simpa [State.set] using t

include h' ha in
theorem effects_answers : Trace (Fires <| step object ops) sees s [.returned i r] ({ s with value := v }.set i (.returned r)) := by
  have t := (effects h' ha).append <| answers State.set_self
  simpa using t

include h ha in
theorem invokes_effects_answers :
    Trace (Fires <| step object ops) sees s [.invoked i, .returned i r] ({ s with value := v }.set i (.returned r)) := by
  have t := (invokes_effects h ha).append <| answers State.set_self
  simpa using t

end Trace

end Object
end Transition
