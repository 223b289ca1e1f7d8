import ZyrisDocker.Runtime.TryRun
import ZyrisDocker.Runtime.Theorems.DialLoop

open Transition

namespace Runner

-- A connection is parked while the loop awaits its close, and only then.
def Parked (s : State) : Prop :=
  s.live = s.at.serving

theorem Suspension.serving_eq_some {s : Suspension} : s.serving = some conn ↔ s = .closed conn := by
  cases s <;> simp [serving]

namespace Parked

variable {runner : Runner} {s s' : State} {e : Event}

theorem init : Parked (init runner) := rfl

theorem step (p : Parked s) (m : Moves runner s e s') : Parked s' := by
  simp only [Parked] at p ⊢
  cases m
  case connected => rfl
  case dropped   => rfl
  all_goals simp_all [Suspension.serving]

theorem live_iff (p : Parked s) : s.live = some conn ↔ s.at = .closed conn := by
  rw [p, Suspension.serving_eq_some]

end Parked

namespace TryRun

-- Everything that can happen in the race.
inductive Moves (runner : Runner) : State → Event → State → Prop
  | loop (racing : s.phase = .racing) (ready : ready s e) (move : Runner.Moves runner s.loop e loop) :
    Moves runner s (.loop e) (advance s loop)
  | drop : Moves runner s (.drop conn) { s with dropped := conn :: s.dropped }
  | stop (racing : s.phase = .racing) (pending : s.loop.at.pending) : Moves runner s .stop (shutdown s)
  | grace (closing : s.phase = .closing) : Moves runner s .grace { s with phase := .returned (.ok ()) }

-- The race is on, and nothing was closed yet.
structure Racing (s : State) : Prop where
  parked : Parked s.loop
  quiet  : s.closed = []

-- The dial loop was cancelled in the state `loop`, and the connections `conns` were closed.
structure Cancelled (loop : Runner.State) (conns : List Connection) (s : State) : Prop where
  frozen : s.loop = loop
  closed : s.closed = conns
  phase  : s.phase = .closing ∨ s.phase = .returned (.ok ())

variable {runner : Runner} {s s' s₁ s₂ : State} {e : Event} {es : List Event}

theorem step_moves (h : step runner s e = some s') : Moves runner s e s' := by
  cases e
  case drop => cases h; exact .drop
  case loop e =>
    simp only [step] at h
    split at h <;> try cases h
    case h_1 hp =>
      split at h <;> try cases h
      case isTrue hr =>
        have ⟨_, h, he⟩ := Option.map_eq_some_iff.mp h
        exact he ▸ .loop hp hr (Runner.step_moves h)
  case stop =>
    simp only [step] at h
    split at h <;> try cases h
    case h_1 hp =>
      split at h <;> cases h
      case isTrue ha => exact .stop hp ha
  case grace =>
    simp only [step] at h
    split at h <;> cases h
    case h_1 hp => exact .grace hp

@[simp]
theorem advance_loop : (advance s loop).loop = loop := by
  simp only [advance]
  split <;> rfl

@[simp]
theorem advance_closed : (advance s loop).closed = s.closed := by
  simp only [advance]
  split <;> rfl

theorem shutdown_closed (p : Parked s.loop) : (shutdown s).closed = s.loop.at.serving.toList ++ s.closed := by
  simp only [shutdown, Parked] at p ⊢
  split
  case h_1 h => simp [← p, h]
  case h_2 h => simp [← p, h]

theorem shutdown_loop : (shutdown s).loop = { s.loop with live := none } := by
  simp only [shutdown]
  split
  case h_1   => rfl
  case h_2 h => simp [← h]

theorem shutdown_phase : (shutdown s).phase = .closing ∨ (shutdown s).phase = .returned (.ok ()) := by
  simp only [shutdown]
  split
  case h_1 => exact .inl rfl
  case h_2 => exact .inr rfl

namespace Racing

theorem init : Racing (init runner) := ⟨Parked.init, rfl⟩

theorem step (i : s.phase = .racing → Racing s) (m : Moves runner s e s') (h : s'.phase = .racing) : Racing s' := by
  cases m
  case loop hp hr m =>
    have ⟨p, o⟩ := i hp
    exact ⟨by simpa using p.step m, by simpa using o⟩
  case drop  => exact ⟨(i h).parked, (i h).quiet⟩
  case stop  => cases shutdown_phase (s := s) <;> simp_all
  case grace => cases h

theorem of_run (r : Run (Fires (TryRun.step runner)) (TryRun.init runner) es s) : s.phase = .racing → Racing s :=
  r.preserves (I := fun s => s.phase = .racing → Racing s) (fun _ => init) fun _ _ _ i h => step i (step_moves h)

theorem stoppable (h : s.phase = .racing) (ha : s.loop.at.pending) : TryRun.step runner s .stop = some (shutdown s) := by
  simp [TryRun.step, h, ha]

end Racing

namespace Cancelled

theorem shutdown (i : Racing s) :
    Cancelled { s.loop with live := none } s.loop.at.serving.toList (shutdown s) where
  frozen := shutdown_loop
  closed := by simp [shutdown_closed i.parked, i.quiet]
  phase  := shutdown_phase

theorem step (c : Cancelled loop conns s) (m : Moves runner s e s') : Cancelled loop conns s' := by
  have ⟨hl, hc, hp⟩ := c
  cases m
  case loop hr _ _ => simp [hr] at hp
  case drop        => exact ⟨hl, hc, hp⟩
  case stop hr _   => simp [hr] at hp
  case grace       => exact ⟨hl, hc, .inr rfl⟩

theorem run (c : Cancelled loop conns s) (r : Run (Fires (TryRun.step runner)) s es s') : Cancelled loop conns s' :=
  r.preserves c fun _ _ _ c h => c.step (step_moves h)

theorem loop_none (c : Cancelled loop conns s) (e : Runner.Event) : TryRun.step runner s (.loop e) = none := by
  cases c.phase
  case inl h => simp [TryRun.step, h]
  case inr h => simp [TryRun.step, h]

theorem exitStatus (c : Cancelled loop conns s) (r : Except RunError Unit) (h : s.phase = .returned r) :
    exitStatus r = 0 := by
  cases c.phase
  case inl hp => simp [h] at hp
  case inr hp => cases h.symm.trans hp; rfl

end Cancelled

theorem stop_closes_served (r : Run (Fires (step runner)) (init runner) es s) :
    (s.phase = .racing → (∀ conn, s.loop.live = some conn ↔ s.loop.at = .closed conn) ∧ s.closed = []) ∧
    (s.phase = .racing → s.loop.at.pending → ∃ s₁, step runner s .stop = some s₁) ∧
    (∀ s₁ es' s₂, step runner s .stop = some s₁ → Run (Fires (step runner)) s₁ es' s₂ →
      s₂.loop = { s.loop with live := none } ∧ s₂.closed = s.loop.at.serving.toList ∧
      (∀ e, step runner s₂ (.loop e) = none) ∧ (∀ r, s₂.phase = .returned r → exitStatus r = 0) ∧
      (s₂.phase = .returned (.ok ()) ∨ step runner s₂ .grace = some { s₂ with phase := .returned (.ok ()) })) := by
  have i := Racing.of_run r
  refine ⟨fun hp => ⟨fun _ => (i hp).parked.live_iff, (i hp).quiet⟩, fun hp ha => ⟨_, Racing.stoppable hp ha⟩, ?_⟩
  intro s₁ es' s₂ h r'
  cases step_moves h
  case stop hp _ =>
    have c := (Cancelled.shutdown (i hp)).run r'
    refine ⟨c.frozen, c.closed, c.loop_none, c.exitStatus, ?_⟩
    cases c.phase
    case inl h => exact .inr (by simp [step, h])
    case inr h => exact .inl h

-- The node is stopped while it serves its first connection.
theorem stop_closes_served_connected :
    let runner : Runner := ⟨⟨"", "", "", [], false, 1, 8, 5⟩, false, true⟩
    let es : List Event := [.loop (.bearer (.ok "t")), .loop (.dial (.ok ⟨0, none⟩))]
    ∃ s s₁, Run (Fires (step runner)) (init runner) es s ∧ step runner s .stop = some s₁ ∧ s₁.closed = [⟨0, none⟩] := by
  intro runner es
  have ⟨s, r, ha⟩ : ∃ s, Run (Fires (step runner)) (init runner) es s ∧ s.loop.at = .closed ⟨0, none⟩ ∧ s.phase = .racing :=
    ⟨_, Run.iff_replay.mpr rfl, rfl, rfl⟩
  have ⟨_, stoppable, stops⟩ := stop_closes_served r
  have ⟨s₁, h⟩ := stoppable ha.2 (by simp [ha.1, Suspension.pending])
  have ⟨_, hc, _⟩ := stops s₁ [] s₁ h .refl
  exact ⟨s, s₁, r, h, by simpa [ha.1, Suspension.serving] using hc⟩

end TryRun
end Runner
