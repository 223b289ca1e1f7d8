import Mathlib.Tactic.Linarith
import ZyrisDocker.Runtime.Theorems.DialLoop

open Transition

namespace Runner

namespace Event

-- The end of a wait.
def waits : Event → Bool
  | .slept _ => true
  | _        => false

-- The loop goes on to dial.
def dials : Event → Bool
  | .bearer (.ok _) => true
  | _               => false

-- A connection drops that lasted long enough to count as healthy.
def stable (runner : Runner) : Event → Bool
  | .closed lifetime => runner.config.stableAfter ≤ lifetime
  | _                => false

end Event

-- The dial attempts since the latest wait.
def dialsInARow : List Event → Nat :=
  countSince Event.waits Event.dials

-- The bounds of the backoff.
def Bounded (runner : Runner) (backoff : Duration) : Prop :=
  runner.config.backoffMin ≤ backoff ∧ backoff ≤ runner.config.backoffMax

-- How the dial attempts since the latest wait show in a state of the dial loop.
structure Paced (es : List Event) (s : State) : Prop where
  bound   : dialsInARow es ≤ 2
  bearer  : s.at = .bearer → dialsInARow es ≤ 1
  unspent : s.reenrolled = false → s.at = .bearer → dialsInARow es = 0
  dial    : s.reenrolled = false → s.at = .dial b → dialsInARow es ≤ 1
  forget  : s.at = .forget x → s.reenrolled = true ∧ dialsInARow es ≤ 1

variable {runner : Runner} {s s' s₁ : State} {e : Event} {es pre mid : List Event}

-- The backoff changes in a wait, and when a connection drops that was healthy.
theorem step_backoff (m : Moves runner s e s') (h : e.waits = false) :
    s'.backoff = if e.stable runner then runner.config.backoffMin else s.backoff := by
  cases m
  case dropped => simp [disconnected, Event.stable]
  case slept   => cases h
  all_goals rfl

theorem wait_backoff {hash : Nat} (m : Moves runner s (.slept hash) s') : s'.backoff = widen runner s.backoff := by
  cases m; rfl

-- Between two waits.
theorem run_backoff (r : Run (Fires (step runner)) s₁ mid s) (h : ∀ e ∈ mid, e.waits = false) :
    s.backoff = if mid.any (Event.stable runner) then runner.config.backoffMin else s₁.backoff := by
  refine r.snoc_induction
    (motive := fun mid s => (∀ e ∈ mid, e.waits = false) →
      s.backoff = if mid.any (Event.stable runner) then runner.config.backoffMin else s₁.backoff)
    (fun _ => by simp) (fun mid s e s' _ h ih hm => ?_) h
  rw [step_backoff (step_moves h) (hm e (by simp)), ih fun e he => hm e (by simp [he])]
  cases he : e.stable runner <;> simp [he]

namespace Bounded

variable (hb : runner.config.backoffMin ≤ runner.config.backoffMax)

include hb

theorem min : Bounded runner runner.config.backoffMin :=
  ⟨le_refl _, hb⟩

theorem widen (b : Bounded runner backoff) : Bounded runner (widen runner backoff) := by
  refine ⟨le_min ?_ hb, min_le_right _ _⟩
  exact le_trans b.1 (Nat.le_mul_of_pos_right _ (by omega))

theorem step (b : Bounded runner s.backoff) (m : Moves runner s e s') : Bounded runner s'.backoff := by
  cases hw : e.waits
  case false =>
    rw [step_backoff m hw]
    split
    case isTrue  => exact min hb
    case isFalse => exact b
  case true =>
    cases e <;> cases hw
    rw [wait_backoff m]
    exact b.widen hb

theorem of_run (r : Run (Fires (Runner.step runner)) (init runner) es s) : Bounded runner s.backoff :=
  r.preserves (I := fun s => Bounded runner s.backoff) (min hb) fun _ _ _ b h => b.step hb (step_moves h)

end Bounded

-- ±20%.
theorem jitter_bounds (base : Duration) (hash : Nat) :
    4 / 5 * (base : Rat) ≤ jitter base hash ∧ jitter base hash ≤ 6 / 5 * base := by
  have hm : ((800 + hash % 400 : Nat) : Rat) ≤ 1200 := by
    have := Nat.mod_lt hash (show 400 > 0 by decide)
    exact_mod_cast (by omega : 800 + hash % 400 ≤ 1200)
  have hl : (800 : Rat) ≤ (800 + hash % 400 : Nat) := by
    exact_mod_cast Nat.le_add_right 800 _
  have hb : (0 : Rat) ≤ base := Nat.cast_nonneg _
  simp only [jitter]
  constructor
  case left  => linarith [mul_le_mul_of_nonneg_left hl hb]
  case right => linarith [mul_le_mul_of_nonneg_left hm hb]

theorem dialsInARow_snoc : dialsInARow (es ++ [e]) =
    if e.waits then 0 else if e.dials then dialsInARow es + 1 else dialsInARow es :=
  countSince_snoc

namespace Paced

theorem init : Paced [] (init runner) where
  bound       := Nat.zero_le _
  bearer _    := Nat.zero_le _
  unspent _ _ := rfl
  dial _ _    := Nat.zero_le _
  forget      := nofun

theorem step (p : Paced es s) (m : Moves runner s e s') : Paced (es ++ [e]) s' := by
  cases m
  case slept =>
    constructor <;> simp [dialsInARow_snoc, Event.waits]
  case connecting ha =>
    have hn := p.bearer ha
    refine ⟨?_, nofun, nofun, fun hr _ => ?_, nofun⟩
    · simp [dialsInARow_snoc, Event.waits, Event.dials]; omega
    · simp [dialsInARow_snoc, Event.waits, Event.dials, p.unspent hr ha]
  case panicked ha =>
    have hn := p.bearer ha
    refine ⟨?_, nofun, nofun, nofun, nofun⟩
    simp [dialsInARow_snoc, Event.waits, Event.dials]; omega
  case refused hr ha hu =>
    have hn := p.dial hu ha
    constructor <;> simp [dialsInARow_snoc, Event.waits, Event.dials] <;> omega
  case forgotten ha =>
    have ⟨hr, hn⟩ := p.forget ha
    constructor <;> simp [dialsInARow_snoc, Event.waits, Event.dials, hr] <;> omega
  all_goals
    have hn := p.bound
    constructor <;> simp_all [dialsInARow_snoc, Event.waits, Event.dials, connected, disconnected]

theorem of_run (r : Run (Fires (Runner.step runner)) (Runner.init runner) es s) : Paced es s :=
  r.snoc_induction init fun _ _ _ _ _ h p => p.step (step_moves h)

end Paced

theorem dials_le_two (r : Run (Fires (step runner)) (init runner) (pre ++ mid ++ post) s)
    (hm : ∀ e ∈ mid, e.waits = false) : mid.countP Event.dials ≤ 2 := by
  have ⟨_, r', _⟩ := r.split
  have hb := Paced.of_run r' |>.bound
  rw [dialsInARow, countSince_append hm] at hb
  exact le_trans (Nat.le_add_left ..) hb

theorem waits_paced (hb : runner.config.backoffMin ≤ runner.config.backoffMax)
    (r : Run (Fires (step runner)) (init runner) es s) :
    ((∀ e ∈ es, e.waits = false) → s.at = .sleep → s.backoff = runner.config.backoffMin) ∧
    (∀ pre hash mid s₁, es = pre ++ .slept hash :: mid → (∀ e ∈ mid, e.waits = false) →
      Run (Fires (step runner)) (init runner) pre s₁ → s.at = .sleep →
      s₁.at = .sleep ∧ s.backoff =
        if mid.any (Event.stable runner) then runner.config.backoffMin
        else min (s₁.backoff * 2) runner.config.backoffMax) ∧
    (s.at = .sleep → Bounded runner s.backoff ∧
      ∀ hash, 4 / 5 * (s.backoff : Rat) ≤ jitter s.backoff hash ∧ jitter s.backoff hash ≤ 6 / 5 * s.backoff) ∧
    (∀ pre mid post, es = pre ++ mid ++ post → (∀ e ∈ mid, e.waits = false) → mid.countP Event.dials ≤ 2) := by
  refine ⟨fun hw _ => ?_, fun pre hash mid s₁ he hm r₁ _ => ?_, fun _ => ?_, fun pre mid post he hm => ?_⟩
  case refine_1 =>
    rw [run_backoff r hw]
    split <;> rfl
  case refine_2 =>
    have ⟨_, r₁', r₂⟩ := (he ▸ r).split
    cases Run.deterministic r₁ r₁'
    have ⟨s₂, h, r₂⟩ := r₂.cons_inv
    have m := step_moves h
    refine ⟨by cases m; assumption, ?_⟩
    rw [run_backoff r₂ hm, wait_backoff m]
    rfl
  case refine_3 => exact ⟨Bounded.of_run hb r, jitter_bounds s.backoff⟩
  case refine_4 => exact dials_le_two (he ▸ r) hm

-- The server is unreachable twice. Then a connection lasts, so the next wait is a short one.
theorem waits_paced_stable :
    let runner : Runner := ⟨⟨"", "", "", [], false, 1, 8, 5⟩, false, true⟩
    let down : List Event := [.bearer (.ok "t"), .dial (.error (.unreachable "")), .slept 0]
    let up : List Event := [.bearer (.ok "t"), .dial (.ok ⟨0, none⟩), .closed 5]
    ∃ s, Run (Fires (step runner)) (init runner) (down ++ down ++ up) s ∧ s.at = .sleep ∧ s.backoff = 1 := by
  intro runner down up
  have ⟨s, r, hs⟩ : ∃ s, Run (Fires (step runner)) (init runner) (down ++ down ++ up) s ∧ s.at = .sleep :=
    ⟨_, Run.iff_replay.mpr rfl, rfl⟩
  have ⟨s₁, r₁⟩ : ∃ s, Run (Fires (step runner)) (init runner) (down ++ down.take 2) s := ⟨_, Run.iff_replay.mpr rfl⟩
  have ⟨_, restarts, _⟩ := waits_paced (by decide) r
  have ⟨_, hb⟩ := restarts (down ++ down.take 2) 0 up s₁ rfl (by decide) r₁ hs
  exact ⟨s, r, hs, hb⟩

end Runner
