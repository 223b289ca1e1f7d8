import ZyrisDocker.Heal.Task
import ZyrisDocker.Heal.Theorems.Step

open Transition

theorem Tokio.Documented.refused {tokio : Tokio ι} (documented : tokio.Documented) (h : period = 0) :
    tokio.interval period = none :=
  Option.not_isSome_iff_eq_none.mp fun hs => documented.interval.mp hs h

namespace Watcher

variable {ι : Type} {tokio : Tokio ι} {cfg : Config} {s s' : State ι} {e : Event} {es : List Event}

theorem round_eq (documented : tokio.Documented) (hp : s.poisoned = false) : s.round tokio = (s.slot, some ()) := by
  have hg : s.slot.get = (s.slot, some s.slot.value) := by
    rw [Slot.get, Mutex.access_eq hp rfl, ← hp]
    rfl
  have hr : s.report tokio = (s.slot, some ()) := by
    rw [State.report, hg]
    cases s.slot.value
    case none => rfl
    case some => exact Prod.ext rfl <| Option.eq_some_of_isSome documented.spawn
  simp only [State.round, hr, ite_self]
  split <;> rfl

theorem put_eq (hp : s.poisoned = false) : s.slot.put conn = (⟨some conn, false⟩, some ()) :=
  Mutex.access_eq hp rfl

-- The steps while the lock is not poisoned. Only the creation of the timer can panic.
inductive Moves (tokio : Tokio ι) (cfg : Config) (s : State ι) : Event → State ι → Prop
  | panic (spawned : s.phase = .spawned) (refused : tokio.interval cfg.monitorInterval = none) :
    Moves tokio cfg s .start { s with phase := .panicked }
  | start (spawned : s.phase = .spawned) (created : tokio.interval cfg.monitorInterval = some timer) :
    Moves tokio cfg s .start { s with phase := .settling timer }
  | settle (settling : s.phase = .settling timer) :
    Moves tokio cfg s .settle { s with phase := .looping timer' }
  | tick (looping : s.phase = .looping timer) (fires : SelfHealer.step cfg s.healer (.tick probe) = some healer) :
    Moves tokio cfg s (.healer (.tick probe)) { s with phase := .looping timer', healer }
  | healer {e : SelfHealer.Event}
    (fires : SelfHealer.step cfg s.healer e = some healer) (other : ∀ probe, e ≠ .tick probe) :
    Moves tokio cfg s (.healer e) { s with healer }

theorem step_moves (documented : tokio.Documented) (hp : s.poisoned = false) (h : step tokio cfg s e = some s') :
    Moves tokio cfg s e s' := by
  have ticks (timer : ι) : ∃ timer', tokio.tick timer = some timer' := Option.isSome_iff_exists.mp documented.tick
  cases e
  case start =>
    simp only [step] at h
    split at h <;> cases h
    cases hi : tokio.interval cfg.monitorInterval
    case none => exact .panic ‹_› hi
    case some => exact .start ‹_› hi
  case settle =>
    simp only [step] at h
    split at h <;> cases h
    rename_i timer _
    obtain ⟨_, ht⟩ := ticks timer
    rw [ht]
    exact .settle ‹_›
  case healer e =>
    cases e
    case tick =>
      simp only [step] at h
      split at h
      case h_2          => cases h
      case h_1 timer hl =>
        obtain ⟨_, fires, rfl⟩ := Option.map_eq_some_iff.mp h
        obtain ⟨_, ht⟩ := ticks timer
        rw [ht]
        exact .tick hl fires
    case next =>
      simp only [step, round_eq documented hp] at h
      split at h
      case h_2 => cases h
      case h_1 =>
        obtain ⟨_, fires, rfl⟩ := Option.map_eq_some_iff.mp h
        exact .healer fires nofun
    case put conn =>
      simp only [step, put_eq hp] at h
      cases h
      rw [← hp]
      exact .healer rfl nofun
    case close | reply =>
      simp only [step] at h
      obtain ⟨_, fires, rfl⟩ := Option.map_eq_some_iff.mp h
      exact .healer fires nofun

namespace Moves

theorem poisoned_eq (m : Moves tokio cfg s e s') : s'.poisoned = s.poisoned := by
  cases m <;> rfl

-- A created timer keeps the task from panicking.
theorem phase_ne (m : Moves tokio cfg s e s') (created : tokio.interval cfg.monitorInterval ≠ none)
    (h : s.phase ≠ .panicked) : s'.phase ≠ .panicked := by
  cases m
  case panic refused               => exact absurd refused created
  case start | settle | tick       => nofun
  case healer                      => exact h

end Moves

variable (tokio cfg) in
-- The state before the task is run, and whatever it is run into.
def NeverPanics : Prop :=
  ∀ es s, Run (Fires (step tokio cfg)) {} es s → s.phase ≠ .panicked

-- The lock is never poisoned, because nobody who holds it panics.
theorem not_poisoned (documented : tokio.Documented) (r : Run (Fires (step tokio cfg)) {} es s) : s.poisoned = false :=
  r.preserves (I := (·.poisoned = false)) rfl fun _ _ _ hp h => (step_moves documented hp h).poisoned_eq.trans hp

theorem run_moves (documented : tokio.Documented) (r : Run (Fires (step tokio cfg)) {} es s) :
    Run (Moves tokio cfg) {} es s :=
  r.snoc_induction .refl fun _ _ _ _ r h ih => ih.snoc <| step_moves documented (not_poisoned documented r) h

-- What the task does to the watcher's state is a run of the watcher's own loop.
theorem run_healer (documented : tokio.Documented) (r : Run (Fires (step tokio cfg)) {} es s) :
    ∃ es', Run (Fires (SelfHealer.step cfg)) {} es' s.healer := by
  refine (run_moves documented r).snoc_induction (motive := fun _ s => ∃ es', Run _ {} es' s.healer) ⟨[], .refl⟩
    fun _ _ _ _ _ m ih => ?_
  obtain ⟨_, ih⟩ := ih
  cases m
  case panic | start | settle => exact ⟨_, ih⟩
  case tick fires             => exact ⟨_, ih.snoc fires⟩
  case healer fires _         => exact ⟨_, ih.snoc fires⟩

theorem neverPanics_of_interval (documented : tokio.Documented) (hi : cfg.monitorInterval ≠ 0) :
    NeverPanics tokio cfg := by
  intro es s r
  have created := Option.isSome_iff_ne_none.mp <| documented.interval.mpr hi
  exact (run_moves documented r).preserves (I := (·.phase ≠ .panicked)) nofun fun _ _ _ h m => m.phase_ne created h

-- The task was not started, or panicked when it was.
def Silent (s : State ι) : Prop :=
  (s.phase = .spawned ∨ s.phase = .panicked) ∧ s.healer.samples = []

theorem Moves.silent (m : Moves tokio cfg s e s') (refused : tokio.interval cfg.monitorInterval = none) (h : Silent s) :
    Silent s' := by
  obtain ⟨hp, hs⟩ := h
  cases m
  case panic               => exact ⟨.inr rfl, hs⟩
  case start created       => exact nomatch refused.symm.trans created
  case healer fires other  => exact ⟨hp, (SelfHealer.step_samples fires other).trans hs⟩
  case settle | tick       => simp_all

-- With the interval zero, no sample is ever taken, whatever happens to the connection meanwhile.
theorem silent_of_zero (documented : tokio.Documented) (hi : cfg.monitorInterval = 0)
    (r : Run (Fires (step tokio cfg)) {} es s) : Silent s := by
  have refused := documented.refused hi
  exact (run_moves documented r).preserves (I := Silent) ⟨.inl rfl, rfl⟩ fun _ _ _ h m => m.silent refused h

theorem start_of_zero (documented : tokio.Documented) (hi : cfg.monitorInterval = 0) :
    Run (Fires (step tokio cfg)) {} [.start] { phase := .panicked } := by
  exact .single <| by simp [Fires, step, documented.refused hi]

-- The watcher stays alive if the text that sets its interval is not a zero.
theorem neverPanics_iff (documented : tokio.Documented) (env : Config.Env) :
    NeverPanics tokio (Config.fromEnv env) ↔
      ¬∃ v, env "ZYRISD_MONITOR_INTERVAL_SECS" = some v ∧ Text.parseU64 v.toList = some 0 := by
  have zero : (Config.fromEnv env).monitorInterval = 0 ↔ _ := Config.envDurationSecs_eq_zero_iff (by decide)
  rw [← zero]
  constructor
  case mp  => exact fun h hi => h _ _ (start_of_zero documented hi) rfl
  case mpr => exact neverPanics_of_interval documented

-- A timer is its period.
def periods : Tokio Duration where
  interval period := if period = 0 then none else some period
  tick            := some
  spawn           := some ()

theorem periods_documented : periods.Documented where
  interval {period} := by by_cases h : period = 0 <;> simp [periods, h]
  tick              := rfl
  spawn             := rfl

theorem not_neverPanics :
    ¬∀ (tokio : Tokio Duration), tokio.Documented → ∀ env, NeverPanics tokio (Config.fromEnv env) := by
  intro h
  have zero : (Config.fromEnv <| .only "ZYRISD_MONITOR_INTERVAL_SECS" "0").monitorInterval = 0 := by decide
  exact h periods periods_documented _ _ _ (start_of_zero periods_documented zero) rfl

theorem neverPanics_iff_minute :
    NeverPanics periods (Config.fromEnv <| .only "ZYRISD_MONITOR_INTERVAL_SECS" "60") ↔
      ¬∃ v, Config.Env.only "ZYRISD_MONITOR_INTERVAL_SECS" "60" "ZYRISD_MONITOR_INTERVAL_SECS" = some v ∧
        Text.parseU64 v.toList = some 0 :=
  neverPanics_iff periods_documented _

end Watcher
