import ZyrisDocker.Heal.Theorems.Named
import ZyrisDocker.Heal.Theorems.Report
import ZyrisDocker.Heal.Theorems.Slot
import ZyrisDocker.Heal.Theorems.Task
import ZyrisDocker.Lib.Simulation
import ZyrisDocker.Runtime.Theorems.TryRun
import ZyrisDocker.Startup.Runtime

open Transition

theorem RunError.exitCode_pos (err : RunError) : 0 < err.exitCode := by
  simp only [RunError.exitCode]
  split <;> decide

namespace Runner.TryRun

variable {runner : Runner} {s s' : State} {e : Event} {es : List Event}

-- How the race stands after the given events.
def Stands (es : List Event) (s : State) : Prop :=
  match s.phase with
  | .racing                => .stop ∉ es
  | .closing               => .stop ∈ es
  | .returned (.ok ())     => .stop ∈ es
  | .returned (.error err) => .stop ∉ es ∧ s.loop.at = .returned err

-- A connection of the node has dropped, was closed, or is the one that is being served.
def Retired (s : State) (conn : Connection) : Prop :=
  conn ∈ s.dropped ∨ conn ∈ s.closed ∨ (s.phase = .racing ∧ s.loop.at = .closed conn)

structure Settled (es : List Event) (s : State) : Prop where
  parked  : s.phase = .racing → Parked s.loop
  retired : ∀ conn ∈ s.loop.hooks, Retired s conn
  stands  : Stands es s

theorem advance_cases (s : State) (loop : Runner.State) :
    (advance s loop = { s with loop } ∧ ∀ err, loop.at ≠ .returned err) ∨
    (∃ err, loop.at = .returned err ∧ advance s loop = { s with loop, phase := .returned (.error err) }) := by
  simp only [advance]
  split
  case h_1 err h => exact .inr ⟨err, h, rfl⟩
  case h_2 h     => exact .inl ⟨rfl, h⟩

namespace Settled

theorem init : Settled [] (init runner) where
  parked _ := Parked.init
  retired  := nofun
  stands   := nofun

-- The dial loop leaves a connection that has dropped, and serves the one that it dials.
theorem loop_retired {e : Runner.Event} {loop : Runner.State} (x : Settled es s) (ready : ready s e)
    (m : Runner.Moves runner s.loop e loop) (h : conn ∈ loop.hooks) :
    conn ∈ s.dropped ∨ conn ∈ s.closed ∨ loop.at = .closed conn := by
  have earlier (h : conn ∈ s.loop.hooks) : conn ∈ s.dropped ∨ conn ∈ s.closed ∨ s.loop.at = .closed conn :=
    (x.retired conn h).imp_right <| .imp_right And.right
  obtain hh | ⟨conn', rfl, hh⟩ := ConnSlot.hooks_cases m
  case inl =>
    obtain hd | hc | ha := earlier (hh ▸ h)
    · exact .inl hd
    · exact .inr <| .inl hc
    · cases m
      case dropped => exact .inl <| by simpa [TryRun.ready, Suspension.serving, ha] using ready
      all_goals simp_all
  case inr =>
    cases m
    case connected ha =>
      obtain rfl | h := List.mem_cons.mp (hh ▸ h)
      · exact .inr <| .inr rfl
      · exact (earlier h).imp_right <| .imp_right fun h => by simp [ha] at h

theorem loop {e : Runner.Event} {loop : Runner.State} (x : Settled es s) (racing : s.phase = .racing)
    (ready : ready s e) (m : Runner.Moves runner s.loop e loop) : Settled (es ++ [.loop e]) (advance s loop) := by
  have hs : .stop ∉ es := by simpa [Stands, racing] using x.stands
  have hr {conn : Connection} (h : conn ∈ loop.hooks) := x.loop_retired ready m h
  obtain ⟨he, _⟩ | ⟨err, ha, he⟩ := advance_cases s loop <;> rw [he]
  case inl =>
    refine ⟨fun _ => (x.parked racing).step m, fun conn h => ?_, by simpa [Stands, racing] using hs⟩
    exact (hr h).imp_right <| .imp_right fun h => ⟨racing, h⟩
  case inr =>
    refine ⟨nofun, fun conn h => ?_, by simpa [Stands, ha] using hs⟩
    exact (hr h).imp_right <| .imp_right fun h => by simp [ha] at h

-- The connection that is being served is closed.
theorem shutdown (x : Settled es s) (racing : s.phase = .racing) : Settled (es ++ [.stop]) (shutdown s) := by
  have hp := x.parked racing
  have hc := shutdown_closed hp
  have ht : (TryRun.shutdown s).dropped = s.dropped := by simp only [TryRun.shutdown]; split <;> rfl
  have hh : (TryRun.shutdown s).loop.hooks = s.loop.hooks := by rw [shutdown_loop]
  constructor
  case parked  => obtain h | h := shutdown_phase (s := s) <;> simp [h]
  case stands  => obtain h | h := shutdown_phase (s := s) <;> simp [Stands, h]
  case retired =>
    intro conn h
    rw [Retired, ht, hc]
    obtain hd | hc | ⟨_, ha⟩ := x.retired conn (hh ▸ h)
    · exact .inl hd
    · exact .inr <| .inl <| List.mem_append_right _ hc
    · exact .inr <| .inl <| by simp [ha, Suspension.serving]

theorem step (x : Settled es s) (h : TryRun.step runner s e = some s') : Settled (es ++ [e]) s' := by
  cases step_moves h
  case loop racing ready m => exact x.loop racing ready m
  case stop racing _       => exact x.shutdown racing
  case drop =>
    refine ⟨x.parked, fun conn h => (x.retired conn h).imp_left (.tail _), ?_⟩
    simpa [Stands] using x.stands
  case grace closing =>
    refine ⟨nofun, fun conn h => (x.retired conn h).imp_right <| .imp_right ?_, ?_⟩
    · exact fun h => by simp [closing] at h
    · simpa [Stands, closing] using x.stands

theorem of_run (r : Run (Fires (TryRun.step runner)) (TryRun.init runner) es s) : Settled es s :=
  r.snoc_induction init fun _ _ _ _ _ h x => x.step h

end Settled

theorem step_hooks (h : step runner s e = some s') : s.loop.hooks ⊆ s'.loop.hooks := by
  cases step_moves h
  case drop | grace => exact List.Subset.refl _
  case stop         => rw [shutdown_loop]; exact List.Subset.refl _
  case loop m       =>
    rw [advance_loop]
    obtain hh | ⟨_, _, hh⟩ := ConnSlot.hooks_cases m <;> rw [hh]
    exacts [List.Subset.refl _, List.subset_cons_self ..]

end Runner.TryRun

namespace RunRuntime

variable {ι : Type} {runner : Runner} {tokio : Tokio ι} {cfg : Config}

-- What happens to the runner.
def Event.run? : Event → Option Runner.TryRun.Event
  | .run e => e
  | _      => none

inductive Moves (runner : Runner) (tokio : Tokio ι) (cfg : Config) (s : State ι) : Event → State ι → Prop
  | run (fires : Runner.TryRun.step runner s.run e = some run) : Moves runner tokio cfg s (.run e) { s with run }
  | hook (dialed : s.run.loop.dialed n = some conn)
    (fires : Watcher.step tokio cfg s.watcher (.healer (.put conn)) = some watcher) :
    Moves runner tokio cfg s (.hook n) { s with watcher, stored := n :: s.stored }
  | watcher (admits : s.admits e) (fires : Watcher.step tokio cfg s.watcher e = some watcher) :
    Moves runner tokio cfg s (.watcher e) { s with watcher }
  | exit (status : s.status = some code) : Moves runner tokio cfg s .exit { s with exited := code }

variable {s s' : State ι} {e : Event} {es : List Event}

theorem step_moves (h : step runner tokio cfg s e = some s') : s.exited = none ∧ Moves runner tokio cfg s e s' := by
  simp only [step] at h
  split at h
  case isTrue   => cases h
  case isFalse hx =>
    refine ⟨by simpa using hx, ?_⟩
    cases e <;> dsimp only at h
    case run =>
      obtain ⟨_, fires, rfl⟩ := Option.map_eq_some_iff.mp h
      exact .run fires
    case hook =>
      split at h
      case isTrue  => cases h
      case isFalse =>
        obtain ⟨_, dialed, h⟩ := Option.bind_eq_some_iff.mp h
        obtain ⟨_, fires, h⟩ := Option.bind_eq_some_iff.mp h
        cases h
        exact .hook dialed fires
    case watcher =>
      split at h
      case isFalse => cases h
      case isTrue  =>
        obtain ⟨_, fires, rfl⟩ := Option.map_eq_some_iff.mp h
        exact .watcher ‹_› fires
    case exit =>
      obtain ⟨_, status, rfl⟩ := Option.map_eq_some_iff.mp h
      exact .exit status

-- Nothing around the runner changes what it does.
theorem run_run (r : Run (Fires <| step runner tokio cfg) (init runner) es s) :
    Run (Fires <| Runner.TryRun.step runner) (Runner.TryRun.init runner) (es.filterMap Event.run?) s.run := by
  refine r.project (I := fun _ => True) State.run Event.run? trivial (fun _ _ _ _ _ => trivial) ?_ ?_
  case refine_1 =>
    intro s e s' d _ h hd
    obtain ⟨_, m⟩ := step_moves h
    cases m <;> cases hd
    assumption
  case refine_2 =>
    intro s e s' _ h hn
    obtain ⟨_, m⟩ := step_moves h
    cases m <;> first | rfl | cases hn

-- The status of the process is what the runner returned, or that of its panic.
theorem run_exited (r : Run (Fires <| step runner tokio cfg) (init runner) es s) (h : s.exited = some code) :
    s.status = some code := by
  refine r.preserves (I := fun s => s.exited = some code → s.status = some code) nofun (fun s e s' _ h hx => ?_) h
  obtain ⟨going, m⟩ := step_moves h
  cases m
  case exit status          => exact status.trans hx
  case run | hook | watcher => cases going.symm.trans hx

theorem status_cases (h : s.status = some code) :
    (∃ r, s.run.phase = .returned r ∧ code = Runner.TryRun.exitStatus r) ∨
    (s.run.phase = .racing ∧ s.run.loop.at = .panicked ∧ code = panicStatus) := by
  simp only [State.status] at h
  split at h <;> cases h
  case h_1 r hp   => exact .inl ⟨r, hp, rfl⟩
  case h_2 hp ha  => exact .inr ⟨hp, ha, rfl⟩

theorem mem_run_events : .stop ∈ es.filterMap Event.run? ↔ .run .stop ∈ es := by
  rw [List.mem_filterMap]
  refine ⟨fun ⟨e, he, h⟩ => ?_, fun h => ⟨_, h, rfl⟩⟩
  cases e <;> cases h
  exact he

-- However a process exits, all of its connections have dropped or were closed before. It exits with 0 exactly if
-- it took a stop signal, and otherwise with the status of the error that ended its dial loop, or of its panic.
theorem exit_retires (r : Run (Fires <| step runner tokio cfg) (init runner) es s) (h : s.exited = some code) :
    (∀ conn ∈ s.run.loop.hooks, conn ∈ s.run.dropped ∨ conn ∈ s.run.closed) ∧ (code = 0 ↔ .run .stop ∈ es) ∧
    (code ≠ 0 → (∃ err, s.run.loop.at = .returned err ∧ code = err.exitCode) ∨
      (s.run.loop.at = .panicked ∧ code = panicStatus)) := by
  have x := Runner.TryRun.Settled.of_run (run_run r)
  have hs := x.stands
  simp only [Runner.TryRun.Stands, mem_run_events] at hs
  obtain ⟨result, hp, rfl⟩ | ⟨hp, ha, rfl⟩ := status_cases (run_exited r h)
  case inl =>
    refine ⟨fun conn hc => (x.retired conn hc).imp_right (·.resolve_right fun h => by simp [hp] at h), ?_⟩
    cases result
    case ok        => simp_all [Runner.TryRun.exitStatus]
    case error err =>
      have := RunError.exitCode_pos err
      simp only [hp] at hs
      exact ⟨⟨fun h => by simp only [Runner.TryRun.exitStatus] at h; omega, fun h => absurd h hs.1⟩,
        fun _ => .inl ⟨err, hs.2, rfl⟩⟩
  case inr =>
    refine ⟨fun conn hc => (x.retired conn hc).imp_right (·.resolve_right fun h => by simp [ha] at h), ?_⟩
    simp only [hp] at hs
    exact ⟨⟨nofun, fun h => absurd h hs⟩, fun _ => .inr ⟨ha, rfl⟩⟩

-- The watcher's lock is free of poison, and what it sends is sent over connections of this node.
structure Sends (cfg : Config) (s : State ι) : Prop where
  sound : s.watcher.poisoned = false
  named : SelfHealer.Named (· ∈ s.run.loop.hooks) cfg s.watcher.healer

namespace Sends

theorem watcher {e : Watcher.Event} {watcher : Watcher.State ι} (documented : tokio.Documented) (x : Sends cfg s)
    (fires : Watcher.step tokio cfg s.watcher e = some watcher)
    (put : ∀ {conn}, e = .healer (.put conn) → conn ∈ s.run.loop.hooks) : Sends cfg { s with watcher } := by
  have m := Watcher.step_moves documented x.sound fires
  refine ⟨m.poisoned_eq.trans x.sound, ?_⟩
  clear fires
  cases m
  case panic | start | settle => exact x.named
  case tick fires             => exact x.named.step fires nofun
  case healer fires _         => exact x.named.step fires fun h => put (h ▸ rfl)

theorem step (documented : tokio.Documented) (x : Sends cfg s) (h : step runner tokio cfg s e = some s') : Sends cfg s' := by
  obtain ⟨_, m⟩ := step_moves h
  cases m
  case run fires           => exact ⟨x.sound, x.named.mono (Runner.TryRun.step_hooks fires ·)⟩
  case exit                => exact ⟨x.sound, x.named⟩
  case watcher admits fires => exact x.watcher documented fires fun h => by simp [h, State.admits] at admits
  case hook dialed fires   =>
    have hm := List.mem_reverse.mp <| List.mem_of_getElem? dialed
    have ⟨sound, named⟩ := x.watcher documented fires fun h => by cases h; exact hm
    exact ⟨sound, named⟩

end Sends

-- Every heal session of a process is opened as its configuration asks for it, and names the node by its address
-- over a connection that this very process dialed, or states no address if that connection has none.
theorem sessions_named (documented : tokio.Documented) (r : Run (Fires <| step runner tokio cfg) (init runner) es s)
    (h : d ∈ s.watcher.healer.delivered) : d.Named (· ∈ s.run.loop.hooks) cfg :=
  have x : Sends cfg s := r.preserves ⟨rfl, .init⟩ fun _ _ _ x h => x.step documented h
  x.named.delivered d h

section Examples

open SelfHealer Watcher

def container : Runner where
  config := ⟨"", "", "", [], false, 1, 8, 5⟩
  hooked := true
  info   := true

def web : Connection where
  id   := 0
  node := "srv-a/zyris-docker/web-1"

-- The node connects and its watcher reports a process over the connection, until the node is stopped.
def served : List Event :=
  [.watcher .start, .run (.loop <| .bearer <| .ok "zc_"), .run (.loop <| .dial <| .ok web), .hook 0, .watcher .settle,
    .watcher (.healer <| .tick nothingRuns), .watcher (.healer .next),
    .watcher (.healer <| .reply 0 <| .capability <| .ok ()), .watcher (.healer <| .reply 0 <| .session <| .ok "s"),
    .watcher (.healer <| .reply 0 <| .message <| .ok ()), .run .stop, .run .grace, .exit]

theorem run_served : ∃ s,
    Run (Fires <| step container periods nginxConfig) (init container) served s ∧
    s.exited = some 0 ∧ s.run.loop.hooks = [web] ∧ s.watcher.healer.delivered ≠ [] :=
  ⟨_, Run.iff_replay.mpr rfl, rfl, rfl, nofun⟩

-- The credential is cut within a character for the log.
def cut : List Event :=
  [.watcher .start, .run (.loop <| .bearer <| .ok "zc_12345678é"), .exit]

theorem exit_retires_served :
    (∃ s, Run (Fires <| step container periods nginxConfig) (init container) served s ∧
      web ∈ s.run.loop.hooks ∧ (web ∈ s.run.dropped ∨ web ∈ s.run.closed)) ∧
    ∃ s, Run (Fires <| step container periods nginxConfig) (init container) cut s ∧
      s.exited = some 101 ∧ s.run.loop.at = .panicked := by
  constructor
  case left =>
    have ⟨s, r, hx, hh, _⟩ := run_served
    have hm : web ∈ s.run.loop.hooks := by simp [hh]
    exact ⟨s, r, hm, (exit_retires r hx).1 web hm⟩
  case right =>
    have ⟨s, r, hx, hn⟩ : ∃ s, Run (Fires <| step container periods nginxConfig) (init container) cut s ∧ s.exited = some 101 ∧
        ∀ err, s.run.loop.at ≠ .returned err :=
      ⟨_, Run.iff_replay.mpr rfl, rfl, by rintro _ ⟨⟩⟩
    obtain ⟨err, he, _⟩ | ⟨ha, _⟩ := (exit_retires r hx).2.2 (by decide)
    · exact absurd he (hn err)
    · exact ⟨s, r, hx, ha⟩

theorem sessions_named_served : ∃ s d,
    Run (Fires <| step container periods nginxConfig) (init container) served s ∧
    d ∈ s.watcher.healer.delivered ∧ d.Named (· ∈ s.run.loop.hooks) nginxConfig := by
  have ⟨s, r, _, _, hd⟩ := run_served
  have ⟨d, hm⟩ := List.exists_mem_of_ne_nil _ hd
  exact ⟨s, d, r, hm, sessions_named periods_documented r hm⟩

end Examples

end RunRuntime
