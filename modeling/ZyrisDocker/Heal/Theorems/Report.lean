import ZyrisDocker.Heal.Theorems.Step

open Transition

namespace SelfHealer

namespace State

variable (s : State) (key : String)

-- For how many ticks up to the latest one the key has been down without interruption.
def downFor : Nat :=
  s.samples.takeWhile (fun incidents => key ∈ incidents.map Incident.key) |>.length

-- Whether a tick belongs to the current down-episode of the key.
def Current (born : Nat) : Prop :=
  s.samples.length < born + s.downFor key

-- A heal session was created for the current down-episode of the key, and its message sent.
def Reported : Prop :=
  ∃ d ∈ s.delivered, d.incident.key = key ∧ s.Current key d.born

-- A report task for the current down-episode of the key is in flight.
def Reporting : Prop :=
  ∃ task ∈ s.tasks, task.incident.key = key ∧ s.Current key task.born

-- What the map claims about the key is true, unless a report task for it is still in flight.
def Truthful : Prop :=
  key ∈ s.reported → (∀ task ∈ s.tasks, task.incident.key ≠ key) → s.Reported key

end State

-- The step does not lose the key's incident: the incident is not first seen while the slot is empty,
-- and no report task for it receives an answer on which it returns early.
def Kept (key : String) (s : State) : Event → State → Prop
  | .next,      _ => ∀ incident ∈ s.pending.head?, incident.key = key → key ∉ s.reported → s.slot ≠ none
  | .reply i r, _ => ∀ task ∈ s.tasks[i]?, task.incident.key = key → ¬r.fails
  | _,          _ => True

-- The invariant that carries `Truthful` through the runs which keep the key's incidents.
structure Accounted (key : String) (s : State) : Prop where
  pending  : ∀ incident ∈ s.pending, 0 < s.downFor incident.key
  reported : key ∈ s.reported → s.Reporting key ∨ s.Reported key

namespace State

variable {s : State} {key : String}

theorem Current.congr {s' : State} (h : s'.samples = s.samples) : s'.Current key b ↔ s.Current key b := by
  simp [Current, downFor, h]

theorem downFor_tick (h : key ∈ is.map Incident.key) : (s.tick is).downFor key = s.downFor key + 1 := by
  simp only [downFor, tick]
  rw [List.takeWhile_cons_of_pos (by simpa using h)]
  rfl

-- A tick at which the key is down continues the down-episode.
theorem Current.tick (h : s.Current key b) (hk : key ∈ is.map Incident.key) : (s.tick is).Current key b := by
  simp only [Current] at *
  rw [downFor_tick hk, show (s.tick is).samples.length = s.samples.length + 1 from rfl]
  omega

theorem current_of_downFor (h : 0 < s.downFor key) : s.Current key s.samples.length := by
  simp only [Current]; omega

theorem Reported.progress (h : s.Reported key) : (s.progress i p).Reported key := by
  have ⟨d, hd, hk, hc⟩ := h
  refine ⟨d, ?_, hk, (Current.congr progress_samples).mpr hc⟩
  cases p
  case sent    => exact .tail _ hd
  all_goals exact hd

end State

namespace Accounted

variable {cfg : Config} {key : String} {s s' : State}

theorem init : Accounted key {} where
  pending  := nofun
  reported := nofun

theorem tick (a : Accounted key s) : Accounted key (s.tick is) where
  pending incident h := by
    have h : incident ∈ is := h
    rw [State.downFor_tick (List.mem_map_of_mem h)]
    omega
  reported h := by
    have ⟨hr, hk⟩ := State.mem_tick_reported.mp h
    cases a.reported hr
    case inl h => obtain ⟨t, ht, he, hc⟩ := h; exact .inl ⟨t, ht, he, hc.tick hk⟩
    case inr h => obtain ⟨d, hd, he, hc⟩ := h; exact .inr ⟨d, hd, he, hc.tick hk⟩

theorem next (a : Accounted key s) (hp : s.pending = incident :: rest)
    (hk : incident.key = key → key ∉ s.reported → s.slot ≠ none) :
    Accounted key (s.next incident rest) where
  pending i h := by
    rw [State.next_pending] at h
    simpa [State.downFor] using a.pending i (hp ▸ .tail _ h)
  reported h := by
    by_cases hr : key ∈ s.reported
    case pos =>
      cases a.reported hr
      case inl h =>
        obtain ⟨t, ht, he, hc⟩ := h
        exact .inl ⟨t, State.mem_next_tasks ht, he, (State.Current.congr State.next_samples).mpr hc⟩
      case inr h =>
        obtain ⟨d, hd, he, hc⟩ := h
        refine .inr ⟨d, ?_, he, (State.Current.congr State.next_samples).mpr hc⟩
        exact State.next_delivered.symm ▸ hd
    case neg =>
      -- The key is reported in this very round, so a task for it is spawned.
      cases State.mem_next_reported.mp h |>.resolve_left hr
      have ⟨t, ht, he, hb⟩ : ∃ t ∈ (s.next incident rest).tasks, _ := State.next_spawns (hk rfl hr) hr
      have hd := a.pending incident (hp ▸ .head _)
      refine .inl ⟨t, ht, by rw [he], (State.Current.congr State.next_samples).mpr ?_⟩
      exact hb ▸ State.current_of_downFor hd

-- An answer moves the task that receives it and leaves the other ones alone.
theorem reply (a : Accounted key s) (ht : s.tasks[i]? = some task)
    (hr : task.resume cfg task.stage r = some p) (hk : task.incident.key = key → ¬r.fails) :
    Accounted key (s.progress i p) where
  pending incident h := by
    rw [State.progress_pending] at h
    simpa [State.downFor] using a.pending incident h
  reported h := by
    rw [State.progress_reported] at h
    cases a.reported h
    case inr h => exact .inr h.progress
    case inl h =>
      obtain ⟨t, hm, he, hc⟩ := h
      have hc' := (State.Current.congr <| State.progress_samples (i := i) (p := p)).mpr hc
      have ⟨j, hj⟩ := List.mem_iff_getElem?.mp hm
      by_cases hij : i = j
      case pos =>
        cases hij; cases ht.symm.trans hj
        obtain ⟨hf, _⟩ | ⟨_, t', rfl, hi, hb⟩ | ⟨_, d, rfl, hi, hb⟩ := resume_cases hr
        · exact absurd hf (hk he)
        · refine .inl ⟨t', ?_, by rw [hi, he], hb ▸ hc'⟩
          exact List.mem_set (List.getElem?_eq_some_iff.mp ht).1 t'
        · exact .inr ⟨d, .head _, by rw [hi, he], hb ▸ hc'⟩
      case neg =>
        refine .inl ⟨t, ?_, he, hc'⟩
        cases p
        case await t' =>
          exact List.mem_iff_getElem?.mpr ⟨j, (List.getElem?_set_ne hij).trans hj⟩
        all_goals exact List.mem_eraseIdx_iff_getElem?.mpr ⟨j, Ne.symm hij, hj⟩

theorem step (a : Accounted key s) (g : Guard (Fires <| step cfg) (Kept key) s e s') :
    Accounted key s' := by
  have ⟨h, hk⟩ := g
  cases e
  case put   => exact step_put h ▸ ⟨a.pending, a.reported⟩
  case close => exact step_close h ▸ ⟨a.pending, a.reported⟩
  case tick  => exact (step_tick h).2 ▸ a.tick
  case next =>
    have ⟨incident, rest, hp, he⟩ := step_next h
    exact he ▸ a.next hp (hk incident (by simp [hp]))
  case reply =>
    have ⟨task, p, ht, _, hr, he⟩ := step_reply h
    exact he ▸ a.reply ht hr (hk task ht)

theorem truthful (a : Accounted key s) : s.Truthful key :=
  fun hr hn => a.reported hr |>.resolve_left fun ⟨t, ht, he, _⟩ => hn t ht he

end Accounted

-- In every run which keeps the key's incidents, the map is truthful about the key all along.
theorem reported_truthful {cfg : Config} {key : String} {es : List Event} {s : State}
    (r : Run (Guard (Fires <| step cfg) (Kept key)) {} es s) : s.Truthful key :=
  have a : Accounted key s := r.preserves .init fun _ _ _ a g => a.step g
  a.truthful

section Examples

-- A node which watches one process, on a machine where that process never runs.
def nginxConfig : Config where
  monitorInterval := .fromSecs 30
  watchProcesses  := ["nginx"]
  watchContainers := []
  watchK8s        := false
  healAgentId     := "agent"
  healProjectId   := none
  healPreamble    := ""
  fileRoots       := []
  execTimeout     := .fromSecs 120

def nothingRuns : Probe where
  processList _ := []
  dockerPs _    := .unavailable "no docker"
  pods          := .unavailable "no kubectl"
  nodes         := .unavailable "no kubectl"

def healed : List Event :=
  [.put { id := 0 }, .tick nothingRuns, .next, .reply 0 (.capability (.ok ())),
    .reply 0 (.session (.ok "session")), .reply 0 (.message (.ok ()))]

theorem reported_truthful_healed :
    ∃ s, Run (Guard (Fires <| step nginxConfig) (Kept "process:nginx")) {} healed s ∧
      s.Truthful "process:nginx" ∧ "process:nginx" ∈ s.reported ∧ s.tasks = [] := by
  have r : ∃ s, Run (Guard (Fires <| step nginxConfig) (Kept "process:nginx")) {} healed s ∧
      "process:nginx" ∈ s.reported ∧ s.tasks = [] := by
    refine ⟨_, .step ⟨rfl, trivial⟩ <| .step ⟨rfl, trivial⟩ <| .step ⟨rfl, ?_⟩ <| .step ⟨rfl, ?_⟩ <|
      .step ⟨rfl, ?_⟩ <| .step ⟨rfl, ?_⟩ .refl, ?_, ?_⟩
    case refine_1 => exact fun _ _ _ _ => nofun
    case refine_5 => decide
    case refine_6 => rfl
    all_goals exact fun _ _ _ => by decide
  have ⟨s, r, hk, ht⟩ := r
  exact ⟨s, r, reported_truthful r, hk, ht⟩

-- The first tick finds the slot empty. From then on the incident counts as reported: the connection
-- that arrives and the next tick, at which the process is still down, change nothing.
def lost : List Event :=
  [.tick nothingRuns, .next, .put { id := 0 }, .tick nothingRuns, .next]

theorem reported_not_truthful :
    ¬∀ (cfg : Config) (key : String) (es : List Event) (s : State),
      Run (Fires <| step cfg) {} es s → s.Truthful key := by
  intro h
  have ⟨s, hs⟩ : ∃ s, replay (step nginxConfig) {} lost = some s ∧
      "process:nginx" ∈ s.reported ∧ s.tasks = [] ∧ s.delivered = [] := ⟨_, rfl, by decide, rfl, rfl⟩
  have ⟨d, hd, _⟩ := h _ "process:nginx" _ s (Run.iff_replay.mpr hs.1) hs.2.1 (by simp [hs.2.2.1])
  simp [hs.2.2.2] at hd

end Examples

end SelfHealer
