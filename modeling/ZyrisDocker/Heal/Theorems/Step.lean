import ZyrisDocker.Heal.Basic

namespace SelfHealer

variable {cfg : Config} {s s' : State} {task : Report} {r : Reply}

theorem step_put (h : step cfg s (.put conn) = some s') : s' = { s with slot := conn } := by
  cases h; rfl

theorem step_close (h : step cfg s (.close conn) = some s') :
    s' = { s with closed := conn :: s.closed } := by
  cases h; rfl

theorem step_tick (h : step cfg s (.tick probe) = some s') :
    s.pending = [] ∧ s' = s.tick (sample cfg probe) := by
  simp only [step] at h
  split at h <;> cases h
  exact ⟨‹_›, rfl⟩

theorem step_next (h : step cfg s .next = some s') :
    ∃ incident rest, s.pending = incident :: rest ∧ s' = s.next incident rest := by
  simp only [step] at h
  split at h <;> cases h
  exact ⟨_, _, ‹_›, rfl⟩

theorem step_reply (h : step cfg s (.reply i r) = some s') :
    ∃ task p, s.tasks[i]? = some task ∧ (task.conn ∈ s.closed → r.fails) ∧
      task.resume cfg task.stage r = some p ∧ s' = s.progress i p := by
  simp only [step, Option.bind_eq_bind, Option.bind_eq_some_iff] at h
  have ⟨task, ht, h⟩ := h
  split at h
  case isTrue  => contradiction
  case isFalse hc =>
    have ⟨p, hp, h⟩ := Option.bind_eq_some_iff.mp h
    cases h
    exact ⟨task, p, ht, by simpa using hc, hp, rfl⟩

-- What a report task makes of an answer: it fails exactly on the failing ones, and otherwise stays
-- the report of the same incident, whether it is still in flight or through.
theorem resume_cases (h : task.resume cfg stage r = some p) :
    (r.fails ∧ p = .failed) ∨
    (¬r.fails ∧ ∃ task', p = .await task' ∧ task'.incident = task.incident ∧ task'.born = task.born) ∨
    (¬r.fails ∧ ∃ d, p = .sent d ∧ d.incident = task.incident ∧ d.born = task.born) := by
  unfold Report.resume at h
  split at h
  case h_1 =>
    split at h <;> cases h
    all_goals exact .inr <| .inl ⟨by simp [Reply.fails], _, rfl, rfl, rfl⟩
  case h_4   => cases h; exact .inr <| .inr ⟨by simp [Reply.fails], _, rfl, rfl, rfl⟩
  case h_10  => cases h
  all_goals cases h
  case h_2 | h_3 => exact .inr <| .inl ⟨by simp [Reply.fails], _, rfl, rfl, rfl⟩
  all_goals exact .inl ⟨rfl, rfl⟩

namespace State

theorem mem_tick_reported : key ∈ (s.tick is).reported ↔ key ∈ s.reported ∧ key ∈ is.map Incident.key := by
  simp [tick]

@[simp]
theorem next_samples : (s.next incident rest).samples = s.samples := by
  simp only [next]; split <;> [rfl; (split <;> rfl)]

@[simp]
theorem next_delivered : (s.next incident rest).delivered = s.delivered := by
  simp only [next]; split <;> [rfl; (split <;> rfl)]

@[simp]
theorem next_pending : (s.next incident rest).pending = rest := by
  simp only [next]; split <;> [rfl; (split <;> rfl)]

theorem mem_next_reported :
    key ∈ (s.next incident rest).reported ↔ key ∈ s.reported ∨ key = incident.key := by
  simp only [next]
  split
  case isTrue h => exact ⟨.inl, (·.elim id (· ▸ h))⟩
  case isFalse  => split <;> simp [spawn, or_comm]

theorem mem_next_tasks (h : task ∈ s.tasks) : task ∈ (s.next incident rest).tasks := by
  simp only [next]
  split
  case isTrue  => exact h
  case isFalse => split <;> simp [spawn, h]

-- With a connection in the slot, a newly reported incident gets its task.
theorem next_spawns (hs : s.slot ≠ none) (hr : incident.key ∉ s.reported) :
    ∃ task ∈ (s.next incident rest).tasks, task.incident = incident ∧ task.born = s.samples.length := by
  have ⟨conn, hc⟩ := Option.ne_none_iff_exists'.mp hs
  simp [next, hr, hc, spawn]

@[simp]
theorem progress_samples : (s.progress i p).samples = s.samples := by
  cases p <;> rfl

@[simp]
theorem progress_reported : (s.progress i p).reported = s.reported := by
  cases p <;> rfl

@[simp]
theorem progress_pending : (s.progress i p).pending = s.pending := by
  cases p <;> rfl

end State

-- Only a tick takes a sample.
theorem step_samples (h : step cfg s e = some s') (other : ∀ probe, e ≠ .tick probe) : s'.samples = s.samples := by
  cases e
  case put   => rw [step_put h]
  case close => rw [step_close h]
  case tick  => exact absurd rfl (other _)
  case next  =>
    obtain ⟨_, _, _, rfl⟩ := step_next h
    exact State.next_samples
  case reply =>
    obtain ⟨_, _, _, _, _, rfl⟩ := step_reply h
    exact State.progress_samples

end SelfHealer
