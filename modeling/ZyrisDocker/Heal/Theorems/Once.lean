import Mathlib.Data.List.Perm.Subperm
import ZyrisDocker.Heal.Theorems.Report
import ZyrisDocker.Lib.Simulation

open Transition

namespace SelfHealer

-- What a report is about: an incident, as of a tick.
structure Origin where
  incident : Incident
  born     : Nat

def Report.origin (task : Report) : Origin where
  incident := task.incident
  born     := task.born

def Delivery.origin (delivery : Delivery) : Origin where
  incident := delivery.incident
  born     := delivery.born

-- The reports that a step starts.
def starts (s : State) : Event → State → List Origin
  | .next, s' => s'.tasks.drop s.tasks.length |>.map Report.origin
  | _,     _  => []

namespace State

variable (s : State)

-- What is still to be reported, and what was.
def origins : List Origin :=
  s.tasks.map Report.origin ++ s.delivered.map Delivery.origin

def Sampled (n : Nat) (is : List Incident) : Prop :=
  ∃ later earlier, s.samples = later ++ is :: earlier ∧ n = earlier.length + 1

-- At the n-th tick there was nothing amiss with the key.
def Up (n : Nat) (key : String) : Prop :=
  ∃ is, s.Sampled n is ∧ key ∉ is.map Incident.key

end State

-- Between the ticks of the two, the target of both was up.
def Apart (s : State) (o o' : Origin) : Prop :=
  o.incident.key = o'.incident.key → ∃ n, o.born < n ∧ n < o'.born ∧ s.Up n o.incident.key

namespace State

variable {s s' : State} {o o' : Origin}

theorem Sampled.congr (h : s'.samples = s.samples) : s'.Sampled n is ↔ s.Sampled n is := by
  rw [Sampled, h, Sampled]

theorem Sampled.tick (h : s.Sampled n is) : (s.tick is').Sampled n is := by
  obtain ⟨later, earlier, hs, hn⟩ := h
  exact ⟨is' :: later, earlier, by rw [State.tick, hs, List.cons_append], hn⟩

theorem Sampled.latest (s : State) (is : List Incident) : (s.tick is).Sampled (s.samples.length + 1) is :=
  ⟨[], s.samples, rfl, rfl⟩

theorem Sampled.le (h : s.Sampled n is) : n ≤ s.samples.length := by
  obtain ⟨_, _, hs, rfl⟩ := h
  rw [hs, List.length_append, List.length_cons]
  omega

-- Only one sample is the latest one.
theorem Sampled.latest_eq (h : s.Sampled s.samples.length is) (h' : s.Sampled s.samples.length is') : is = is' := by
  have head {is} (h : s.Sampled s.samples.length is) : s.samples.head? = some is := by
    obtain ⟨later, earlier, hs, hn⟩ := h
    rw [hs, List.length_append, List.length_cons] at hn
    rw [hs, List.eq_nil_of_length_eq_zero (by omega : later.length = 0)]
    rfl
  exact Option.some.inj <| (head h).symm.trans (head h')

theorem Up.mono (h : ∀ {n is}, s.Sampled n is → s'.Sampled n is) (hu : s.Up n key) : s'.Up n key := by
  obtain ⟨is, hs, hk⟩ := hu
  exact ⟨is, h hs, hk⟩

end State

theorem Apart.mono (h : ∀ {n is}, s.Sampled n is → s'.Sampled n is) (ha : Apart s o o') : Apart s' o o' :=
  fun hk => (ha hk).imp fun _ ⟨hn, hn', hu⟩ => ⟨hn, hn', hu.mono h⟩

-- One round of the loop starts at most one report: of an incident that was not in the map, over the connection
-- in the slot.
theorem next_cases (s : State) (incident : Incident) (rest : List Incident) :
    (s.next incident rest).tasks = s.tasks ∨
    (incident.key ∉ s.reported ∧ (s.next incident rest).reported = incident.key :: s.reported ∧
      ∃ conn, s.slot = some conn ∧
        (s.next incident rest).tasks = s.tasks ++ [{ conn, incident, born := s.samples.length }]) := by
  simp only [State.next]
  split
  case isTrue  => exact .inl rfl
  case isFalse hr =>
    split
    case h_1 conn hs => exact .inr ⟨hr, rfl, conn, hs, rfl⟩
    case h_2         => exact .inl rfl

-- An answer takes a report on, or out.
theorem progress_origins {s : State} (ht : s.tasks[i]? = some task) (hr : task.resume cfg stage r = some p) :
    (s.progress i p).origins.Subperm s.origins := by
  have ⟨hi, he⟩ := List.getElem?_eq_some_iff.mp ht
  obtain ⟨_, rfl⟩ | ⟨_, task', rfl, hn, hb⟩ | ⟨_, d, rfl, hn, hb⟩ := resume_cases hr
  case inl =>
    refine List.Sublist.subperm <| .append_right ?_ _
    exact (List.eraseIdx_sublist _ _).map _
  case inr.inl =>
    have ho : task'.origin = task.origin := by rw [Report.origin, hn, hb, Report.origin]
    have hm : (s.tasks.set i task').map Report.origin = s.tasks.map Report.origin := by
      rw [List.map_set, ho, ← he, ← List.getElem_map Report.origin (h := by simpa using hi)]
      exact List.set_getElem_self _
    rw [State.origins, State.progress, hm]
    exact .refl _
  case inr.inr =>
    have ho : d.origin = task.origin := by rw [Delivery.origin, hn, hb, Report.origin]
    have hp := (List.getElem_cons_eraseIdx_perm hi).map Report.origin
    rw [List.map_cons, he, ← ho] at hp
    exact (List.perm_middle.trans <| hp.append_right _).subperm

-- The invariant that keeps the reports of one target apart.
structure Once (os : List Origin) (s : State) : Prop where
  pending  : ∀ i ∈ s.pending, ∃ is, s.Sampled s.samples.length is ∧ i ∈ is
  sampled  : ∀ o ∈ os, ∃ is, s.Sampled o.born is ∧ o.incident ∈ is
  armed    : ∀ o ∈ os, o.incident.key ∈ s.reported ∨ ∃ n, o.born < n ∧ s.Up n o.incident.key
  apart    : os.Pairwise (Apart s)
  conserve : s.origins.Subperm os

namespace Once

variable {cfg : Config} {os : List Origin} {s s' : State}

theorem init : Once [] {} where
  pending  := nofun
  sampled  := nofun
  armed    := nofun
  apart    := .nil
  conserve := .refl _

-- A step that takes no sample and forgets nothing.
theorem still (c : Once os s) (hs : s'.samples = s.samples) (hp : s'.pending ⊆ s.pending) (hr : s.reported ⊆ s'.reported)
    (ho : s'.origins.Subperm s.origins) : Once os s' := by
  have hk {n is} : s'.Sampled n is ↔ s.Sampled n is := State.Sampled.congr hs
  constructor
  case pending  => simpa only [hk, hs] using fun i hi => c.pending i (hp hi)
  case sampled  => simpa only [hk] using c.sampled
  case apart    => exact c.apart.imp fun ha => ha.mono hk.mpr
  case conserve => exact ho.trans c.conserve
  case armed    => exact fun o hm => (c.armed o hm).imp (hr ·) fun ⟨n, hn, hu⟩ => ⟨n, hn, hu.mono hk.mpr⟩

theorem tick (c : Once os s) : Once os (s.tick is) where
  pending i hi := ⟨is, .latest s is, hi⟩
  sampled o hm := (c.sampled o hm).imp fun _ ⟨hs, hi⟩ => ⟨hs.tick, hi⟩
  apart        := c.apart.imp fun ha => ha.mono .tick
  conserve     := c.conserve
  armed o hm   := by
    -- What is up at this tick is re-armed.
    by_cases hk : o.incident.key ∈ is.map Incident.key
    case pos =>
      refine (c.armed o hm).imp (fun hr => State.mem_tick_reported.mpr ⟨hr, hk⟩) ?_
      exact fun ⟨n, hn, hu⟩ => ⟨n, hn, hu.mono .tick⟩
    case neg =>
      have ⟨_, hs, _⟩ := c.sampled o hm
      exact .inr ⟨_, Nat.lt_succ_of_le hs.le, is, .latest s is, hk⟩

-- A target that is not in the map was up after every report of it, and is down now.
theorem apart_latest (c : Once os s) (hi : incident ∈ s.pending) (hr : incident.key ∉ s.reported) (ho : o ∈ os) :
    Apart s o { incident, born := s.samples.length } := by
  intro hk
  obtain ⟨is, hs, hm⟩ := c.pending incident hi
  obtain ⟨n, hn, is', hs', hu⟩ := (c.armed o ho).resolve_left (hk ▸ hr)
  refine ⟨n, hn, lt_of_le_of_ne hs'.le ?_, is', hs', hu⟩
  rintro rfl
  cases hs'.latest_eq hs
  exact hu <| hk ▸ List.mem_map_of_mem hm

-- A report is started.
theorem start (c : Once os s) (hi : incident ∈ s.pending) (hr : incident.key ∉ s.reported) (hs : s'.samples = s.samples)
    (hp : s'.pending ⊆ s.pending) (hm : s'.reported = incident.key :: s.reported)
    (ho : s'.origins.Subperm (s.origins ++ [{ incident, born := s.samples.length }])) :
    Once (os ++ [{ incident, born := s.samples.length }]) s' := by
  have c' : Once os { s' with tasks := [], delivered := [] } :=
    c.still hs hp (hm ▸ List.subset_cons_self ..) (List.nil_subperm)
  constructor
  case pending  => exact c'.pending
  case conserve => exact ho.trans <| (List.subperm_append_right _).mpr c.conserve
  case sampled  =>
    refine List.forall_mem_append.mpr ⟨c'.sampled, List.forall_mem_singleton.mpr ?_⟩
    simpa only [State.Sampled.congr hs] using c.pending incident hi
  case armed =>
    refine List.forall_mem_append.mpr ⟨c'.armed, List.forall_mem_singleton.mpr ?_⟩
    exact .inl (hm ▸ .head _)
  case apart =>
    refine List.pairwise_append.mpr ⟨c'.apart, List.pairwise_singleton .., fun o ho o' ho' => ?_⟩
    cases List.mem_singleton.mp ho'
    exact (c.apart_latest hi hr ho).mono (State.Sampled.congr hs).mpr

theorem next (c : Once os s) (hp : s.pending = incident :: rest) :
    Once (os ++ starts s .next (s.next incident rest)) (s.next incident rest) := by
  have hs : (s.next incident rest).samples = s.samples := State.next_samples
  have hq : (s.next incident rest).pending ⊆ s.pending := by simp [hp]
  have hd : (s.next incident rest).delivered = s.delivered := State.next_delivered
  obtain ht | ⟨hr, hm, conn, _, ht⟩ := next_cases s incident rest
  case inl =>
    rw [starts, ht, List.drop_length, List.map_nil, List.append_nil]
    refine c.still hs hq (fun _ h => State.mem_next_reported.mpr (.inl h)) ?_
    rw [State.origins, ht, hd]
    exact .refl _
  case inr =>
    rw [starts, ht, List.drop_left]
    refine c.start (by simp [hp]) hr hs hq hm ?_
    rw [State.origins, State.origins, ht, hd, List.map_append, List.append_assoc, List.append_assoc]
    exact (List.Perm.append_left _ List.perm_append_comm).subperm

theorem step (c : Once os s) (h : step cfg s e = some s') : Once (os ++ starts s e s') s' := by
  cases e
  case next =>
    obtain ⟨incident, rest, hp, rfl⟩ := step_next h
    exact c.next hp
  all_goals refine (List.append_nil os).symm ▸ ?_
  case put   => exact step_put h ▸ c.still rfl (List.Subset.refl _) (List.Subset.refl _) (.refl _)
  case close => exact step_close h ▸ c.still rfl (List.Subset.refl _) (List.Subset.refl _) (.refl _)
  case tick  => exact (step_tick h).2 ▸ c.tick
  case reply =>
    obtain ⟨task, p, ht, _, hr, rfl⟩ := step_reply h
    refine c.still State.progress_samples ?_ ?_ (progress_origins ht hr)
    · rw [State.progress_pending]; exact List.Subset.refl _
    · rw [State.progress_reported]; exact List.Subset.refl _

end Once

section Examples

def nginxRuns : Probe :=
  { nothingRuns with
    processList _ := [{ pid := 7, name := "nginx", state := "S", rssBytes := 0, cpuSecs := 0, cmdline := "" }] }

def nginxDown : Incident where
  kind   := "process"
  name   := "nginx"
  detail := "required process `nginx` is not running in this container"

-- The process is down at two ticks, then up, and down again.
def flapping : List Event :=
  [.put { id := 0 }, .tick nothingRuns, .next, .tick nothingRuns, .next, .tick nginxRuns, .tick nothingRuns, .next]

end Examples

end SelfHealer
