import ZyrisDocker.Heal.Theorems.Once
import ZyrisDocker.Heal.Theorems.Sighting
import ZyrisDocker.Heal.Theorems.Watch

open Classical Transition

namespace SelfHealer

def Event.probe? : Event → Option Probe
  | .tick probe => some probe
  | _           => none

-- No tick is taken before a connection is put into the slot.
def Connected (s : State) (e : Event) (_ : State) : Prop :=
  ∀ probe, e = .tick probe → s.slot ≠ none

variable {cfg : Config} {s s' : State} {e : Event} {es : List Event} {os : List Origin} {key : String}

namespace State

variable (s : State) (key : String)

-- Whether there was something amiss with the key, tick by tick.
def downs : List Bool :=
  s.samples.reverse.map fun is => decide (key ∈ is.map Incident.key)

-- The reports of the key which the loop over a tick's incidents has yet to start.
def due : Nat :=
  if key ∈ s.pending.map Incident.key ∧ key ∉ s.reported then 1 else 0

end State

theorem State.downs_tick : (s.tick is).downs key = s.downs key ++ [decide (key ∈ is.map Incident.key)] := by
  rw [downs, downs, tick, List.reverse_cons, List.map_append, List.map_singleton]

theorem State.latest_downs : (s.downs key).getLastD false = decide (key ∈ (s.samples.headD []).map Incident.key) := by
  rw [downs]
  cases s.samples
  case nil  => rfl
  case cons => rw [List.reverse_cons, List.map_append, List.map_singleton, List.getLastD_concat, List.headD_cons]

theorem State.due_tick : (s.tick is).due key = if key ∈ is.map Incident.key ∧ key ∉ s.reported then 1 else 0 := by
  refine if_congr (and_congr_right fun hk => not_congr ?_) rfl rfl
  exact State.mem_tick_reported.trans (and_iff_left hk)

theorem State.due_next : (s.next incident rest).due key =
    if key ∈ rest.map Incident.key ∧ key ∉ s.reported ∧ key ≠ incident.key then 1 else 0 := by
  refine if_congr (and_congr (by rw [next_pending]) ?_) rfl rfl
  rw [mem_next_reported, not_or]

theorem step_slot (h : step cfg s e = some s') (hs : s.slot ≠ none) : s'.slot ≠ none := by
  cases e
  case put   => rw [step_put h]; nofun
  case close => rw [step_close h]; exact hs
  case tick  => rw [(step_tick h).2]; exact hs
  case next  =>
    obtain ⟨_, _, _, rfl⟩ := step_next h
    rwa [State.next_slot]
  case reply =>
    obtain ⟨_, p, _, _, _, rfl⟩ := step_reply h
    cases p <;> exact hs

-- The slot is never emptied.
theorem run_connected (hs : s.slot ≠ none) (r : Run (Fires <| step cfg) s es s') :
    Run (Guard (Fires <| step cfg) Connected) s es s' := by
  induction r
  case refl        => exact .refl
  case step h _ ih => exact .step ⟨h, fun _ _ => hs⟩ <| ih (step_slot h hs)

-- With a connection in the slot, a round of the loop starts a report exactly if the key is not in the map.
theorem starts_next (hs : s.slot ≠ none) : starts s .next (s.next incident rest) =
    if incident.key ∈ s.reported then [] else [{ incident, born := s.samples.length }] := by
  obtain ⟨conn, hc⟩ := Option.ne_none_iff_exists'.mp hs
  simp only [starts, State.next, hc]
  split
  case isTrue  => simp
  case isFalse => simp [State.spawn, Report.origin]

-- The reports that were started, and those that are due, are as many as the times that the target went down.
structure Counted (os : List Origin) (s : State) : Prop where
  held    : s.pending ≠ [] → s.slot ≠ none
  tracked : ∀ key, key ∈ s.reported ∨ key ∈ s.pending.map Incident.key ↔ key ∈ (s.samples.headD []).map Incident.key
  counted : ∀ key, (os.map (·.incident.key)).count key + s.due key = episodes (s.downs key)

namespace Counted

theorem init : Counted [] {} where
  held      := nofun
  tracked _ := by simp
  counted _ := by simp [State.due, State.downs, episodes]

-- A step that is not one of the watcher's loop.
theorem still (c : Counted os s) (hs : s.slot ≠ none → s'.slot ≠ none) (hp : s'.pending = s.pending) (hr : s'.reported = s.reported)
    (hm : s'.samples = s.samples) : Counted os s' where
  held h      := hs <| c.held (hp ▸ h)
  tracked key := by rw [hr, hp, hm]; exact c.tracked key
  counted key := by rw [State.due, State.downs, hr, hp, hm]; exact c.counted key

theorem tick (c : Counted os s) (hs : s.slot ≠ none) (hp : s.pending = []) : Counted os (s.tick is) where
  held _      := hs
  tracked key := by
    simp only [State.mem_tick_reported]
    exact ⟨(·.elim And.right id), .inr⟩
  counted key := by
    have hc := c.counted key
    have ht : key ∈ s.reported ↔ key ∈ (s.samples.headD []).map Incident.key := by simpa [hp] using c.tracked key
    have hd : s.due key = 0 := by simp [State.due, hp]
    rw [State.downs_tick, episodes_snoc, State.latest_downs, ← hc, hd, Nat.add_zero, State.due_tick]
    exact congrArg _ (if_congr (by simp [ht]) rfl rfl)

theorem next (c : Counted os s) (hp : s.pending = incident :: rest) :
    Counted (os ++ starts s .next (s.next incident rest)) (s.next incident rest) where
  held _      := by
    rw [State.next_slot]
    exact c.held (hp ▸ List.cons_ne_nil _ _)
  tracked key := by
    rw [State.mem_next_reported, State.next_pending, State.next_samples, ← c.tracked key, hp, List.map_cons, List.mem_cons,
      or_assoc]
  counted key := by
    have hs : s.slot ≠ none := c.held (hp ▸ List.cons_ne_nil _ _)
    have hd : (s.next incident rest).downs key = s.downs key := by rw [State.downs, State.next_samples, State.downs]
    rw [hd, ← c.counted key, starts_next hs, State.due_next, State.due, hp, List.map_append, List.count_append, Nat.add_assoc]
    refine congrArg _ ?_
    by_cases hk : key = incident.key
    case pos =>
      subst hk
      by_cases hr : incident.key ∈ s.reported <;> simp [hr]
    case neg =>
      by_cases hr : incident.key ∈ s.reported <;> simp [hr, hk, Ne.symm hk]

theorem step (c : Counted os s) (h : Guard (Fires <| step cfg) Connected s e s') : Counted (os ++ starts s e s') s' := by
  obtain ⟨h, connected⟩ := h
  cases e
  case next =>
    obtain ⟨incident, rest, hp, rfl⟩ := step_next h
    exact c.next hp
  all_goals refine (List.append_nil os).symm ▸ ?_
  case tick probe =>
    obtain ⟨hp, rfl⟩ := step_tick h
    exact c.tick (connected probe rfl) hp
  case put   => exact c.still (step_slot h) (by rw [step_put h]) (by rw [step_put h]) (by rw [step_put h])
  case close => exact c.still (step_slot h) (by rw [step_close h]) (by rw [step_close h]) (by rw [step_close h])
  case reply =>
    have hs := step_slot h
    obtain ⟨_, _, _, _, _, rfl⟩ := step_reply h
    exact c.still hs State.progress_pending State.progress_reported State.progress_samples

end Counted

theorem run_samples (r : Run (Fires <| step cfg) {} es s) :
    s.samples.reverse = (es.filterMap Event.probe?).map (sample cfg) := by
  refine r.snoc_induction (motive := fun es s => s.samples.reverse = (es.filterMap Event.probe?).map (sample cfg)) rfl
    fun es s e s' _ h ih => ?_
  rw [List.filterMap_append, List.map_append, ← ih]
  by_cases he : ∃ probe, e = .tick probe
  case pos =>
    obtain ⟨probe, rfl⟩ := he
    rw [(step_tick h).2, State.tick, List.reverse_cons]
    rfl
  case neg =>
    have hn : [e].filterMap Event.probe? = [] := by
      cases e
      case tick probe => exact absurd ⟨probe, rfl⟩ he
      all_goals rfl
    rw [step_samples h (not_exists.mp he), hn, List.map_nil, List.append_nil]

theorem map_down {sightings : List Sighting} {probes : List Probe} (shows : List.Forall₂ Sighting.Shows sightings probes)
    (clear : ∀ sighting ∈ sightings, sighting.Clear cfg) (t : Target) :
    (probes.map fun probe => decide (t.Down cfg probe)) = sightings.map fun sighting => decide (sighting.Down cfg t) := by
  induction shows
  case nil          => rfl
  case cons h _ ih =>
    have ⟨clear, clears⟩ := List.forall_mem_cons.mp clear
    rw [List.map_cons, List.map_cons, ih clears, decide_eq_decide.mpr (Sighting.down_iff h clear t)]

section Examples

def siteConfig : Config :=
  { clusterConfig with watchProcesses := ["nginx"], watchContainers := ["web"] }

def server : Proc.Process :=
  { Proc.nginx with stat := .cat }

theorem none_else : ∀ e ∈ ([] : List ProcEntry), Text.parseI32 (Text.fromUtf8Lossy e.name) = none :=
  fun _ h => absurd h List.not_mem_nil

def web (state : String) : Docker.Engine where
  containers := [⟨"1a", "web", "nginx", state, state = "running", ""⟩]
  names      := List.nodup_singleton _
  ids        := List.nodup_singleton _
  plain      := by simp
  running    := by simp

-- A server, a container in the given state, and a cluster of one pod and one node. The daemon and the cluster may be
-- out of reach.
def site (state : Option String) (cluster : Option (K8s.Phase × String)) : Sighting where
  processes _  := ⟨[server], [], none_else⟩
  containers _ := state.map web
  pods         := cluster.map fun c => ⟨[K8s.webPod c.1], []⟩
  nodes        := cluster.map fun c => ⟨[], [K8s.nodeA c.2]⟩

def siteProbe (sighting : Sighting) : Probe where
  processList name := processList (sighting.processes name).entries
  dockerPs name    := (sighting.containers name).elim (.unavailable "no docker") (·.ps name)
  pods             := sighting.pods.elim (.unavailable "no kubectl") K8s.Cluster.getPods
  nodes            := sighting.nodes.elim (.unavailable "no kubectl") K8s.Cluster.getNodes

theorem shown_elim {render : α → β} {run : β → Except String γ} {output : β}
    (h : run output = .error message) (found : Option α) :
    Shown render run found (found.elim output render) := by
  cases found
  case none   => exact .failed h
  case some x => exact .found x

theorem no_docker : Docker.runDocker (.unavailable "no docker") = .error "no docker" := rfl

theorem no_kubectl : K8s.runKubectl (.unavailable "no kubectl") = .error "kubectl unavailable: no kubectl" := rfl

theorem site_shows (sighting : Sighting) : sighting.Shows (siteProbe sighting) where
  processes _  := rfl
  containers _ := shown_elim no_docker _
  pods         := shown_elim no_kubectl _
  nodes        := shown_elim no_kubectl _

theorem site_clear (state cluster) : (site state cluster).Clear siteConfig where
  processes  := by
    intro name hm
    cases List.mem_singleton.mp hm
    have plain : Plain "nginx".toList := ⟨by decide, by decide, by decide⟩
    refine ⟨fun _ _ _ => plain, fun p hp _ => ⟨server, .head _, rfl, rfl⟩⟩
  containers := by
    intro name hm engine he
    cases List.mem_singleton.mp hm
    obtain ⟨state, rfl, rfl⟩ := Option.map_eq_some_iff.mp he
    constructor <;> simp [web, Docker.named]

-- First the container has exited and the pod has yet to start, then they run and the node is not ready, and then
-- neither the daemon nor the cluster can be reached.
def sights : List Sighting :=
  [site (some "exited") (some (.pending, "True")), site (some "running") (some (.running, "False")), site none none]

end Examples

end SelfHealer
