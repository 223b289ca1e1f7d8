import ZyrisDocker.Heal.Theorems.Step

open Transition

-- What the watcher watches: the kinds of targets that `sample` reports on.
inductive Target
  | process (name : String)
  | container (name : String)
  | cluster
  | pod («namespace» name : String)
  | node (name : String)

namespace Target

def kind : Target → String
  | process _   => "process"
  | container _ => "container"
  | cluster     => "k8s"
  | pod ..      => "k8s_pod"
  | node _      => "k8s_node"

def label : Target → String
  | process name | container name | node name => name
  | cluster                                   => "cluster"
  | pod ns name                               => ns ++ "/" ++ name

def key (t : Target) : String :=
  t.kind ++ ":" ++ t.label

def Watched (cfg : Config) : Target → Prop
  | process name     => name ∈ cfg.watchProcesses
  | container name   => name ∈ cfg.watchContainers
  | pod _ name       => cfg.watchK8s ∧ name ≠ ""
  | cluster | node _ => cfg.watchK8s

def Alive (p : ProcessInfo) : Prop :=
  p.state ∉ ["Z", "X", "x"]

-- The probe of the target succeeded, and what it saw is that the target is healthy or gone.
def ObservedUp (probe : Probe) : Target → Prop
  | process name   => ∃ p ∈ probe.processList name, p.name = name ∧ Alive p
  | container name => ∃ lines c, Docker.runDocker (probe.dockerPs name) = .ok lines ∧
    c ∈ lines.filterMap Docker.parseContainerLine ∧ c.name = name ∧ c.running
  | cluster        => ∃ is, K8s.Reads probe.pods is
  | pod ns name    => ∃ is, K8s.Reads probe.pods is ∧ ∀ pod ∈ is.map K8s.podInfo,
    pod.namespace = ns → pod.name = name → pod.phase = "Running" ∨ pod.phase = "Succeeded"
  | node name      => ∃ is, K8s.Reads probe.nodes is ∧ ∀ node ∈ is.map K8s.nodeInfo,
    node.name = name → node.ready

-- The probe of the target does not mistake something else for a healthy target:
-- * not all the processes found under a name are dead ones,
-- * the first container of the listing is not a running one of another name, unless the container in
--   question runs as well,
-- * `kubectl` succeeds with a list of items (where the pod read may fail for the cluster itself).
def Clean (probe : Probe) : Target → Prop
  | process name   => (∃ p ∈ probe.processList name, p.name = name) →
    ∃ p ∈ probe.processList name, p.name = name ∧ Alive p
  | container name => ∀ lines c, Docker.runDocker (probe.dockerPs name) = .ok lines →
    lines.findSome? Docker.parseContainerLine = some c → c.running → c.name ≠ name →
    ∃ c' ∈ lines.filterMap Docker.parseContainerLine, c'.name = name ∧ c'.running
  | cluster        => ∀ v, K8s.runKubectl probe.pods = .ok v → K8s.items v ≠ none
  | pod _ _        => ∃ is, K8s.Reads probe.pods is
  | node _         => ∃ is, K8s.Reads probe.nodes is

variable {cfg : Config} {probe : Probe} {t : Target}

section Sample

open SelfHealer

variable {k n : String}

theorem processIncidents_has : (∃ i ∈ processIncidents cfg probe, i.kind = k ∧ i.name = n) ↔
    k = "process" ∧ n ∈ cfg.watchProcesses ∧ ¬processRunning (probe.processList n) n := by
  simp only [processIncidents, List.mem_map, List.mem_filter]
  constructor
  case mp =>
    rintro ⟨_, ⟨_, ⟨hm, hr⟩, rfl⟩, rfl, rfl⟩
    exact ⟨rfl, hm, by simpa using hr⟩
  case mpr =>
    rintro ⟨rfl, hm, hr⟩
    exact ⟨_, ⟨n, ⟨hm, by simpa using hr⟩, rfl⟩, rfl, rfl⟩

theorem containerIncidents_has : (∃ i ∈ containerIncidents cfg probe, i.kind = k ∧ i.name = n) ↔
    k = "container" ∧ n ∈ cfg.watchContainers ∧ ¬Docker.containerRunning (probe.dockerPs n) n := by
  simp only [containerIncidents, List.mem_map, List.mem_filter]
  constructor
  case mp =>
    rintro ⟨_, ⟨_, ⟨hm, hr⟩, rfl⟩, rfl, rfl⟩
    exact ⟨rfl, hm, by simpa using hr⟩
  case mpr =>
    rintro ⟨rfl, hm, hr⟩
    exact ⟨_, ⟨n, ⟨hm, by simpa using hr⟩, rfl⟩, rfl, rfl⟩

theorem podIncidents_has : (∃ i ∈ podIncidents probe, i.kind = k ∧ i.name = n) ↔
    (k = "k8s" ∧ n = "cluster" ∧ ∃ e, K8s.pods probe.pods = .error e) ∨
    (k = "k8s_pod" ∧ ∃ pods, K8s.pods probe.pods = .ok pods ∧
      ∃ pod ∈ pods, podDown pod ∧ pod.namespace ++ "/" ++ pod.name = n) := by
  cases h : K8s.pods probe.pods
  case error e =>
    simp only [podIncidents, h, List.mem_singleton, exists_eq_left]
    constructor
    case mp  => rintro ⟨rfl, rfl⟩; exact .inl ⟨rfl, rfl, e, rfl⟩
    case mpr =>
      rintro (⟨rfl, rfl, _⟩ | ⟨_, _, h, _⟩)
      · exact ⟨rfl, rfl⟩
      · cases h
  case ok pods =>
    simp only [podIncidents, h, List.mem_map, List.mem_filter]
    constructor
    case mp =>
      rintro ⟨_, ⟨pod, ⟨hm, hd⟩, rfl⟩, rfl, rfl⟩
      exact .inr ⟨rfl, pods, rfl, pod, hm, hd, rfl⟩
    case mpr =>
      rintro (⟨_, _, _, h⟩ | ⟨rfl, _, h, pod, hm, hd, rfl⟩) <;> cases h
      exact ⟨_, ⟨pod, ⟨hm, hd⟩, rfl⟩, rfl, rfl⟩

theorem nodeIncidents_has : (∃ i ∈ nodeIncidents probe, i.kind = k ∧ i.name = n) ↔
    k = "k8s_node" ∧ ∃ nodes, K8s.nodes probe.nodes = .ok nodes ∧
      ∃ node ∈ nodes, ¬node.ready ∧ node.name = n := by
  cases h : K8s.nodes probe.nodes
  case error => simp [nodeIncidents, h]
  case ok nodes =>
    simp only [nodeIncidents, h, List.mem_map, List.mem_filter]
    constructor
    case mp =>
      rintro ⟨_, ⟨node, ⟨hm, hr⟩, rfl⟩, rfl, rfl⟩
      exact ⟨rfl, nodes, rfl, node, hm, by simpa using hr, rfl⟩
    case mpr =>
      rintro ⟨rfl, _, h, node, hm, hr, rfl⟩
      cases h
      exact ⟨_, ⟨node, ⟨hm, by simpa using hr⟩, rfl⟩, rfl, rfl⟩

theorem sample_has : (∃ i ∈ sample cfg probe, i.kind = k ∧ i.name = n) ↔
    (∃ i ∈ processIncidents cfg probe, i.kind = k ∧ i.name = n) ∨
    (∃ i ∈ containerIncidents cfg probe, i.kind = k ∧ i.name = n) ∨
    (cfg.watchK8s ∧ ((∃ i ∈ podIncidents probe, i.kind = k ∧ i.name = n) ∨
      ∃ i ∈ nodeIncidents probe, i.kind = k ∧ i.name = n)) := by
  cases h : cfg.watchK8s <;> simp [sample, h, or_and_right, exists_or]

theorem sample_kind (h : i ∈ sample cfg probe) :
    i.kind ∈ ["process", "container", "k8s", "k8s_pod", "k8s_node"] := by
  have := sample_has.mp ⟨i, h, rfl, rfl⟩
  rw [processIncidents_has, containerIncidents_has, podIncidents_has, nodeIncidents_has] at this
  obtain ⟨h, _⟩ | ⟨h, _⟩ | ⟨_, (⟨h, _⟩ | ⟨h, _⟩) | ⟨h, _⟩⟩ := this <;> simp [h]

end Sample

-- The target is in the sample.
def Down (cfg : Config) (probe : Probe) (t : Target) : Prop :=
  ∃ i ∈ SelfHealer.sample cfg probe, i.kind = t.kind ∧ i.name = t.label

section Down

theorem down_process :
    (process n).Down cfg probe ↔ n ∈ cfg.watchProcesses ∧ ¬processRunning (probe.processList n) n := by
  rw [Down, sample_has, processIncidents_has, containerIncidents_has, podIncidents_has, nodeIncidents_has]
  simp [kind, label]

theorem down_container : (container n).Down cfg probe ↔
    n ∈ cfg.watchContainers ∧ ¬Docker.containerRunning (probe.dockerPs n) n := by
  rw [Down, sample_has, processIncidents_has, containerIncidents_has, podIncidents_has, nodeIncidents_has]
  simp [kind, label]

theorem down_cluster :
    cluster.Down cfg probe ↔ cfg.watchK8s ∧ ∃ e, K8s.pods probe.pods = .error e := by
  rw [Down, sample_has, processIncidents_has, containerIncidents_has, podIncidents_has, nodeIncidents_has]
  simp [kind, label]

theorem down_pod : (pod ns n).Down cfg probe ↔
    cfg.watchK8s ∧ ∃ pods, K8s.pods probe.pods = .ok pods ∧
      ∃ p ∈ pods, SelfHealer.podDown p ∧ p.namespace ++ "/" ++ p.name = ns ++ "/" ++ n := by
  rw [Down, sample_has, processIncidents_has, containerIncidents_has, podIncidents_has, nodeIncidents_has]
  simp [kind, label]

theorem down_node : (node n).Down cfg probe ↔
    cfg.watchK8s ∧ ∃ nodes, K8s.nodes probe.nodes = .ok nodes ∧ ∃ m ∈ nodes, ¬m.ready ∧ m.name = n := by
  rw [Down, sample_has, processIncidents_has, containerIncidents_has, podIncidents_has, nodeIncidents_has]
  simp [kind, label]

end Down

theorem key_inj {k₁ k₂ n₁ n₂ : String} (h₁ : ':' ∉ k₁.toList) (h₂ : ':' ∉ k₂.toList) :
    k₁ ++ ":" ++ n₁ = k₂ ++ ":" ++ n₂ ↔ k₁ = k₂ ∧ n₁ = n₂ := by
  constructor
  case mp =>
    intro h
    replace h := congrArg String.toList h
    have hc : ":".toList = [':'] := rfl
    simp only [String.toList_append, List.append_assoc, hc, List.singleton_append] at h
    have ⟨hk, hn⟩ := Text.append_separator_inj h₁ h₂ h
    exact ⟨String.toList_inj.mp hk, String.toList_inj.mp hn⟩
  case mpr => rintro ⟨rfl, rfl⟩; rfl

-- No two kinds share a key, so a target's key is in the sample only on its own account.
theorem key_mem_iff : t.key ∈ (SelfHealer.sample cfg probe).map Incident.key ↔ t.Down cfg probe := by
  simp only [List.mem_map, Down]
  refine exists_congr fun i => and_congr_right fun h => ?_
  refine key_inj ?_ (by cases t <;> simp [kind])
  have := sample_kind h
  simp only [List.mem_cons, List.not_mem_nil, or_false] at this
  rcases this with h | h | h | h | h <;> simp [h]

theorem container_clean_iff :
    (Docker.containerRunning (probe.dockerPs n) n → (container n).ObservedUp probe) ↔ (container n).Clean probe := by
  rw [Docker.containerRunning_iff]
  constructor
  case mp =>
    intro h lines c hl hc hr _
    have ⟨_, c', hl', hm, hn, hr'⟩ := h ⟨lines, c, hl, hc, hr⟩
    cases hl.symm.trans hl'
    exact ⟨c', hm, hn, hr'⟩
  case mpr =>
    rintro h ⟨lines, c, hl, hc, hr⟩
    by_cases hn : c.name = n
    case pos =>
      have ⟨line, hm, hp⟩ := List.exists_of_findSome?_eq_some hc
      exact ⟨lines, c, hl, List.mem_filterMap.mpr ⟨line, hm, hp⟩, hn, hr⟩
    case neg =>
      have ⟨c', hm, hn, hr'⟩ := h lines c hl hc hr hn
      exact ⟨lines, c', hl, hm, hn, hr'⟩

-- A watched target which is not in the sample was observed up, exactly if its probe was clean.
theorem clean_iff (hw : t.Watched cfg) :
    (¬t.Down cfg probe → t.ObservedUp probe) ↔ t.Clean probe := by
  cases t
  case process n =>
    have hw : n ∈ cfg.watchProcesses := hw
    simp [down_process, hw, processRunning, ObservedUp, Clean]
  case container n =>
    have hw : n ∈ cfg.watchContainers := hw
    simp only [down_container, hw, true_and, not_not]
    exact container_clean_iff
  case cluster =>
    have hw : cfg.watchK8s := hw
    simp only [down_cluster, hw, true_and, K8s.pods, K8s.getItems_eq_error_iff, ObservedUp, Clean, K8s.Reads]
    cases K8s.runKubectl probe.pods <;> simp [Option.ne_none_iff_exists']
  case pod ns n =>
    have ⟨hw, hn⟩ : cfg.watchK8s ∧ n ≠ "" := hw
    simp only [down_pod, hw, true_and]
    refine K8s.observes_iff_reads fun p hp hns hpn => ?_
    by_contra hc
    exact hp ⟨by simp [SelfHealer.podDown, not_or.mp hc, hpn, hn], by rw [hns, hpn]⟩
  case node n =>
    have hw : cfg.watchK8s := hw
    simp only [down_node, hw, true_and]
    exact K8s.observes_iff_reads fun m hm hn => by_contra fun hr => hm ⟨hr, hn⟩

end Target

namespace SelfHealer

-- The step lets a watched target's key leave the map only if it is a tick whose probe saw the target
-- healthy or gone.
def Rearms (cfg : Config) (s : State) (e : Event) (s' : State) : Prop :=
  ∀ t : Target, t.Watched cfg → t.key ∈ s.reported → t.key ∉ s'.reported →
    ∃ probe, e = .tick probe ∧ t.ObservedUp probe

-- If the step is a tick, its probes of the reported targets are clean.
def ReadsClean (cfg : Config) (s : State) (e : Event) (_ : State) : Prop :=
  ∀ probe, e = .tick probe → ∀ t : Target, t.Watched cfg → t.key ∈ s.reported → t.Clean probe

theorem rearms_tick_iff {cfg : Config} {probe : Probe} (s : State) :
    Rearms cfg s (.tick probe) (s.tick <| sample cfg probe) ↔
      ReadsClean cfg s (.tick probe) (s.tick <| sample cfg probe) := by
  simp only [Rearms, ReadsClean, State.mem_tick_reported, Target.key_mem_iff]
  constructor
  case mp =>
    rintro h _ ⟨⟩ t hw hk
    refine (Target.clean_iff hw).mp fun hd => ?_
    have ⟨_, he, hu⟩ := h t hw hk (hd ·.2)
    cases he; exact hu
  case mpr =>
    intro h t hw hk hd
    exact ⟨probe, rfl, (Target.clean_iff hw).mpr (h _ rfl t hw hk) (hd ⟨hk, ·⟩)⟩

-- No other step removes a key.
theorem reported_subset {cfg : Config} {s s' : State} (h : step cfg s e = some s')
    (he : ∀ probe, e ≠ .tick probe) (hk : key ∈ s.reported) : key ∈ s'.reported := by
  cases e
  case put    => exact step_put h ▸ hk
  case close  => exact step_close h ▸ hk
  case tick p => exact absurd rfl (he p)
  case next   =>
    have ⟨_, _, _, hs⟩ := step_next h
    exact hs ▸ State.mem_next_reported.mpr (.inl hk)
  case reply  =>
    have ⟨_, _, _, _, _, hs⟩ := step_reply h
    exact hs ▸ State.progress_reported.symm ▸ hk

theorem rearms_iff {cfg : Config} {s s' : State} (h : step cfg s e = some s') :
    Rearms cfg s e s' ↔ ReadsClean cfg s e s' := by
  by_cases he : ∃ probe, e = .tick probe
  case pos =>
    obtain ⟨probe, rfl⟩ := he
    exact (step_tick h).2 ▸ rearms_tick_iff s
  case neg =>
    constructor
    case mp  => exact fun _ probe hp => absurd ⟨probe, hp⟩ he
    case mpr => exact fun _ t _ hk hn => absurd (reported_subset h (not_exists.mp he) hk) hn

-- The runs in which keys leave the map only on an observation are those with clean reads.
theorem run_rearms_iff {cfg : Config} {es : List Event} {s : State} :
    Run (Guard (Fires <| step cfg) (Rearms cfg)) {} es s ↔
      Run (Guard (Fires <| step cfg) (ReadsClean cfg)) {} es s :=
  Run.guard_congr fun _ h => rearms_iff h

theorem sample_watched {cfg : Config} {probe : Probe} (h : i ∈ sample cfg probe) :
    ∃ t : Target, t.Watched cfg ∧ t.key = i.key := by
  have := Target.sample_has.mp ⟨i, h, rfl, rfl⟩
  rw [Target.processIncidents_has, Target.containerIncidents_has, Target.podIncidents_has,
    Target.nodeIncidents_has] at this
  obtain ⟨hk, hw, _⟩ | ⟨hk, hw, _⟩ | ⟨hw, (⟨hk, hn, _⟩ | ⟨hk, _, _, p, _, hd, hn⟩) | ⟨hk, _⟩⟩ := this
  · exact ⟨.process i.name, hw, by simp [Target.key, Target.kind, Target.label, Incident.key, hk]⟩
  · exact ⟨.container i.name, hw, by simp [Target.key, Target.kind, Target.label, Incident.key, hk]⟩
  · exact ⟨.cluster, hw, by simp [Target.key, Target.kind, Target.label, Incident.key, hk, hn]⟩
  · refine ⟨.pod p.namespace p.name, ⟨hw, ?_⟩, ?_⟩
    · intro he; simp [podDown, he] at hd
    · simp [Target.key, Target.kind, Target.label, Incident.key, hk, ← hn]
  · exact ⟨.node i.name, hw, by simp [Target.key, Target.kind, Target.label, Incident.key, hk]⟩

-- All keys that are ever reported, or about to be, are those of watched targets.
structure Watches (cfg : Config) (s : State) : Prop where
  reported : ∀ key ∈ s.reported, ∃ t : Target, t.Watched cfg ∧ t.key = key
  pending  : ∀ i ∈ s.pending, ∃ t : Target, t.Watched cfg ∧ t.key = i.key

theorem Watches.step {cfg : Config} {s s' : State} (w : Watches cfg s) (h : step cfg s e = some s') :
    Watches cfg s' := by
  cases e
  case put   => exact step_put h ▸ ⟨w.reported, w.pending⟩
  case close => exact step_close h ▸ ⟨w.reported, w.pending⟩
  case tick  =>
    rw [(step_tick h).2]
    exact ⟨fun _ hk => w.reported _ (State.mem_tick_reported.mp hk).1, fun _ hi => sample_watched hi⟩
  case next  =>
    have ⟨i, rest, hp, hs⟩ := step_next h
    rw [hs]
    constructor
    case reported =>
      intro key hk
      cases State.mem_next_reported.mp hk
      case inl hk => exact w.reported key hk
      case inr hk => exact hk ▸ w.pending i (hp ▸ .head _)
    case pending =>
      intro j hj
      rw [State.next_pending] at hj
      exact w.pending j (hp ▸ .tail _ hj)
  case reply =>
    have ⟨_, _, _, _, _, hs⟩ := step_reply h
    rw [hs]
    exact ⟨State.progress_reported.symm ▸ w.reported, State.progress_pending.symm ▸ w.pending⟩

theorem run_watches {cfg : Config} {es : List Event} {s : State} (r : Run (Fires <| step cfg) {} es s) :
    Watches cfg s :=
  r.preserves ⟨nofun, nofun⟩ fun _ _ _ w h => w.step h

section Examples

def clusterConfig : Config where
  monitorInterval := .fromSecs 30
  watchProcesses  := []
  watchContainers := []
  watchK8s        := true
  healAgentId     := none
  healProjectId   := none
  healPreamble    := ""
  fileRoots       := []
  execTimeout     := .fromSecs 120

def pendingPod : Json :=
  .obj [("metadata", .obj [("namespace", .str "default"), ("name", .str "web")]),
    ("status", .obj [("phase", .str "Pending")])]

def podPending : Probe where
  processList _ := []
  dockerPs _    := .unavailable "no docker"
  pods          := .exited true (.ok <| .obj [("items", .arr [pendingPod])]) ""
  nodes         := .exited true (.ok <| .obj [("items", .arr [])]) ""

-- The same cluster while the read of its pods fails.
def podsUnread : Probe :=
  { podPending with pods := .exited false (.error "") "connection refused" }

theorem not_run_rearms :
    ¬∀ (cfg : Config) (es : List Event) (s : State),
      Run (Fires <| step cfg) {} es s → Run (Guard (Fires <| step cfg) (Rearms cfg)) {} es s := by
  intro h
  have ⟨s₁, h₁, hk₁⟩ : ∃ s, replay (step clusterConfig) {} [.tick podPending, .next] = some s ∧
      "k8s_pod:default/web" ∈ s.reported := ⟨_, rfl, by decide⟩
  have ⟨s₂, h₂, hk₂⟩ : ∃ s, replay (step clusterConfig) s₁ [.tick podsUnread] = some s ∧
      "k8s_pod:default/web" ∉ s.reported := by cases h₁; exact ⟨_, rfl, by decide⟩
  have r := h _ _ _ <| (Run.iff_replay.mpr h₁).append (Run.iff_replay.mpr h₂)
  have ⟨s₁', r₁, g⟩ := r.snoc_inv
  cases h₁.symm.trans <| Run.iff_replay.mp r₁.unguard
  have ⟨_, he, is, ⟨v, hv, _⟩, _⟩ := g.meets (.pod "default" "web") (by simp [Target.Watched, clusterConfig]) hk₁ hk₂
  cases he
  simp [podsUnread, K8s.runKubectl] at hv

end Examples

end SelfHealer
