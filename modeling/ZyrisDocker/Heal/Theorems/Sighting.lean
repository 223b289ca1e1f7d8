import ZyrisDocker.Docker.Theorems.Lookup
import ZyrisDocker.K8s.Theorems.RoundTrip
import ZyrisDocker.Heal.Sighting

open Text

namespace Proc.Population

variable {population : Population} {name : String}

theorem Clear.running_iff (clear : population.Clear name) :
    processRunning (processList population.entries) name ↔ ∃ p ∈ population.processes, p.IsLive name := by
  rw [processRunning_iff]
  constructor
  case mp  => exact fun ⟨p, hp, hs⟩ => clear.stale p hp hs
  case mpr => exact fun ⟨p, hp, hl⟩ => ⟨p, hp, shown_of_comm hl.2 (clear.plain p hp hl)⟩

end Proc.Population

namespace Docker.Engine

variable {engine : Engine} {selector : String}

theorem Clear.running_iff (clear : engine.Clear selector) : containerRunning (engine.ps selector) selector ↔
    ∃ c ∈ engine.containers, c.name = selector ∧ c.running := by
  constructor
  case mp =>
    intro h
    cases hf : engine.containers.find? (named selector)
    case none   => simp [containerRunning_none hf] at h
    case some c =>
      rw [containerRunning_some hf] at h
      exact ⟨c, List.mem_of_find?_eq_some hf, clear.own c hf h, h⟩
  case mpr =>
    rintro ⟨c, hc, hn, hr⟩
    rw [containerRunning_some (clear.newest c hc hn hr), hr]

end Docker.Engine

namespace Docker

theorem not_running_of_error (h : runDocker ps = .error e) : ¬containerRunning ps selector := by
  rw [containerRunning_iff]
  rintro ⟨_, _, hr, _⟩
  cases h.symm.trans hr

end Docker

namespace K8s

theorem podDown_info {pod : Pod} : SelfHealer.podDown pod.info ↔ ¬pod.phase.IsUp := by
  have hn : pod.info.name.isEmpty = false := String.isEmpty_eq_false_iff.mpr pod.named
  rw [SelfHealer.podDown, hn, Bool.not_false, Bool.and_true]
  show (pod.phase.text != "Running" && pod.phase.text != "Succeeded") ↔ _
  cases pod.phase <;> simp [Phase.text, Phase.IsUp]

-- A label of a pod names one pod only.
theorem label_iff {pod : Pod} {ns name : String} : pod.namespace ++ "/" ++ pod.name = ns ++ "/" ++ name ↔
    pod.namespace = ns ∧ pod.name = name := by
  refine ⟨fun h => ?_, fun ⟨hs, hn⟩ => by rw [hs, hn]⟩
  have ⟨hs, hn⟩ := pod.plain
  have h := congrArg String.toList h
  simp only [String.toList_append, List.append_assoc, show "/".toList = ['/'] from rfl, List.singleton_append] at h
  have hc : '/' ∉ ns.toList := by
    have hc := congrArg (List.count '/') h
    simp only [List.count_append, List.count_cons_self, List.count_eq_zero.mpr hs, List.count_eq_zero.mpr hn] at hc
    exact List.count_eq_zero.mp (by omega)
  have ⟨hs, hn⟩ := append_separator_inj hs hc h
  exact ⟨String.toList_inj.mp hs, String.toList_inj.mp hn⟩

end K8s

namespace Shown

variable {render : α → β} {run : β → Except String γ} {output : β}

theorem of_some (s : Shown render run (some x) output) : output = render x := by
  cases s; rfl

theorem of_none (s : Shown render run none output) : ∃ e, run output = .error e := by
  cases s
  case failed e h => exact ⟨e, h⟩

end Shown

namespace Sighting

variable {cfg : Config} {sighting : Sighting} {probe : Probe}

theorem process_down_iff (shows : sighting.Shows probe) (clear : sighting.Clear cfg) :
    (Target.process name).Down cfg probe ↔ sighting.Down cfg (.process name) := by
  rw [Target.down_process, shows.processes]
  refine and_congr_right fun hm => ?_
  rw [(clear.processes name hm).running_iff]
  simp

theorem container_down_iff (shows : sighting.Shows probe) (clear : sighting.Clear cfg) :
    (Target.container name).Down cfg probe ↔ sighting.Down cfg (.container name) := by
  rw [Target.down_container]
  refine and_congr_right fun hm => ?_
  have clear := clear.containers name hm
  have shown := shows.containers name
  cases hc : sighting.containers name <;> rw [hc] at clear shown
  case none =>
    have ⟨_, he⟩ := shown.of_none
    exact iff_of_true (Docker.not_running_of_error he) nofun
  case some engine =>
    rw [shown.of_some, (clear engine rfl).running_iff]
    simp

theorem cluster_down_iff (shows : sighting.Shows probe) :
    Target.cluster.Down cfg probe ↔ sighting.Down cfg .cluster := by
  rw [Target.down_cluster]
  refine and_congr_right fun _ => ?_
  have shown := shows.pods
  cases hp : sighting.pods <;> rw [hp] at shown
  case none         => exact iff_of_true (shown.of_none.imp fun _ => K8s.getItems_eq_error_iff.mpr) rfl
  case some cluster => simp [shown.of_some, K8s.pods_getPods]

theorem pod_down_iff (shows : sighting.Shows probe) :
    (Target.pod ns name).Down cfg probe ↔ sighting.Down cfg (.pod ns name) := by
  rw [Target.down_pod]
  refine and_congr_right fun _ => ?_
  have shown := shows.pods
  cases hp : sighting.pods <;> rw [hp] at shown
  case none =>
    have ⟨e, he⟩ := shown.of_none
    simp [K8s.pods, K8s.getItems_eq_error_iff.mpr he]
  case some cluster =>
    have {pod : K8s.Pod} : pod.info.namespace ++ "/" ++ pod.info.name = ns ++ "/" ++ name ↔ _ := K8s.label_iff
    simp only [shown.of_some, K8s.pods_getPods, Except.ok.injEq, exists_eq_left', List.mem_map, exists_exists_and_eq_and,
      K8s.podDown_info, this, Option.mem_def, Option.some.injEq]
    exact exists_congr fun _ => and_congr_right fun _ => ⟨fun h => ⟨h.2.1, h.2.2, h.1⟩, fun h => ⟨h.2.2, h.1, h.2.1⟩⟩

theorem node_down_iff (shows : sighting.Shows probe) :
    (Target.node name).Down cfg probe ↔ sighting.Down cfg (.node name) := by
  rw [Target.down_node]
  refine and_congr_right fun _ => ?_
  have shown := shows.nodes
  cases hn : sighting.nodes <;> rw [hn] at shown
  case none =>
    have ⟨e, he⟩ := shown.of_none
    simp [K8s.nodes, K8s.getItems_eq_error_iff.mpr he]
  case some cluster =>
    have {node : K8s.Node} : node.info.ready = decide node.IsReady := rfl
    have {node : K8s.Node} : node.info.name = node.name := rfl
    simp [shown.of_some, K8s.nodes_getNodes, and_comm, *]

-- In clear sight, the sample is what is down.
theorem down_iff (shows : sighting.Shows probe) (clear : sighting.Clear cfg) (t : Target) :
    t.Down cfg probe ↔ sighting.Down cfg t := by
  cases t
  case process   => exact process_down_iff shows clear
  case container => exact container_down_iff shows clear
  case cluster   => exact cluster_down_iff shows
  case pod       => exact pod_down_iff shows
  case node      => exact node_down_iff shows

end Sighting
