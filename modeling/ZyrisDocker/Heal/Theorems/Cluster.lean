import ZyrisDocker.Heal.Theorems.Rearm

namespace K8s

def PodUp (pod : Json) : Prop :=
  (podInfo pod).phase = "Running" ∨ (podInfo pod).phase = "Succeeded"

-- One of the conditions of the node is that it is ready.
def NodeUp (node : Json) : Prop :=
  ∃ conditions, (node.get "status" >>= (·.get "conditions") >>= Json.asArray) = some conditions ∧
    ∃ c ∈ conditions, (c.get "type" >>= Json.asStr) = some "Ready" ∧ (c.get "status" >>= Json.asStr) = some "True"

theorem readyCondition_eq_some (h : readyCondition node = some c) :
    ∃ conditions, (node.get "status" >>= (·.get "conditions") >>= Json.asArray) = some conditions ∧
      c ∈ conditions ∧ (c.get "type" >>= Json.asStr) = some "Ready" := by
  obtain ⟨status, hs, h⟩ := Option.bind_eq_some_iff.mp h
  obtain ⟨value, hv, h⟩ := Option.bind_eq_some_iff.mp h
  obtain ⟨conditions, hc, hf⟩ := Option.bind_eq_some_iff.mp h
  have hr := List.find?_some hf
  refine ⟨conditions, ?_, List.mem_of_find?_eq_some hf, of_decide_eq_true hr⟩
  simp [bind, hs, hv, hc]

theorem nodeUp_of_ready (h : (nodeInfo node).ready) : NodeUp node := by
  simp only [nodeInfo, decide_eq_true_eq, bind, Option.bind_eq_some_iff] at h
  obtain ⟨value, ⟨c, hc, hv⟩, ht⟩ := h
  obtain ⟨conditions, hs, hm, hr⟩ := readyCondition_eq_some hc
  exact ⟨conditions, hs, c, hm, hr, by simp [bind, hv, ht]⟩

-- An item that was read is one of the list that `kubectl` returned.
theorem reads_of_getItems {info : Json → α} (h : getItems info kubectl = .ok xs) (hx : x ∈ xs) :
    ∃ is, Reads kubectl is ∧ ∃ j ∈ is, info j = x := by
  have ⟨is, reads⟩ := reads_of_mem_getItems h hx
  cases h.symm.trans (getItems_eq_ok_of_reads reads)
  exact ⟨is, reads, List.mem_map.mp hx⟩

end K8s

namespace SelfHealer

variable {cfg : Config} {probe : Probe}

-- What there is to report of what was read.
inductive Amiss (probe : Probe) : Prop
  | unread (h : K8s.runKubectl probe.pods = .error e)
  | pod (reads : K8s.Reads probe.pods is) (mem : pod ∈ is) (named : (K8s.podInfo pod).name ≠ "") (down : ¬K8s.PodUp pod)
  | node (reads : K8s.Reads probe.nodes is) (mem : node ∈ is) (down : ¬(K8s.nodeInfo node).ready)

-- Both reads return a list of items, and only a pod that has a name can be down.
structure Legible (probe : Probe) : Prop where
  pods  : ∃ is, K8s.Reads probe.pods is ∧ ∀ pod ∈ is, (K8s.podInfo pod).name = "" → K8s.PodUp pod
  nodes : ∃ is, K8s.Reads probe.nodes is

def k8sKinds : List String :=
  ["k8s", "k8s_pod", "k8s_node"]

-- When the cluster is watched, no incident of it means that it was read and that all is well.
def Vouched (cfg : Config) (probe : Probe) : Prop :=
  cfg.watchK8s → (∀ i ∈ sample cfg probe, i.kind ∉ k8sKinds) →
    (∃ pods, K8s.Reads probe.pods pods ∧ ∀ pod ∈ pods, K8s.PodUp pod) ∧
    (∃ nodes, K8s.Reads probe.nodes nodes ∧ ∀ node ∈ nodes, K8s.NodeUp node)

theorem podDown_iff : podDown (K8s.podInfo pod) ↔ (K8s.podInfo pod).name ≠ "" ∧ ¬K8s.PodUp pod := by
  simp only [podDown, K8s.PodUp, Bool.and_eq_true, bne_iff_ne, Bool.not_eq_true', String.isEmpty_eq_false_iff, ne_eq,
    not_or]
  exact and_comm

theorem amiss_iff (watch : cfg.watchK8s) : Amiss probe ↔ ∃ i ∈ sample cfg probe, i.kind ∈ k8sKinds := by
  constructor
  case mp =>
    have report (k n : String) (hk : k ∈ k8sKinds) (h : (∃ i ∈ podIncidents probe, i.kind = k ∧ i.name = n) ∨
        ∃ i ∈ nodeIncidents probe, i.kind = k ∧ i.name = n) : ∃ i ∈ sample cfg probe, i.kind ∈ k8sKinds := by
      have ⟨i, hi, he, _⟩ := Target.sample_has.mpr <| .inr <| .inr ⟨watch, h⟩
      exact ⟨i, hi, he ▸ hk⟩
    intro amiss
    cases amiss
    case unread e h =>
      have hp : K8s.pods probe.pods = .error e := K8s.getItems_eq_error_iff.mpr h
      exact report _ _ (by decide) <| .inl <| Target.podIncidents_has.mpr <| .inl ⟨rfl, rfl, e, hp⟩
    case pod is pod reads hm named down =>
      have hp : K8s.pods probe.pods = .ok (is.map K8s.podInfo) := K8s.getItems_eq_ok_of_reads reads
      exact report "k8s_pod" _ (by decide) <| .inl <| Target.podIncidents_has.mpr <|
        .inr ⟨rfl, _, hp, _, List.mem_map_of_mem hm, podDown_iff.mpr ⟨named, down⟩, rfl⟩
    case node is node reads hm down =>
      have hn : K8s.nodes probe.nodes = .ok (is.map K8s.nodeInfo) := K8s.getItems_eq_ok_of_reads reads
      exact report "k8s_node" _ (by decide) <| .inr <| Target.nodeIncidents_has.mpr
        ⟨rfl, _, hn, _, List.mem_map_of_mem hm, down, rfl⟩
  case mpr =>
    rintro ⟨i, hi, hk⟩
    have hs := Target.sample_has.mp ⟨i, hi, rfl, rfl⟩
    rw [Target.processIncidents_has, Target.containerIncidents_has, Target.podIncidents_has,
      Target.nodeIncidents_has] at hs
    obtain ⟨h, _⟩ | ⟨h, _⟩ | ⟨_, (⟨_, _, e, h⟩ | ⟨_, pods, h, pod, hm, hd, _⟩) | ⟨_, nodes, h, node, hm, hd, _⟩⟩ := hs
    · simp [h, k8sKinds] at hk
    · simp [h, k8sKinds] at hk
    · exact .unread (K8s.getItems_eq_error_iff.mp h)
    · obtain ⟨is, reads, j, hj, rfl⟩ := K8s.reads_of_getItems h hm
      have ⟨named, down⟩ := podDown_iff.mp hd
      exact .pod reads hj named down
    · obtain ⟨is, reads, j, hj, rfl⟩ := K8s.reads_of_getItems h hm
      exact .node reads hj hd

-- Of a cluster that is read and has nothing amiss, all is well.
theorem Legible.vouched (legible : Legible probe) (fine : ¬Amiss probe) :
    (∃ pods, K8s.Reads probe.pods pods ∧ ∀ pod ∈ pods, K8s.PodUp pod) ∧
    (∃ nodes, K8s.Reads probe.nodes nodes ∧ ∀ node ∈ nodes, K8s.NodeUp node) := by
  obtain ⟨⟨pods, readsPods, nameless⟩, nodes, readsNodes⟩ := legible
  refine ⟨⟨pods, readsPods, fun pod hm => ?_⟩, nodes, readsNodes, fun node hm => ?_⟩
  · by_contra down
    exact fine <| .pod readsPods hm (fun hn => down <| nameless pod hm hn) down
  · by_contra down
    exact fine <| .node readsNodes hm fun ready => down <| K8s.nodeUp_of_ready ready

theorem vouched_iff (cfg : Config) (probe : Probe) :
    Vouched cfg probe ↔ (cfg.watchK8s → Amiss probe ∨ Legible probe) := by
  refine forall_congr' fun watch => ?_
  have silent : (∀ i ∈ sample cfg probe, i.kind ∉ k8sKinds) ↔ ¬Amiss probe := by
    rw [amiss_iff watch]
    simp
  rw [silent]
  constructor
  case mp =>
    intro vouched
    refine or_iff_not_imp_left.mpr fun fine => ?_
    obtain ⟨⟨pods, readsPods, up⟩, nodes, readsNodes, _⟩ := vouched fine
    exact ⟨⟨pods, readsPods, fun pod hm _ => up pod hm⟩, nodes, readsNodes⟩
  case mpr => exact fun h fine => (h.resolve_left fine).vouched fine

-- A cluster of which the pods can be read and the nodes cannot.
def nodesUnread : Probe where
  processList _ := []
  dockerPs _    := .unavailable "no docker"
  pods          := .exited true (.ok <| .obj [("items", .arr [])]) ""
  nodes         := .exited false (.error "") "nodes is forbidden"

theorem nodesUnread_not_vouched : ¬∀ cfg probe, Vouched cfg probe := by
  intro h
  have silent : ∀ i ∈ sample clusterConfig nodesUnread, i.kind ∉ k8sKinds := by decide
  obtain ⟨_, _, ⟨_, hv, _⟩, _⟩ := h clusterConfig nodesUnread rfl silent
  cases hv

end SelfHealer
