import Mathlib.Data.List.Nodup
import ZyrisDocker.K8s.Cluster

namespace K8s

section Fields

variable {key key' : String} {value : Option Json} {fields : List (String × Json)}

theorem get_omitEmpty : (Json.obj <| omitEmpty key value ++ fields).get key = (value <|> (Json.obj fields).get key) := by
  cases value <;> simp [omitEmpty, Json.get]

theorem get_omitEmpty_ne (h : key ≠ key') :
    (Json.obj <| omitEmpty key value ++ fields).get key' = (Json.obj fields).get key' := by
  cases value <;> simp [omitEmpty, Json.get, h]

end Fields

section Pods

variable (pod : Pod)

-- The status of a pod, as it is rendered.
def Pod.status : Json :=
  .obj <| omitEmpty "containerStatuses" (pod.statuses.map fun cs => .arr <| cs.map ContainerStatus.json) ++
    ("phase", .str pod.phase.text) :: omitEmpty "reason" (pod.reason.map .str)

theorem get_status : pod.json.get "status" = some pod.status := rfl

theorem status_statuses : (pod.status.get "containerStatuses" >>= Json.asArray) =
    pod.statuses.map (·.map ContainerStatus.json) := by
  have hr : (Json.obj <| ("phase", .str pod.phase.text) :: omitEmpty "reason" (pod.reason.map .str)).get "containerStatuses" = none := by
    cases hr : pod.reason <;> simp [omitEmpty, Json.get]
  rw [Pod.status, get_omitEmpty, hr]
  cases pod.statuses <;> rfl

theorem status_phase : (pod.status.get "phase" >>= Json.asStr) = some pod.phase.text := by
  rw [Pod.status, get_omitEmpty_ne (by decide)]
  rfl

theorem status_reason : (pod.status.get "reason" >>= Json.asStr) = pod.reason := by
  rw [Pod.status, get_omitEmpty_ne (by decide)]
  cases pod.reason <;> rfl

theorem sum_restarts (cs : List ContainerStatus) :
    ((cs.map ContainerStatus.json).filterMap fun c => c.get "restartCount" >>= Json.asU64).foldl (· + ·) 0 =
      (cs.map (·.restarts)).foldl (· + ·) 0 := by
  have hc : (fun c : ContainerStatus => c.json.get "restartCount" >>= Json.asU64) = fun c => some c.restarts := by
    funext c
    have : c.restarts < UInt64.size := Nat.lt_trans c.restarts_lt (by decide)
    simp [ContainerStatus.json, Json.get, Json.asU64, this]
  rw [List.filterMap_map, Function.comp_def, hc]
  exact congrArg _ <| congrFun List.filterMap_eq_map' cs

theorem containerCounts_status : containerCounts (some pod.status) =
    (pod.containers.countP (·.ready) % UInt32.size, pod.containers.length % UInt32.size,
      (pod.containers.map (·.restarts)).foldl (· + ·) 0 % UInt32.size) := by
  have hs : (some pod.status >>= (·.get "containerStatuses") >>= Json.asArray) = _ := status_statuses pod
  rw [containerCounts, hs, Pod.containers]
  cases pod.statuses
  case none    => rfl
  case some cs =>
    simp only [Option.map_some, Option.getD_some, sum_restarts, List.length_map, List.countP_map]
    rfl

theorem state_reason (state : ContainerState) :
    ((state.json.get "waiting").bind fun waiting => (waiting.get "reason").bind Json.asStr) = state.reason := by
  cases state
  case waiting reason => cases reason <;> rfl
  case running        => rfl
  case terminated     => rfl

theorem waitingReason_status : waitingReason (some pod.status) = pod.containers.getLast?.bind (·.state.reason) := by
  have hs : (pod.status.get "containerStatuses").bind Json.asArray = _ := status_statuses pod
  simp only [waitingReason, Option.bind_eq_bind, Option.bind_some]
  rw [← Option.bind_assoc, hs, Pod.containers]
  cases pod.statuses
  case none    => rfl
  case some cs =>
    rw [Option.map_some, Option.bind_some, List.getLast?_map, Option.getD_some]
    cases cs.getLast?
    case none   => rfl
    case some c => exact state_reason c.state

theorem podInfo_json : podInfo pod.json = pod.info := by
  have hn : (pod.json.get "spec" >>= (·.get "nodeName") >>= Json.asStr) = pod.node := by
    cases h : pod.node <;> simp [Pod.json, Json.get, omitEmpty, h, Json.asStr]
  have hm : pod.json.get "metadata" = some (.obj [("name", .str pod.name), ("namespace", .str pod.namespace)]) := rfl
  have hp : (some pod.status >>= (·.get "phase") >>= Json.asStr) = _ := status_phase pod
  have hr : (some pod.status >>= (·.get "reason") >>= Json.asStr) = _ := status_reason pod
  simp only [podInfo, hn, hp, hr, hm, get_status, containerCounts_status, waitingReason_status]
  rfl

end Pods

section Nodes

variable (node : Node)

-- What a label says of the roles.
theorem role_key {label : Label} (valid : label.Valid) :
    (if rolePrefix.toList <+: label.key.toList then (label.key.toList.splitOn '/').getLast?.map String.ofList else none) =
      label.role? := by
  cases label
  case other key => exact if_neg <| valid.other rfl
  case role name =>
    have hk : (rolePrefix ++ name).toList = "node-role.kubernetes.io".toList ++ '/' :: name.toList := by
      rw [String.toList_append]
      rfl
    have hs : name.toList.splitOn '/' = [name.toList] := List.splitOn_eq_singleton (valid.role rfl)
    rw [Label.key, if_pos (by simp [String.toList_append]), hk, List.splitOn_append_cons_self, hs]
    simp [Label.role?]

theorem nodeRoles_json : nodeRoles node.json = node.roles := by
  have hl : (node.json.get "metadata" >>= (·.get "labels") >>= Json.asObject) =
    some (node.labels.map fun l => (l.key, .str "")) := rfl
  simp only [nodeRoles, hl, List.map_map, List.filterMap_filter, List.filterMap_map, Node.roles]
  refine List.filterMap_congr fun label hm => ?_
  simpa using role_key (node.valid label hm)

theorem readyCondition_json : readyCondition node.json =
    (node.conditions.find? (·.1 = "Ready")).map Node.conditionJson := by
  have hc : readyCondition node.json =
    (node.conditions.map Node.conditionJson).find? fun c => (c.get "type" >>= Json.asStr) = some "Ready" := rfl
  have ht : (fun c => decide ((Json.get c "type" >>= Json.asStr) = some "Ready")) ∘ Node.conditionJson =
      fun c => decide (c.1 = "Ready") := funext fun _ => decide_eq_decide.mpr Option.some_inj
  rw [hc, List.find?_map, ht]

-- There is only one condition of the type that is looked for.
theorem ready_json : (nodeInfo node.json).ready ↔ node.IsReady := by
  have hr : (nodeInfo node.json).ready ↔
      ((node.conditions.find? (·.1 = "Ready")).map Node.conditionJson >>= (·.get "status") >>= Json.asStr) = some "True" := by
    rw [← readyCondition_json]
    exact decide_eq_true_iff
  rw [hr, Node.IsReady]
  cases hf : node.conditions.find? (·.1 = "Ready")
  case none =>
    refine iff_of_false (fun h => by cases h) fun hm => ?_
    simpa using List.find?_eq_none.mp hf _ hm
  case some c =>
    obtain ⟨type, status⟩ := c
    have ht : type = "Ready" := by simpa using List.find?_some hf
    have hm := List.mem_of_find?_eq_some hf
    subst ht
    have hs : ((some ("Ready", status)).map Node.conditionJson >>= (·.get "status") >>= Json.asStr) = some status := rfl
    rw [hs, Option.some_inj]
    refine ⟨fun he => he ▸ hm, fun hm' => ?_⟩
    exact congrArg Prod.snd <| List.inj_on_of_nodup_map node.types hm hm' rfl

theorem nodeInfo_json : nodeInfo node.json = node.info := by
  have hr : (nodeInfo node.json).ready = decide node.IsReady := Bool.eq_iff_iff.mpr <| by simpa using ready_json node
  calc nodeInfo node.json
    _ = { node.info with ready := (nodeInfo node.json).ready, roles := nodeRoles node.json } := rfl
    _ = node.info := by rw [hr, nodeRoles_json]; rfl

end Nodes

variable (cluster : Cluster)

theorem pods_getPods : pods cluster.getPods = .ok (cluster.pods.map Pod.info) := by
  have reads : Reads cluster.getPods (cluster.pods.map Pod.json) := ⟨_, rfl, rfl⟩
  rw [pods, getItems_eq_ok_of_reads reads, List.map_map]
  exact congrArg _ <| List.map_congr_left fun pod _ => podInfo_json pod

theorem nodes_getNodes : nodes cluster.getNodes = .ok (cluster.nodes.map Node.info) := by
  have reads : Reads cluster.getNodes (cluster.nodes.map Node.json) := ⟨_, rfl, rfl⟩
  rw [nodes, getItems_eq_ok_of_reads reads, List.map_map]
  exact congrArg _ <| List.map_congr_left fun node _ => nodeInfo_json node

section Examples

def serving : ContainerStatus where
  ready       := true
  restarts    := 2
  state       := .running
  restarts_lt := by decide

def crashing : ContainerStatus where
  ready       := false
  restarts    := 7
  state       := .waiting "CrashLoopBackOff"
  restarts_lt := by decide

def webPod (phase : Phase) : Pod where
  «namespace» := "default"
  name        := "web-0"
  node        := "node-a"
  phase       := phase
  reason      := none
  statuses    := [serving, crashing]
  named       := by decide
  plain       := by decide

-- No kubelet has reported on this pod.
def queuedPod : Pod where
  «namespace» := "batch"
  name        := "report"
  node        := none
  phase       := .pending
  reason      := "Unschedulable"
  statuses    := none
  named       := by decide
  plain       := by decide

theorem nodeA_valid : ∀ label ∈ [Label.other "kubernetes.io/os", .role "control-plane", .role "worker"], label.Valid := by
  have valid (name : String) (h : '/' ∉ name.toList) : (Label.role name).Valid :=
    ⟨by rintro _ ⟨⟩; exact h, by nofun⟩
  simp only [List.forall_mem_cons]
  exact ⟨⟨by nofun, by rintro _ ⟨⟩; decide⟩, valid _ (by decide), valid _ (by decide), by nofun⟩

def nodeA (ready : String) : Node where
  name       := "node-a"
  labels     := [.other "kubernetes.io/os", .role "control-plane", .role "worker"]
  conditions := [("MemoryPressure", "False"), ("Ready", ready)]
  version    := "v1.30.1"
  valid      := nodeA_valid
  sorted     := by decide
  types      := by simp

end Examples

end K8s
