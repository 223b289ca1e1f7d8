import ZyrisDocker.Docker.Theorems.Lookup
import ZyrisDocker.K8s.Theorems.RoundTrip
import ZyrisDocker.Monitor
import ZyrisDocker.System.Theorems.Running

open Text

theorem Docker.listContainers_psAll (engine : Engine) : listContainers engine.psAll = .ok engine.containers := by
  have hp : (engine.containers.map fun c => some (row c)).filterMap parseContainerLine = engine.containers := by
    rw [List.filterMap_map]
    calc engine.containers.filterMap (parseContainerLine ∘ fun c => some (row c))
      _ = engine.containers.filterMap some := List.filterMap_congr fun c hc => Engine.parse_row hc
      _ = engine.containers := List.filterMap_some
  exact congrArg Except.ok hp

namespace Proc

theorem parseProcStat_pid (h : parseProcStat pid stat cmdline = some info) : info.pid = pid := by
  obtain ⟨_, _, h⟩ := Option.bind_eq_some_iff.mp h
  cases h
  rfl

theorem Process.info_pid {process : Process} (h : process.entry.info = some info) : info.pid = process.pid := by
  have hp : parseI32 (fromUtf8Lossy process.entry.name) = some (process.pid : Int) := by
    rw [entry, fromUtf8Lossy_utf8, parseI32_decimal process.pid_lt]
  rw [ProcEntry.info, hp, Option.bind_eq_bind, Option.bind_some] at h
  obtain ⟨_, _, h⟩ := Option.bind_eq_some_iff.mp h
  exact parseProcStat_pid h

-- Every process is listed with its own id, if its line can be read as text.
theorem processList_entries (population : Population) :
    (processList population.entries).map (fun p => (p.pid, p.name)) =
      population.processes.filterMap fun p => p.shown.map ((p.pid : Int), ·) := by
  have ho : population.others.filterMap ProcEntry.info = [] :=
    List.filterMap_eq_nil_iff.mpr fun e he => by simp [ProcEntry.info, population.others_pid e he]
  rw [processList, Option.getD_some, Population.entries, List.filterMap_append, ho, List.nil_append, List.filterMap_map,
    List.map_filterMap]
  refine List.filterMap_congr fun p _ => ?_
  rw [← p.info_entry, Function.comp_apply]
  cases h : p.entry.info
  case none      => rfl
  case some info => simp [p.info_pid h]

end Proc

namespace Monitor

-- What is listed of processes, containers, pods and nodes is all that there is of them, in its order.
theorem lists (population : Proc.Population) (engine : Docker.Engine) (cluster : K8s.Cluster) :
    (processList population.entries).map (fun p => (p.pid, p.name)) =
      (population.processes.filterMap fun p => p.shown.map ((p.pid : Int), ·)) ∧
    dockerList engine.psAll = .ok engine.containers ∧
    k8sPods cluster.getPods = .ok (cluster.pods.map K8s.Pod.info) ∧
    k8sNodes cluster.getNodes = .ok (cluster.nodes.map K8s.Node.info) := by
  refine ⟨Proc.processList_entries population, ?_, ?_, ?_⟩
  · rw [dockerList, Docker.listContainers_psAll, mapErr]
  · rw [k8sPods, K8s.pods_getPods, mapErr]
  · rw [k8sNodes, K8s.nodes_getNodes, mapErr]

section Examples

-- A process whose comm is no text.
def unnamed (pid : Nat) (h : pid < 2147483648) : Proc.Process where
  pid     := pid
  comm    := [0xFF]
  stat    := .cat
  cmdline := none
  pid_lt  := h

theorem nine_lt : 9 < 2147483648 := by decide

def selfEntry : ProcEntry where
  name    := utf8 "self".toList
  stat    := none
  cmdline := none

theorem selfEntry_pid : ∀ e ∈ [selfEntry], parseI32 (fromUtf8Lossy e.name) = none := by
  rw [List.forall_mem_singleton]
  decide

def processes : Proc.Population where
  processes  := [{ Proc.nginx with stat := .cat }, unnamed 9 nine_lt]
  others     := [selfEntry]
  others_pid := selfEntry_pid

-- The newer container has exited.
def engine : Docker.Engine where
  containers := [⟨"2b", "web-2", "nginx", "exited", false, "Exited (137)"⟩, ⟨"1a", "web", "nginx", "running", true, "Up 2 days"⟩]
  names      := by simp
  ids        := by simp
  plain      := by simp
  running    := by simp

def cluster : K8s.Cluster where
  pods  := [K8s.queuedPod, K8s.webPod .running]
  nodes := [K8s.nodeA "True"]

theorem lists_web :
    (processList processes.entries).map (fun p => (p.pid, p.name)) = [(812, "nginx")] ∧
    dockerList engine.psAll = .ok engine.containers ∧
    k8sPods cluster.getPods = .ok [
      ⟨"batch", "report", "Pending", "0/0", 0, "", "Unschedulable"⟩,
      ⟨"default", "web-0", "Running", "1/2", 9, "node-a", "CrashLoopBackOff"⟩] ∧
    k8sNodes cluster.getNodes = .ok [⟨"node-a", true, ["control-plane", "worker"], "v1.30.1"⟩] := by
  have ⟨listed, containers, pods, nodes⟩ := lists processes engine cluster
  refine ⟨listed.trans ?_, containers, pods.trans ?_, nodes.trans ?_⟩
  · decide
  · rfl
  · rfl

end Examples

end Monitor
