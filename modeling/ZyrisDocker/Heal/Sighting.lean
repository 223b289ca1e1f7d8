import ZyrisDocker.Docker.Engine
import ZyrisDocker.K8s.Cluster
import ZyrisDocker.System.Theorems.Running
import ZyrisDocker.Heal.Theorems.Rearm

-- What there is to be watched, and what the probes of a tick show of it.

namespace Proc.Population

-- The processes that are shown under the name do not deceive: a live process is shown under its name, and none is
-- shown if none is alive.
structure Clear (population : Population) (name : String) : Prop where
  plain : ∀ p ∈ population.processes, p.IsLive name → Plain name.toList
  stale : ∀ p ∈ population.processes, p.shown = some name → ∃ q ∈ population.processes, q.IsLive name

end Proc.Population

namespace Docker.Engine

-- The newest container whose name contains the selector does not deceive: if it runs, the name is its own, and if
-- a container of the name runs, it is that one.
structure Clear (engine : Engine) (selector : String) : Prop where
  own    : ∀ c, engine.containers.find? (named selector) = some c → c.running → c.name = selector
  newest : ∀ c ∈ engine.containers, c.name = selector → c.running → engine.containers.find? (named selector) = some c

end Docker.Engine

-- A command that shows what it is asked for, or fails.
inductive Shown (render : α → β) (run : β → Except String γ) : Option α → β → Prop
  | found (x : α) : Shown render run (some x) (render x)
  | failed {output : β} (h : run output = .error e) : Shown render run none output

-- What there is at one tick. Each read finds it as it is at a moment of its own, and may fail to reach the Docker
-- daemon or the cluster.
structure Sighting where
  processes  : String → Proc.Population
  containers : String → Option Docker.Engine
  pods       : Option K8s.Cluster
  nodes      : Option K8s.Cluster

namespace Sighting

variable (cfg : Config) (sighting : Sighting)

-- The probe of a tick.
structure Shows (probe : Probe) : Prop where
  processes  : ∀ name, probe.processList name = processList (sighting.processes name).entries
  containers : ∀ name, Shown (Docker.Engine.ps · name) Docker.runDocker (sighting.containers name) (probe.dockerPs name)
  pods       : Shown K8s.Cluster.getPods K8s.runKubectl sighting.pods probe.pods
  nodes      : Shown K8s.Cluster.getNodes K8s.runKubectl sighting.nodes probe.nodes

structure Clear : Prop where
  processes  : ∀ name ∈ cfg.watchProcesses, (sighting.processes name).Clear name
  containers : ∀ name ∈ cfg.watchContainers, ∀ engine ∈ sighting.containers name, engine.Clear name

-- The watched targets that are down. Without the Docker daemon all containers are, and without the cluster there
-- are neither pods nor nodes.
def Down : Target → Prop
  | .process name   => name ∈ cfg.watchProcesses ∧ ∀ p ∈ (sighting.processes name).processes, ¬p.IsLive name
  | .container name => name ∈ cfg.watchContainers ∧
    ∀ engine ∈ sighting.containers name, ∀ c ∈ engine.containers, c.name = name → ¬c.running
  | .cluster        => cfg.watchK8s ∧ sighting.pods = none
  | .pod ns name    => cfg.watchK8s ∧ ∃ cluster ∈ sighting.pods, ∃ pod ∈ cluster.pods,
    pod.namespace = ns ∧ pod.name = name ∧ ¬pod.phase.IsUp
  | .node name      => cfg.watchK8s ∧ ∃ cluster ∈ sighting.nodes, ∃ node ∈ cluster.nodes, node.name = name ∧ ¬node.IsReady

end Sighting
