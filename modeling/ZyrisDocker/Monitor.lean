import ZyrisDocker.Docker
import ZyrisDocker.K8s

-- The capability that the node announces, as a function of what the commands it runs return.

-- An error of this capability. Its code is always `monitor`.
structure MonitorError where
  message : String
  deriving DecidableEq

namespace Monitor

def mapErr : Except String α → Except MonitorError α
  | .ok a    => .ok a
  | .error e => .error ⟨e⟩

def dockerList (ps : Command.Output Docker.Lines) : Except MonitorError (List ContainerInfo) :=
  mapErr <| Docker.listContainers ps

def k8sPods (kubectl : K8s.Kubectl) : Except MonitorError (List PodInfo) :=
  mapErr <| K8s.pods kubectl

def k8sNodes (kubectl : K8s.Kubectl) : Except MonitorError (List NodeInfo) :=
  mapErr <| K8s.nodes kubectl

end Monitor
