import ZyrisDocker.K8s

-- The cluster's side of `kubectl get -o json`. Fields which nothing reads are left out.

namespace K8s

inductive Phase
  | pending
  | running
  | succeeded
  | failed
  | unknown
  deriving DecidableEq

namespace Phase

def text : Phase → String
  | pending   => "Pending"
  | running   => "Running"
  | succeeded => "Succeeded"
  | failed    => "Failed"
  | unknown   => "Unknown"

-- A succeeded pod is a job that finished.
def IsUp (phase : Phase) : Prop :=
  phase = running ∨ phase = succeeded

end Phase

-- A field that is left out as long as there is nothing to say.
def omitEmpty (key : String) (value : Option Json) : List (String × Json) :=
  value.elim [] fun v => [(key, v)]

inductive ContainerState
  | waiting (reason : Option String)
  | running
  | terminated

namespace ContainerState

def json : ContainerState → Json
  | waiting reason => .obj [("waiting", .obj <| omitEmpty "reason" <| reason.map .str)]
  | running        => .obj [("running", .obj [])]
  | terminated     => .obj [("terminated", .obj [])]

def reason : ContainerState → Option String
  | waiting reason => reason
  | _              => none

end ContainerState

structure ContainerStatus where
  ready       : Bool
  restarts    : Nat
  state       : ContainerState
  restarts_lt : restarts < 2147483648

def ContainerStatus.json (status : ContainerStatus) : Json :=
  .obj [("ready", .bool status.ready), ("restartCount", .uint status.restarts), ("state", status.state.json)]

-- The container statuses are missing until a kubelet reports on the pod.
structure Pod where
  «namespace» : String
  name        : String
  node        : Option String
  phase       : Phase
  reason      : Option String
  statuses    : Option (List ContainerStatus)
  named       : name ≠ ""
  plain       : '/' ∉ «namespace».toList ∧ '/' ∉ name.toList

namespace Pod

variable (pod : Pod)

def json : Json :=
  .obj [
    ("metadata", .obj [("name", .str pod.name), ("namespace", .str pod.namespace)]),
    ("spec", .obj <| omitEmpty "nodeName" <| pod.node.map .str),
    ("status", .obj <| omitEmpty "containerStatuses" (pod.statuses.map fun cs => .arr <| cs.map ContainerStatus.json) ++
      ("phase", .str pod.phase.text) :: omitEmpty "reason" (pod.reason.map .str))
  ]

def containers : List ContainerStatus :=
  pod.statuses.getD []

-- What there is to say of a pod. The counts are `u32`s.
def info : PodInfo where
  «namespace» := pod.namespace
  name        := pod.name
  phase       := pod.phase.text
  ready       := s!"{pod.containers.countP (·.ready) % UInt32.size}/{pod.containers.length % UInt32.size}"
  restarts    := (pod.containers.map (·.restarts)).foldl (· + ·) 0 % UInt32.size
  node        := pod.node.getD ""
  reason      := (pod.reason <|> pod.containers.getLast?.bind (·.state.reason)).getD ""

end Pod

inductive Label
  | role (name : String)
  | other (key : String)

def Label.key : Label → String
  | role name => rolePrefix ++ name
  | other key => key

def Label.role? : Label → Option String
  | role name => some name
  | other _   => none

-- Behind the prefix there is no slash.
structure Label.Valid (label : Label) : Prop where
  role  : ∀ {name}, label = .role name → '/' ∉ name.toList
  other : ∀ {key}, label = .other key → ¬rolePrefix.toList <+: key.toList

-- The labels are a map, which is written and parsed in the order of its keys. The conditions are types with their
-- statuses.
structure Node where
  name       : String
  labels     : List Label
  conditions : List (String × String)
  version    : String
  valid      : ∀ label ∈ labels, label.Valid
  sorted     : labels.map Label.key |>.Pairwise (· < ·)
  types      : conditions.map (·.1) |>.Nodup

namespace Node

variable (node : Node)

def conditionJson (condition : String × String) : Json :=
  .obj [("status", .str condition.2), ("type", .str condition.1)]

def json : Json :=
  .obj [
    ("metadata", .obj [("labels", .obj <| node.labels.map fun l => (l.key, .str "")), ("name", .str node.name)]),
    ("status", .obj [
      ("conditions", .arr <| node.conditions.map conditionJson),
      ("nodeInfo", .obj [("kubeletVersion", .str node.version)])
    ])
  ]

def IsReady : Prop :=
  ("Ready", "True") ∈ node.conditions

instance : Decidable node.IsReady :=
  inferInstanceAs <| Decidable (_ ∈ _)

def roles : List String :=
  node.labels.filterMap Label.role?

def info : NodeInfo where
  name    := node.name
  ready   := node.IsReady
  roles   := node.roles
  version := node.version

end Node

structure Cluster where
  pods  : List Pod
  nodes : List Node

namespace Cluster

variable (cluster : Cluster)

def list (items : List Json) : Kubectl :=
  .exited true (.ok <| .obj [("items", .arr items)]) ""

-- `kubectl get pods -A -o json`.
def getPods : Kubectl :=
  list <| cluster.pods.map Pod.json

-- `kubectl get nodes -o json`.
def getNodes : Kubectl :=
  list <| cluster.nodes.map Node.json

end Cluster
end K8s
