import ZyrisDocker.Lib.Run
import ZyrisDocker.Config
import ZyrisDocker.Connection
import ZyrisDocker.System
import ZyrisDocker.Docker
import ZyrisDocker.K8s

structure Incident where
  kind   : String
  name   : String
  detail : String
  deriving DecidableEq

def Incident.key (i : Incident) : String :=
  i.kind ++ ":" ++ i.name

-- What one tick reads from outside. The process list and the container listing are read anew for
-- each watched name.
structure Probe where
  processList : String → List ProcessInfo
  dockerPs    : String → Command.Output Docker.Lines
  pods        : K8s.Kubectl
  nodes       : K8s.Kubectl

namespace SelfHealer

section Sample

variable (cfg : Config) (probe : Probe)

def processIncidents : List Incident :=
  cfg.watchProcesses
    |>.filter (fun name => !processRunning (probe.processList name) name)
    |>.map fun name => {
      kind   := "process"
      name   := name
      detail := s!"required process `{name}` is not running in this container"
    }

def containerIncidents : List Incident :=
  cfg.watchContainers
    |>.filter (fun name => !Docker.containerRunning (probe.dockerPs name) name)
    |>.map fun name => {
      kind   := "container"
      name   := name
      detail := s!"required docker container `{name}` is not running"
    }

-- A pod that is meant to be running but is not. A succeeded pod is a job that finished.
def podDown (pod : PodInfo) : Bool :=
  pod.phase != "Running" && pod.phase != "Succeeded" && !pod.name.isEmpty

def podIncidents : List Incident :=
  match K8s.pods probe.pods with
  | .ok pods =>
    pods.filter podDown |>.map fun pod => {
      kind   := "k8s_pod"
      name   := pod.namespace ++ "/" ++ pod.name
      detail := "pod in phase " ++ pod.phase ++ " (" ++ pod.reason ++ ")"
    }
  | .error e => [{ kind := "k8s", name := "cluster", detail := s!"could not read pods: {e}" }]

def nodeIncidents : List Incident :=
  match K8s.nodes probe.nodes with
  | .ok nodes =>
    nodes.filter (!·.ready) |>.map fun node => {
      kind   := "k8s_node"
      name   := node.name
      detail := "node is not Ready"
    }
  | .error _ => []

-- One full sample: every watched target that is currently down.
def sample : List Incident :=
  processIncidents cfg probe ++ containerIncidents cfg probe ++
  if cfg.watchK8s then podIncidents probe ++ nodeIncidents probe else []

end Sample

structure NewSession where
  agentId   : String
  title     : Option String
  projectId : Option String
  preamble  : Option String
  deriving DecidableEq

def incidentBody (detail : String) (node : Option String) : String :=
  let here := match node with
    | some node => s!"This node's `node_path` is `{node}`: pass it to every tool call."
    | none      => "This node's `node_path` is not known yet; do not guess one."
  s!"Self-healing incident on container node.\n\n{detail}\n\n{here}\n\n" ++
    "Diagnose with this node's `monitor` and `exec` capabilities, fix what you can, and report " ++
    "back what broke, what you found, what you did, and what remains."

-- Where a report task is suspended: in each of the calls it makes.
inductive Stage
  | capability
  | agents
  | session (new : NewSession)
  | message (new : NewSession) (id : String) (body : String)
  deriving DecidableEq

-- The answers to these calls.
inductive Reply
  | capability (r : Except String Unit)
  | agents (r : Except String (List String))
  | session (r : Except String String)
  | message (r : Except String Unit)

-- The answers on which a report task returns early. Every other answer lets it carry on.
def Reply.fails : Reply → Bool
  | capability (.error _) | agents (.error _) | agents (.ok []) => true
  | session (.error _)    | message (.error _)                  => true
  | _                                                           => false

-- A report task in flight, with the number of the tick that spawned it.
structure Report where
  conn     : Connection
  incident : Incident
  born     : Nat
  stage    : Stage := .capability

-- A heal session that was opened and sent its incident.
structure Delivery where
  incident : Incident
  born     : Nat
  new      : NewSession
  id       : String
  body     : String

inductive Report.Progress
  | await (task : Report)
  | failed
  | sent (delivery : Delivery)

namespace Report

variable (cfg : Config) (task : Report)

def newSession (agentId : String) : NewSession where
  agentId   := agentId
  title     := "zyris-docker incident: " ++ task.incident.kind ++ " " ++ task.incident.name
  projectId := cfg.healProjectId
  preamble  := cfg.healPreamble

def openSession (agentId : String) : Report :=
  { task with stage := .session (task.newSession cfg agentId) }

-- The body of `report_incident` from one of its calls to the next. An answer to another call than
-- the one the task is waiting for never arrives.
def resume : Stage → Reply → Option Progress
  | .capability, .capability (.ok _) =>
    match cfg.healAgentId with
    | some id => some <| .await <| task.openSession cfg id
    | none    => some <| .await { task with stage := .agents }
  | .agents, .agents (.ok (agent :: _)) => some <| .await <| task.openSession cfg agent
  | .session new, .session (.ok id) =>
    some <| .await { task with
      stage := .message new id <| incidentBody task.incident.detail task.conn.node
    }
  | .message new id body, .message (.ok _) =>
    some <| .sent { incident := task.incident, born := task.born, new, id, body }
  | .capability, .capability (.error _) => some .failed
  | .agents,     .agents (.ok [])       => some .failed
  | .agents,     .agents (.error _)     => some .failed
  | .session .., .session (.error _)    => some .failed
  | .message .., .message (.error _)    => some .failed
  | _,           _                      => none

end Report

structure State where
  slot      : Option Connection := none
  -- The keys of the map. Its values are all `true` and nothing reads them.
  reported  : List String := []
  -- The incidents of the current tick that the loop has yet to go through.
  pending   : List Incident := []
  tasks     : List Report := []
  closed    : List Connection := []
  -- The samples of all ticks so far, the latest one first.
  samples   : List (List Incident) := []
  delivered : List Delivery := []

inductive Event
  | put (conn : Connection)
  | close (conn : Connection)
  | tick (probe : Probe)
  | next
  | reply (i : Nat) (r : Reply)

namespace State

variable (s : State)

-- Takes a sample and re-arms everything that is not in it.
def tick (incidents : List Incident) : State :=
  { s with
    reported := s.reported.filter (· ∈ incidents.map Incident.key)
    pending  := incidents
    samples  := incidents :: s.samples }

def spawn (conn : Connection) (incident : Incident) : State :=
  { s with tasks := s.tasks ++ [{ conn, incident, born := s.samples.length }] }

-- One round of the loop over the incidents of a tick.
def next (incident : Incident) (rest : List Incident) : State :=
  if incident.key ∈ s.reported then
    { s with pending := rest }
  else
    let s' := { s with pending := rest, reported := incident.key :: s.reported }
    match s.slot with
    | some conn => s'.spawn conn incident
    | none      => s'

def progress (i : Nat) : Report.Progress → State
  | .await task     => { s with tasks := s.tasks.set i task }
  | .failed         => { s with tasks := s.tasks.eraseIdx i }
  | .sent delivery  => { s with tasks := s.tasks.eraseIdx i, delivered := delivery :: s.delivered }

end State

-- The watcher's loop interleaved with the connections put into the slot, the connections that close
-- and the answers that reach the report tasks. A task only hears of failures once its connection is
-- closed, and a tick starts when the loop is through with the incidents of the previous one.
def step (cfg : Config) (s : State) : Event → Option State
  | .put conn   => some { s with slot := conn }
  | .close conn => some { s with closed := conn :: s.closed }
  | .tick probe => if s.pending = [] then some <| s.tick <| sample cfg probe else none
  | .next =>
    match s.pending with
    | []               => none
    | incident :: rest => some <| s.next incident rest
  | .reply i r => do
    let task ← s.tasks[i]?
    if task.conn ∈ s.closed ∧ ¬r.fails then none else
    let p ← task.resume cfg task.stage r
    return s.progress i p

end SelfHealer
