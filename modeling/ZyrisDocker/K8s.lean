import ZyrisDocker.Lib.External

structure PodInfo where
  «namespace» : String
  name        : String
  phase       : String
  ready       : String
  restarts    : Nat
  node        : String
  reason      : String
  deriving DecidableEq

structure NodeInfo where
  name    : String
  ready   : Bool
  roles   : List String
  version : String
  deriving DecidableEq

namespace K8s

-- The standard output is the result of parsing it as JSON.
abbrev Kubectl := Command.Output (Except String Json)

def runKubectl : Kubectl → Except String Json
  | .unavailable e                => .error s!"kubectl unavailable: {e}"
  | .exited true (.ok v) _        => .ok v
  | .exited true (.error e) _     => .error s!"bad kubectl output: {e}"
  | .exited false _ stderr        => .error (Text.trim stderr)

-- Ready containers, containers and restarts, the counts being `u32`s.
def containerCounts (status : Option Json) : Nat × Nat × Nat :=
  match status >>= (·.get "containerStatuses") >>= Json.asArray with
  | none    => (0, 0, 0)
  | some cs =>
    let ready    := cs.countP fun c => (c.get "ready" >>= Json.asBool).getD false
    let restarts := cs.filterMap (fun c => c.get "restartCount" >>= Json.asU64) |>.foldl (· + ·) 0
    (ready % UInt32.size, cs.length % UInt32.size, restarts % UInt32.size)

def waitingReason (status : Option Json) : Option String := do
  let arr ← (← (← status).get "containerStatuses").asArray
  (← (← (← (← arr.getLast?).get "state").get "waiting").get "reason").asStr

def podInfo (pod : Json) : PodInfo :=
  let metadata := pod.get "metadata"
  let spec := pod.get "spec"
  let status := pod.get "status"
  let (readyCount, total, restarts) := containerCounts status
  {
    «namespace» := (metadata >>= (·.get "namespace") >>= Json.asStr).getD ""
    name        := (metadata >>= (·.get "name") >>= Json.asStr).getD ""
    phase       := (status >>= (·.get "phase") >>= Json.asStr).getD ""
    ready       := s!"{readyCount}/{total}"
    restarts    := restarts
    node        := (spec >>= (·.get "nodeName") >>= Json.asStr).getD ""
    reason      := ((status >>= (·.get "reason") >>= Json.asStr) <|> waitingReason status).getD ""
  }

def items (v : Json) : Option (List Json) :=
  v.get "items" >>= Json.asArray

-- A `kubectl get`, where each item is read by `info`. A document without items reads as empty.
def getItems (info : Json → α) (kubectl : Kubectl) : Except String (List α) := do
  let v ← runKubectl kubectl
  match items v with
  | none    => return []
  | some is => return is.map info

def pods : Kubectl → Except String (List PodInfo) :=
  getItems podInfo

def rolePrefix := "node-role.kubernetes.io/"

def nodeRoles (node : Json) : List String :=
  match node.get "metadata" >>= (·.get "labels") >>= Json.asObject with
  | none        => []
  | some labels =>
    labels.map (·.1)
      |>.filter (rolePrefix.toList <+: ·.toList)
      |>.filterMap fun k => k.toList.splitOn '/' |>.getLast?.map String.ofList

def readyCondition (node : Json) : Option Json := do
  let arr ← (← (← node.get "status").get "conditions").asArray
  arr.find? fun c => (c.get "type" >>= Json.asStr) = some "Ready"

def nodeInfo (node : Json) : NodeInfo where
  name    := (node.get "metadata" >>= (·.get "name") >>= Json.asStr).getD ""
  ready   := (readyCondition node >>= (·.get "status") >>= Json.asStr) = some "True"
  roles   := nodeRoles node
  version := (node.get "status" >>= (·.get "nodeInfo") >>= (·.get "kubeletVersion") >>= Json.asStr).getD ""

def nodes : Kubectl → Except String (List NodeInfo) :=
  getItems nodeInfo

-- The read succeeds and returns a list of items.
def Reads (kubectl : Kubectl) (is : List Json) : Prop :=
  ∃ v, runKubectl kubectl = .ok v ∧ items v = some is

theorem getItems_eq_ok_of_reads {info : Json → α} (h : Reads kubectl is) :
    getItems info kubectl = .ok (is.map info) := by
  have ⟨v, hv, hi⟩ := h
  simp [getItems, hv, hi, bind, Except.bind, pure, Except.pure]

-- Every item comes from a read that returned a list of items.
theorem reads_of_mem_getItems {info : Json → α} (h : getItems info kubectl = .ok xs) (hx : x ∈ xs) :
    ∃ is, Reads kubectl is := by
  cases hv : runKubectl kubectl
  case error => simp [getItems, hv, bind, Except.bind] at h
  case ok v  =>
    cases hi : items v
    case none    =>
      simp only [getItems, hv, hi, bind, Except.bind, pure, Except.pure] at h
      cases h; contradiction
    case some is => exact ⟨is, v, hv, hi⟩

-- That no item is found to be bad shows that all are good, exactly if the read succeeds.
theorem observes_iff_reads {info : Json → α} {bad good : α → Prop} (hg : ∀ x, ¬bad x → good x) :
    ((¬∃ xs, getItems info kubectl = .ok xs ∧ ∃ x ∈ xs, bad x) →
      ∃ is, Reads kubectl is ∧ ∀ x ∈ is.map info, good x) ↔ ∃ is, Reads kubectl is := by
  constructor
  case mp =>
    intro h
    refine Classical.byContradiction fun hr => ?_
    have ⟨is, hi, _⟩ := h fun ⟨_, ho, _, hm, _⟩ => hr <| reads_of_mem_getItems ho hm
    exact hr ⟨is, hi⟩
  case mpr =>
    intro ⟨is, hr⟩ h
    exact ⟨is, hr, fun x hm => hg x fun hb => h ⟨_, getItems_eq_ok_of_reads hr, x, hm, hb⟩⟩

theorem getItems_eq_error_iff {info : Json → α} :
    getItems info kubectl = .error e ↔ runKubectl kubectl = .error e := by
  cases hv : runKubectl kubectl
  case error => simp [getItems, hv, bind, Except.bind]
  case ok v  => cases hi : items v <;> simp [getItems, hv, hi, bind, Except.bind, pure, Except.pure]

end K8s
