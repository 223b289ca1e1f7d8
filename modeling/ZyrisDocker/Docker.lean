import ZyrisDocker.Lib.External

structure ContainerInfo where
  id      : String
  name    : String
  image   : String
  state   : String
  running : Bool
  status  : String
  deriving DecidableEq

namespace Docker

-- The lines of a `docker ps --format {{json .}}`, each one as the JSON document it parses to.
abbrev Lines := List (Option Json)

def runDocker : Command.Output Lines → Except String Lines
  | .unavailable e          => .error e
  | .exited true stdout _   => .ok stdout
  | .exited false _ stderr  => .error (Text.trim stderr)

def parseContainerLine (line : Option Json) : Option ContainerInfo := do
  let v ← line
  let names ← (← v.get "Names").asStr
  let name := names.toList.splitOn ',' |>.head?.map String.ofList |>.getD ""
  let state := (v.get "State" >>= Json.asStr).getD ""
  return {
    id      := (v.get "ID" >>= Json.asStr).getD ""
    name    := name
    image   := (v.get "Image" >>= Json.asStr).getD ""
    state   := state
    running := state = "running"
    status  := (v.get "Status" >>= Json.asStr).getD ""
  }

-- All containers, also the stopped ones. A line that does not parse is passed over.
def listContainers (ps : Command.Output Lines) : Except String (List ContainerInfo) := do
  let raw ← runDocker ps
  return raw.filterMap parseContainerLine

-- The first line that parses, of a listing filtered by `name=selector`.
def containerInfo (ps : Command.Output Lines) (selector : String) : Except String ContainerInfo := do
  let raw ← runDocker ps
  match raw.findSome? parseContainerLine with
  | some c => return c
  | none   => throw s!"no container {selector}"

def containerRunning (ps : Command.Output Lines) (selector : String) : Bool :=
  match containerInfo ps selector with
  | .ok c    => c.running
  | .error _ => false

theorem containerRunning_iff {ps : Command.Output Lines} : containerRunning ps selector ↔
    ∃ lines c, runDocker ps = .ok lines ∧ lines.findSome? parseContainerLine = some c ∧ c.running := by
  cases hl : runDocker ps
  case error => simp [containerRunning, containerInfo, hl, bind, Except.bind]
  case ok lines =>
    cases hc : lines.findSome? parseContainerLine <;>
      simp [containerRunning, containerInfo, hl, hc, bind, Except.bind, pure, Except.pure, throw, throwThe,
        MonadExceptOf.throw]

end Docker
