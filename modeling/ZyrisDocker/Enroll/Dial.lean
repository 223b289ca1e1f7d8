import ZyrisDocker.Enroll.Basic
import ZyrisDocker.Runtime.Runner

-- A dial loop whose credentials are a device grant.
structure Node where
  runner : Runner
  grant  : DeviceGrant

namespace Node

structure State where
  runner : Runner.State
  grant  : DeviceGrant.State
  deriving DecidableEq

inductive Event
  | loop (e : Runner.Event)
  | grant (e : DeviceGrant.Event)

variable (node : Node)

def init : State where
  runner := Runner.init node.runner
  grant  := DeviceGrant.init

def answered : DeviceGrant.Answer → Runner.Event
  | .bearer r        => .bearer r
  | .forgetRefused r => .forget r

-- A call that returns resumes the loop.
def resume (s : State) : DeviceGrant.State × Option DeviceGrant.Answer → Option State
  | (grant, none)   => some { s with grant }
  | (grant, some a) => (Runner.step node.runner s.runner (answered a)).map ({ runner := ·, grant })

-- The loop calls the grant where it awaits its answer, and waits for everything else itself.
def admits : Runner.Suspension → Event → Bool
  | .bearer,   .grant .bearer        => true
  | _,         .grant .bearer        => false
  | .forget _, .grant .forgetRefused => true
  | _,         .grant .forgetRefused => false
  | _,         .loop (.bearer _)     => false
  | _,         .loop (.forget _)     => false
  | _,         _                     => true

def step (s : State) (e : Event) : Option State :=
  if admits s.runner.at e then
    match e with
    | .loop e  => (Runner.step node.runner s.runner e).map ({ s with runner := · })
    | .grant e => (DeviceGrant.step node.grant s.grant e).bind (resume node s)
  else none

end Node
