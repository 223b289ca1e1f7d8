import ZyrisDocker.Enroll.Dial
import ZyrisDocker.Enroll.Siblings

-- A device grant over a credential store which siblings write at any time.
namespace Shared

structure State where
  store    : Stored
  grant    : DeviceGrant.State
  -- What a call returned in the latest step.
  returned : Option DeviceGrant.Answer

inductive Event
  | grant (e : DeviceGrant.Event)
  | put (stored : Stored)

variable (grant : DeviceGrant)

-- A step of the grant, with its effect on the store.
def turn (s : State) (e : DeviceGrant.Event) : Option State :=
  (DeviceGrant.step grant s.grant e).map fun (node, returned) =>
    { store := s.store.after s.grant.at e, grant := node, returned }

def step (s : State) : Event → Option State
  | .put stored => some { s with store := stored, returned := none }
  | .grant e    => if s.store.answers e then turn grant s e else none

-- The dial loop with such a device grant.
namespace Loop

structure State where
  node     : Node.State
  store    : Stored
  -- The credentials whose enrollment was completed since the last successful dial.
  enrolled : List Credential
  -- The latest bearer that was dialled with.
  dialled  : Option String

inductive Event
  | node (e : Node.Event)
  | put (stored : Stored)

def enrolls (enrolled : List Credential) : DeviceGrant.Suspension → Node.Event → List Credential
  | _,       .loop (.dial (.ok _))     => []
  | .save c, .grant (.saved (.ok ()))  => c :: enrolled
  | _,       _                         => enrolled

def dials (dialled : Option String) : Runner.Suspension → Option String
  | .dial bearer => bearer
  | _            => dialled

variable (node : Node)

def init (store : Stored) : State where
  node     := Node.init node
  store    := store
  enrolled := []
  dialled  := none

def answers (store : Stored) : Node.Event → Bool
  | .grant e => store.answers e
  | .loop _  => true

def after (store : Stored) (at' : DeviceGrant.Suspension) : Node.Event → Stored
  | .grant e => store.after at' e
  | .loop _  => store

def step (s : State) : Event → Option State
  | .put stored => some { s with store := stored }
  | .node e     =>
    if answers s.store e then
      (Node.step node s.node e).map fun node' => {
        node     := node'
        store    := after s.store s.node.grant.at e
        enrolled := enrolls s.enrolled s.node.grant.at e
        dialled  := dials s.dialled node'.runner.at
      }
    else none

end Loop
end Shared
