import ZyrisDocker.Runtime.Runner

-- Where the live connection is handed in by `on_connect`.
structure ConnSlot where
  current : Option Connection := none

namespace ConnSlot

def put (_ : ConnSlot) (conn : Connection) : ConnSlot where
  current := conn

def get (slot : ConnSlot) : Option Connection :=
  slot.current

-- The dial loop, the hooks that it spawns as tasks of their own, and the slot that they fill.
structure State where
  loop   : Runner.State
  slot   : ConnSlot := {}
  -- The connections, by number, whose hook has stored them. The latest one comes first.
  stored : List Nat := []

-- The watcher's reads change nothing, so they are not among the events.
inductive Event
  | loop (e : Runner.Event)
  | hook (n : Nat)

variable (runner : Runner)

def init : State where
  loop := Runner.init runner

namespace State

variable (s : State)

-- A dial never returns a connection of an earlier dial.
def fresh : Runner.Event → Bool
  | .dial (.ok conn) => conn.id ∉ s.loop.hooks.map Connection.id
  | _                => true

-- The hook which `main` hangs onto the runner.
def hook (n : Nat) (conn : Connection) : State :=
  { s with slot := s.slot.put conn, stored := n :: s.stored }

end State

-- A hook which was spawned runs at any later time, but only once.
def step (s : State) : Event → Option State
  | .loop e =>
    if s.fresh e then (Runner.step runner s.loop e).map ({ s with loop := · }) else none
  | .hook n =>
    if n ∈ s.stored then none else (s.loop.dialed n).map (s.hook n)

end ConnSlot
