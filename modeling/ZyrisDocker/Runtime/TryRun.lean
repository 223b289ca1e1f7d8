import ZyrisDocker.Runtime.Runner

namespace Runner

-- The connection which the dial loop is serving: it awaits its close.
def Suspension.serving : Suspension → Option Connection
  | closed conn => some conn
  | _           => none

-- The dial loop awaits something.
def Suspension.pending : Suspension → Bool
  | returned _ | panicked => false
  | _                     => true

-- The dial loop racing against a stop signal.
namespace TryRun

-- After a signal, `try_run` sleeps once more if it closed a connection.
inductive Phase
  | racing
  | closing
  | returned (r : Except RunError Unit)

structure State where
  loop    : Runner.State
  -- The connections that dropped.
  dropped : List Connection
  -- The connections that the shutdown branch closed.
  closed  : List Connection
  phase   : Phase

inductive Event
  | loop (e : Runner.Event)
  | drop (conn : Connection)
  | stop
  | grace

variable (runner : Runner)

def init : State where
  loop    := Runner.init runner
  dropped := []
  closed  := []
  phase   := .racing

-- A wait for the close of a connection ends when the connection has dropped.
def ready (s : State) : Runner.Event → Bool
  | .closed _ => s.loop.at.serving.any (· ∈ s.dropped)
  | _         => true

-- The race is over when the dial loop returns.
def advance (s : State) (loop : Runner.State) : State :=
  match loop.at with
  | .returned err => { s with loop, phase := .returned (.error err) }
  | _             => { s with loop }

-- The shutdown branch. The dial loop is not resumed anymore.
def shutdown (s : State) : State :=
  match s.loop.live with
  | some conn =>
    { s with loop := { s.loop with live := none }, closed := conn :: s.closed, phase := .closing }
  | none      => { s with phase := .returned (.ok ()) }

def step (s : State) : Event → Option State
  | .drop conn => some { s with dropped := conn :: s.dropped }
  | .loop e    =>
    match s.phase with
    | .racing => if ready s e then (Runner.step runner s.loop e).map (advance s) else none
    | _       => none
  | .stop      =>
    match s.phase with
    | .racing => if s.loop.at.pending then some <| shutdown s else none
    | _       => none
  | .grace     =>
    match s.phase with
    | .closing => some { s with phase := .returned (.ok ()) }
    | _        => none

-- `run` translates whatever happened into an exit status.
def exitStatus : Except RunError Unit → Nat
  | .ok ()       => 0
  | .error error => error.exitCode

end TryRun
end Runner
