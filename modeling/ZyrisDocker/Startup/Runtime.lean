import ZyrisDocker.Heal.Task
import ZyrisDocker.Runtime.TryRun

-- The node that runs next to its watcher, until it returns an exit status.
namespace RunRuntime

structure State (ι : Type) where
  run     : Runner.TryRun.State
  watcher : Watcher.State ι := {}
  -- The connections, by number, whose hook has stored them.
  stored  : List Nat := []
  exited  : Option Nat := none

-- The exit status of a process whose main thread panicked.
def panicStatus : Nat := 101

inductive Event
  | run (e : Runner.TryRun.Event)
  | hook (n : Nat)
  | watcher (e : Watcher.Event)
  | exit

variable (runner : Runner) (tokio : Tokio ι) (cfg : Config)

def init : State ι where
  run := Runner.TryRun.init runner

namespace State

variable (s : State ι)

-- Only hooks fill the slot, and the report tasks only hear of connections that have dropped or were closed.
def admits : Watcher.Event → Bool
  | .healer (.put _)      => false
  | .healer (.close conn) => conn ∈ s.run.dropped ∨ conn ∈ s.run.closed
  | _                     => true

-- The status that the process can exit with. A panic of the dial loop unwinds through `main`.
def status : Option Nat :=
  match s.run.phase, s.run.loop.at with
  | .returned r, _         => Runner.TryRun.exitStatus r
  | .racing,     .panicked => panicStatus
  | _,           _         => none

end State

def step (s : State ι) (e : Event) : Option (State ι) :=
  if s.exited.isSome then none else
  match e with
  | .run e     => (Runner.TryRun.step runner s.run e).map ({ s with run := · })
  | .hook n    =>
    if n ∈ s.stored then none else do
      let conn ← s.run.loop.dialed n
      let watcher ← Watcher.step tokio cfg s.watcher (.healer (.put conn))
      return { s with watcher, stored := n :: s.stored }
  | .watcher e =>
    if s.admits e then (Watcher.step tokio cfg s.watcher e).map ({ s with watcher := · }) else none
  -- The watcher is aborted, and the process exits with the status that the runner returned.
  | .exit      => s.status.map ({ s with exited := some · })

end RunRuntime
