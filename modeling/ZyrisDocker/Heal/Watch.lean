import ZyrisDocker.Heal.Basic

namespace SelfHealer.State

-- The loop over the incidents of a tick.
def rounds : State → List Incident → State
  | s, []      => s
  | s, i :: is => (s.next i is).rounds is

-- The incidents which this loop passes on for reporting.
def reports : State → List Incident → List Incident
  | _, []      => []
  | s, i :: is => if i.key ∈ s.reported then (s.next i is).reports is else i :: (s.next i is).reports is

-- The watcher's ticks, as a function of the samples.
def watch (s : State) (samples : List (List Incident)) : State :=
  samples.foldl (fun s is => (s.tick is).rounds is) s

end SelfHealer.State
