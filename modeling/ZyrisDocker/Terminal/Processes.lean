import ZyrisDocker.Lib.Processes
import ZyrisDocker.Terminal.Basic

-- A call of `exec` among the processes of its system.

namespace GatedTerminal

-- Whether a process is the command or descends from it, and whether it, or one that it descends from, has crossed
-- the border of the command's group.
structure Origin where
  kin     : Bool
  strayed : Bool
  deriving DecidableEq

namespace Tree

structure State where
  call      : GatedTerminal.State
  table     : List (Unix.Process Origin)
  -- All that the signals of the call have reached.
  signalled : List (Unix.Process Origin)

inductive Event
  | exec (m : Move)
  | world (w : World)
  | process (p : Unix.Process Origin) (a : Unix.Action)

-- What descends from the command leaves its group, or gets out of reach of signals. Others join its group.
def crosses (child : Nat) (p : Unix.Process Origin) : Unix.Action → Bool
  | .setGroup group => if p.recorded.kin then group ≠ child else group = child ∧ p.pid ≠ child
  | .setSession     => p.recorded.kin
  | .setUser owned  => p.recorded.kin && !owned
  | _               => false

def note (child : Nat) (p : Unix.Process Origin) (a : Unix.Action) : Origin :=
  { p.recorded with strayed := p.recorded.strayed || crosses child p a }

inductive Signal
  | term
  | kill

-- A negative pid means the whole process group. SIGTERM is up to those which get it.
def killGroup (pid : Nat) (signal : Signal) (s : State) : State :=
  if 0 < pid then { s with
    signalled := s.signalled ++ Unix.members s.table pid
    table     := match signal with
      | .term => s.table
      | .kill => s.table.map (Unix.slay pid) }
  else s

-- The child keeps its id until the call has waited for it, or has given it up.
def State.holds (s : State) : Bool :=
  match s.call.at with
  | .returned _ => false
  | _           => true

variable (child : Nat)

def State.obey (s : State) : Move → State
  | .expire => killGroup child .term s
  | .kill   => killGroup child .kill s
  | .finish => { s with table := s.table.filter (·.pid ≠ child) }
  | _       => s

-- The exit of the child is one of a process, too.
def State.exits (s : State) : World → Option (List (Unix.Process Origin))
  | .exits _ => do
    let p ← s.table.find? (·.pid = child)
    Unix.act (note child) s.table p .exit
  | _ => s.table

variable (terminal : GatedTerminal) (req : ExecRequest)

def step (s : State) : Event → Option State
  | .exec m => do
    let call ← advance terminal req s.call m
    return { s with call }.obey child m
  | .world w => do
    let table ← s.exits child w
    let call ← happen s.call w
    return { s with table, call }
  | .process p a => do
    if p.pid = child ∧ s.holds ∧ (a = .exit ∨ a = .reap) then none
    let table ← Unix.act (note child) s.table p a
    return { s with table }

-- The state after the spawn by a process of the session.
def spawned (capacity : Nat) (capacities : Stream → Nat) (session : Nat) (others : List (Unix.Process Unit)) : State where
  call      := GatedTerminal.spawned terminal req capacity capacities
  table     := { pid := child, group := child, session, recorded := ⟨true, false⟩ } ::
    others.map fun q => { q with recorded := ⟨false, false⟩ }
  signalled := []

end Tree
end GatedTerminal
