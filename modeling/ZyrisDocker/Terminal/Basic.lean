import ZyrisDocker.Config
import ZyrisDocker.Gate.Basic
import ZyrisDocker.Lib.Pipe
import ZyrisDocker.Lib.Run

open Text

-- Grace between SIGTERM and SIGKILL.
def killGrace : Duration := .fromMillis 200

structure ExecOutput where
  exitCode        : Int
  stdout          : String
  stderr          : String
  timedOut        : Bool
  stdoutTruncated : Bool
  stderrTruncated : Bool
  deriving DecidableEq

structure GatedTerminal where
  gate           : PathGate
  maxOutputBytes : Nat
  execTimeout    : Duration

namespace GatedTerminal

-- The terminal that is built at startup.
def ofEnv (gate : PathGate) (env : Config.Env) : GatedTerminal where
  gate
  maxOutputBytes := Config.maxOutputBytes env
  execTimeout    := (Config.fromEnv env).execTimeout

-- The configured timeout is the cap. It is converted to 64 bits of milliseconds.
def effectiveTimeout (terminal : GatedTerminal) (callerMs : Option Nat) : Duration :=
  let capMs := terminal.execTimeout.asMillis % UInt64.size
  .fromMillis (callerMs.elim capMs (min · capMs))

structure ExecRequest where
  command   : Option String
  argv      : Option (List String)
  cwd       : Option String
  timeoutMs : Option Nat
  stdin     : Option String
  env       : Option (List (String × String))
  shell     : Option String

-- The command that is spawned, in a process group of its own and with pipes as its standard streams.
-- Without an input, its standard input is empty.
structure Command where
  program    : String
  args       : List String
  dir        : PathBuf Bytes
  wantsStdin : Bool
  env        : List (String × String)

def invalidParams (message : String) : WireError :=
  ⟨.invalidParams, message⟩

-- The part of `exec` before the command is spawned.
def command (terminal : GatedTerminal) (host : Host κ) (req : ExecRequest) : Except WireError Command := do
  if req.argv = some [] then throw <| invalidParams "argv must not be empty"
  let hasCommand := req.command.any fun c => Text.trim c ≠ ""
  match hasCommand, req.argv.isSome with
  | false, false => throw <| invalidParams "give `command` or `argv`, not neither"
  | true,  true  => throw <| invalidParams "give `command` or `argv`, not both"
  | _,     _     => pure ()
  let dir ←
    match req.cwd with
    | some c => terminal.gate.check host c
    | none   => pure terminal.gate.root
  let (program, args) :=
    match req.argv with
    | some (program :: args) => (program, args)
    | _                      => (req.shell.getD "/bin/sh", ["-c", req.command.getD ""])
  return { program, args, dir, wantsStdin := req.stdin.isSome, env := req.env.getD [] }

-- What is kept of a stream, and whether more was read.
structure Capped where
  out    : Bytes := []
  capped : Bool := false

-- The loop body of `read_capped`.
def Capped.add (cap : Nat) (kept : Capped) (chunk : Bytes) : Capped :=
  let room := cap - kept.out.length
  { out    := if room > 0 then kept.out ++ chunk.take (min chunk.length room) else kept.out
    capped := kept.capped || chunk.length > room }

-- What a read of a stream returns.
inductive Read
  | ok (bytes : Bytes)
  | err

-- Reads until one returns nothing or fails. Beside what is kept, the answers to later reads are returned.
def readCappedLoop (cap : Nat) (kept : Capped) : List Read → Option (Capped × List Read)
  | []                        => none
  | .ok [] :: rest            => some (kept, rest)
  | .err :: rest              => some (kept, rest)
  | .ok (b :: chunk) :: rest  => readCappedLoop cap (kept.add cap (b :: chunk)) rest

def readCapped (cap : Nat) (reads : List Read) : Option (Capped × List Read) :=
  readCappedLoop cap {} reads

def finish (kept : Capped) : String :=
  let s := String.ofList (fromUtf8Lossy kept.out)
  if kept.capped then s ++ "\n… output truncated at the cap" else s

-- The size of the buffer that streams are read with.
def chunkSize : Nat := 8192

inductive Stream
  | stdout
  | stderr
  deriving DecidableEq

-- A stream of the child and the reader at its end.
structure Output where
  pipe  : Pipe
  kept  : Capped := {}
  ended : Bool := false

-- What `exec` is doing after the spawn: writing the rest of the input, gathering the output within the
-- timeout, or waiting for the group to heed SIGTERM.
inductive Suspension
  | writing (rest : Bytes)
  | collecting
  | grace (due : Nat)
  | returned (out : ExecOutput)

structure State where
  «at»     : Suspension
  stdin    : Pipe
  output   : Stream → Output
  -- The exit status of the child when it exited: its code, if there is one.
  status   : Option (Option Int)
  now      : Nat
  -- When the effective timeout elapses, once it was started.
  deadline : Option Nat

-- What `exec` does by itself as soon as it can.
inductive Move
  | write (n : Nat)
  | broken
  | close
  | read (stream : Stream) (n : Nat)
  | eof (stream : Stream)
  | finish
  | expire
  | kill

-- What happens around it: whatever the processes in the group do, and time.
inductive World
  | takes (n : Nat)
  | drops
  | puts (stream : Stream) (bytes : Bytes)
  | ends (stream : Stream)
  | fails (stream : Stream)
  | exits (code : Option Int)
  | tick (d : Duration)

inductive Event
  | exec (m : Move)
  | world (w : World)

variable (terminal : GatedTerminal) (req : ExecRequest)

-- The input is closed and the timeout starts.
def collect (s : State) : State :=
  { s with
    «at»     := .collecting
    stdin    := { s.stdin with writer := false }
    deadline := s.now + terminal.effectiveTimeout req.timeoutMs }

def State.setOutput (s : State) (stream : Stream) (output : Output) : State :=
  { s with output := Function.update s.output stream output }

def completed (s : State) (code : Option Int) : ExecOutput where
  exitCode        := code.getD (-1)
  stdout          := finish (s.output .stdout).kept
  stderr          := finish (s.output .stderr).kept
  timedOut        := false
  stdoutTruncated := (s.output .stdout).kept.capped
  stderrTruncated := (s.output .stderr).kept.capped

def timedOut : ExecOutput where
  exitCode        := -1
  stdout          := ""
  stderr          := "command timed out; the whole process tree was killed"
  timedOut        := true
  stdoutTruncated := false
  stderrTruncated := false

def advance (s : State) : Move → Option State
  | .write n =>
    match s.at with
    | .writing rest =>
      if 0 < n ∧ n ≤ rest.length ∧ s.stdin.reader then
        s.stdin.push (rest.take n) |>.map fun stdin => { s with «at» := .writing (rest.drop n), stdin }
      else none
    | _ => none
  | .broken =>
    match s.at with
    | .writing (_ :: _) => if s.stdin.reader then none else collect terminal req s
    | _                 => none
  | .close =>
    match s.at with
    | .writing [] => collect terminal req s
    | _           => none
  | .read stream n =>
    let output := s.output stream
    match s.at with
    | .collecting =>
      if !output.ended ∧ 0 < n ∧ n ≤ min chunkSize output.pipe.buffer.length then
        s.setOutput stream { output with
          pipe := output.pipe.pull n
          kept := output.kept.add terminal.maxOutputBytes (output.pipe.buffer.take n) }
      else none
    | _ => none
  | .eof stream =>
    let output := s.output stream
    match s.at with
    | .collecting =>
      if !output.ended ∧ output.pipe.buffer = [] ∧ !output.pipe.writer
      then s.setOutput stream { output with ended := true }
      else none
    | _ => none
  | .finish =>
    match s.at, s.status with
    | .collecting, some code =>
      if (s.output .stdout).ended ∧ (s.output .stderr).ended
      then some { s with «at» := .returned (completed s code) }
      else none
    | _, _ => none
  | .expire =>
    match s.at, s.deadline with
    | .collecting, some d => if d ≤ s.now then some { s with «at» := .grace (s.now + killGrace) } else none
    | _,           _      => none
  | .kill =>
    match s.at with
    | .grace d => if d ≤ s.now then some { s with «at» := .returned timedOut } else none
    | _        => none

-- The timer that ends the current wait.
def State.timer (s : State) : Option Nat :=
  match s.at with
  | .collecting => s.deadline
  | .grace d    => some d
  | _           => none

-- Timers do not elapse late.
def happen (s : State) : World → Option State
  | .takes n            => some { s with stdin := s.stdin.pull n }
  | .drops              => some { s with stdin := { s.stdin with reader := false } }
  | .puts stream bytes  =>
    let output := s.output stream
    if output.pipe.writer
    then output.pipe.push bytes |>.map fun pipe => s.setOutput stream { output with pipe }
    else none
  | .ends stream        =>
    let output := s.output stream
    s.setOutput stream { output with pipe := { output.pipe with writer := false } }
  | .fails stream       =>
    match s.at with
    | .collecting => s.setOutput stream { s.output stream with ended := true }
    | _           => none
  | .exits code         => if s.status.isNone then some { s with status := some code } else none
  | .tick d             => if s.timer.all (s.now + d ≤ ·) then some { s with now := s.now + d } else none

def step (s : State) : Event → Option State
  | .exec m  => advance terminal req s m
  | .world w => happen s w

-- The state after the spawn, with pipes of the given capacities.
def spawned (capacity : Nat) (capacities : Stream → Nat) : State :=
  let s : State := {
    «at»     := .writing []
    stdin    := { capacity }
    output   := fun stream => { pipe := { capacity := capacities stream } }
    status   := none
    now      := 0
    deadline := none
  }
  match req.stdin with
  | some text => { s with «at» := .writing (utf8 text.toList) }
  | none      => collect terminal req s

-- `exec` up to the spawn, which may fail.
def exec (host : Host κ) (spawn : Command → Except String (Nat × (Stream → Nat))) : Except WireError State := do
  let command ← terminal.command host req
  match spawn command with
  | .error e                       => throw ⟨.internal, s!"could not run: {e}"⟩
  | .ok (capacity, capacities)     => return spawned terminal req capacity capacities

end GatedTerminal
