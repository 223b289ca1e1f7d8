import ZyrisDocker.System

-- The kernel's side of `/proc`.

open Text

namespace Proc

inductive State
  | running
  | sleeping
  | diskSleep
  | stopped
  | tracingStop
  | waking
  | wakekill
  | parked
  | idle
  | zombie
  | dead
  | deadOld
  deriving DecidableEq

namespace State

def letter : State → Char
  | running     => 'R'
  | sleeping    => 'S'
  | diskSleep   => 'D'
  | stopped     => 'T'
  | tracingStop => 't'
  | waking      => 'W'
  | wakekill    => 'K'
  | parked      => 'P'
  | idle        => 'I'
  | zombie      => 'Z'
  | dead        => 'X'
  | deadOld     => 'x'

def isAlive (state : State) : Bool :=
  state ∉ [zombie, dead, deadOld]

end State

-- The fields of `/proc/<pid>/stat` behind the comm, in order. Which ones follow depends on the kernel.
structure Stat where
  state       : State
  ppid        : Int
  pgrp        : Int
  session     : Int
  ttyNr       : Int
  tpgid       : Int
  flags       : Nat
  minflt      : Nat
  cminflt     : Nat
  majflt      : Nat
  cmajflt     : Nat
  utime       : Nat
  stime       : Nat
  cutime      : Nat
  cstime      : Nat
  priority    : Int
  nice        : Int
  numThreads  : Int
  itrealvalue : Int
  starttime   : Nat
  vsize       : Nat
  rss         : Nat
  rest        : List Int

namespace Stat

variable (stat : Stat)

def numbers : List Int :=
  [stat.ppid, stat.pgrp, stat.session, stat.ttyNr, stat.tpgid, stat.flags, stat.minflt, stat.cminflt, stat.majflt,
    stat.cmajflt, stat.utime, stat.stime, stat.cutime, stat.cstime, stat.priority, stat.nice, stat.numThreads,
    stat.itrealvalue, stat.starttime, stat.vsize, stat.rss] ++ stat.rest

def fields : List (List Char) :=
  [stat.state.letter] :: stat.numbers.map decimal

-- What follows the closing parenthesis in the line.
def tail : List Char :=
  ' ' :: [' '].intercalate stat.fields ++ ['\n']

-- The line `pid (comm) state ppid ...`.
def render (pid : Nat) (comm : List Char) : List Char :=
  decimal pid ++ ' ' :: '(' :: comm ++ ')' :: stat.tail

end Stat

-- A comm can be any bytes.
structure Process where
  pid     : Nat
  comm    : Bytes
  stat    : Stat
  cmdline : Option Bytes
  pid_lt  : pid < 2147483648

namespace Process

def entry (process : Process) : ProcEntry where
  name    := utf8 (decimal process.pid)
  stat    := some <| utf8 (decimal process.pid ++ [' ', '(']) ++ process.comm ++ utf8 (')' :: process.stat.tail)
  cmdline := process.cmdline

def IsLive (process : Process) (name : String) : Prop :=
  process.stat.state.isAlive ∧ process.comm = utf8 name.toList

end Process

-- The processes, and the entries of `/proc` that are about something else.
structure Population where
  processes  : List Process
  others     : List ProcEntry
  others_pid : ∀ entry ∈ others, parseI32 (fromUtf8Lossy entry.name) = none

def Population.entries (population : Population) : List ProcEntry :=
  population.others ++ population.processes.map Process.entry

end Proc
