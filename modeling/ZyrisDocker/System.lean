import ZyrisDocker.Lib.Lines

open Text

structure ProcessInfo where
  pid      : Int
  name     : String
  state    : String
  rssBytes : Nat
  cpuSecs  : Nat
  cmdline  : String
  deriving DecidableEq

-- Whether a process with exactly this comm name is in the process list.
def processRunning (processList : List ProcessInfo) (name : String) : Bool :=
  processList.any (·.name == name)

-- Arguments are terminated by zero bytes and shown with blanks in between.
def joinCmdline (bytes : Bytes) : String :=
  " ".intercalate <| words (· = 0) bytes |>.map fun s => .ofList (fromUtf8Lossy s)

-- Parses `/proc/<pid>/stat`, given what a read of `/proc/<pid>/cmdline` returns. A field that is
-- missing or not a number counts as 0. Sums and products wrap, as they do in a release build.
def parseProcStat (pid : Int) (stat : List Char) (cmdline : Option Bytes) : Option ProcessInfo := do
  let (head, tail) ← splitOnce ')' stat
  let fields := words isWhitespace tail
  let number (i : Nat) : Nat := fields[i]? |>.bind parseU64 |>.getD 0
  let rssPages := number 23
  let utime    := number 14
  let stime    := number 15
  let cutime   := number 16
  let cstime   := number 17
  return {
    pid      := pid
    name     := (rsplitOnce '(' head).elim "" fun (_, comm) => trim (.ofList comm)
    state    := fields.head?.elim "" .ofList
    rssBytes := rssPages * 4096 % UInt64.size
    cpuSecs  := (utime + stime + cutime + cstime) % UInt64.size / 100
    cmdline  := cmdline.elim "" joinCmdline
  }

-- An entry of `/proc` and what reads of the two files return that are read of it.
structure ProcEntry where
  name    : Bytes
  stat    : Option Bytes
  cmdline : Option Bytes

-- The loop body of `process_list`.
def ProcEntry.info (entry : ProcEntry) : Option ProcessInfo := do
  let pid ← parseI32 (fromUtf8Lossy entry.name)
  let stat ← entry.stat.bind fromUtf8
  parseProcStat pid stat entry.cmdline

-- The list of processes, given the entries that a read of `/proc` returns.
def processList (entries : Option (List ProcEntry)) : List ProcessInfo :=
  entries.getD [] |>.filterMap ProcEntry.info

-- A file that cannot be read as text counts as an empty one.
def readFile (found : Option Bytes) : List Char :=
  found.bind fromUtf8 |>.getD []

-- The loop body of `cpu_times`. A line about all CPUs replaces the totals if it has four times.
def nextTotals (totals : Nat × Nat × Nat × Nat) (line : List Char) : Nat × Nat × Nat × Nat :=
  match words isWhitespace line with
  | ['c', 'p', 'u'] :: fields =>
    match fields.take 8 |>.filterMap parseU64 with
    | user :: nice :: system :: idle :: _ => (user, nice, system, idle)
    | _                                   => totals
  | _                         => totals

-- The user, nice, system and idle times of all CPUs: those of the last line in `/proc/stat` that has them.
def cpuTimes (stat : Option Bytes) : Nat × Nat × Nat × Nat :=
  lines (readFile stat) |>.foldl nextTotals (0, 0, 0, 0)

-- A figure of `/proc/meminfo`, in bytes: the second word of the first line that starts with the key.
def meminfoKb (meminfo : Option Bytes) (key : String) : Nat :=
  lines (readFile meminfo)
    |>.find? (key.toList <+: ·)
    |>.bind (fun line => (words isWhitespace line)[1]?)
    |>.bind parseU64
    |>.elim 0 (· * 1024 % UInt64.size)

-- The figures that are neither floating point numbers nor those of a file system.
structure SystemSnapshot where
  hostname          : String
  memTotalBytes     : Nat
  memUsedBytes      : Nat
  memAvailableBytes : Nat
  swapTotalBytes    : Nat
  swapUsedBytes     : Nat
  processCount      : Nat
  deriving DecidableEq

-- What the reads for a snapshot return. The file with the memory figures is read anew for each of them.
structure SystemReads where
  hostname : Option Bytes
  meminfo  : String → Option Bytes
  entries  : Option (List ProcEntry)

def systemSnapshot (reads : SystemReads) : SystemSnapshot :=
  let figure (key : String) : Nat := meminfoKb (reads.meminfo key) key
  let memTotal  := figure "MemTotal:"
  let memAvail  := figure "MemAvailable:"
  let swapTotal := figure "SwapTotal:"
  let swapFree  := figure "SwapFree:"
  {
    hostname          := trim (.ofList <| readFile reads.hostname)
    memTotalBytes     := memTotal
    memUsedBytes      := memTotal - memAvail
    memAvailableBytes := memAvail
    swapTotalBytes    := swapTotal
    swapUsedBytes     := swapTotal - swapFree
    processCount      := (processList reads.entries).length % UInt64.size
  }
