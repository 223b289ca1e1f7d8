import ZyrisDocker.System.Proc

-- The kernel's side of `/proc/meminfo` and `/proc/stat`.

open Text

namespace Proc

-- A line `name:   value kB`, or one without a unit.
structure MemLine where
  name   : List Char
  pad    : Nat
  value  : Nat
  inKb   : Bool
  isWord : IsWord isWhitespace name
  plain  : ':' ∉ name
  fits   : value < UInt64.size

def MemLine.render (line : MemLine) : List Char :=
  line.name ++ ':' :: ' ' :: (List.replicate line.pad ' ' ++ (decimal line.value ++ if line.inKb then [' ', 'k', 'B'] else []))

abbrev Meminfo := List MemLine

namespace Meminfo

variable (meminfo : Meminfo)

def render : Bytes :=
  utf8 <| unlines <| meminfo.map MemLine.render

-- A figure in bytes. Those that are missing count as zero.
def bytes (name : String) : Nat :=
  meminfo.find? (·.name = name.toList) |>.elim 0 (·.value * 1024 % UInt64.size)

end Meminfo

-- The times of all CPUs, in clock ticks, and the lines about other things.
structure CpuStat where
  user   : Nat
  nice   : Nat
  system : Nat
  idle   : Nat
  more   : List Nat
  others : List (List Char)
  fits   : ∀ n ∈ [user, nice, system, idle], n < UInt64.size
  isLine : ∀ l ∈ others, IsLine l
  labels : ∀ l ∈ others, (words isWhitespace l).head? ≠ some ['c', 'p', 'u']

namespace CpuStat

variable (stat : CpuStat)

def numbers : List Nat :=
  [stat.user, stat.nice, stat.system, stat.idle] ++ stat.more

-- Two blanks follow the label.
def total : List Char :=
  ['c', 'p', 'u', ' ', ' '] ++ [' '].intercalate (stat.numbers.map fun n : Nat => decimal n)

def render : Bytes :=
  utf8 <| unlines <| stat.total :: stat.others

end CpuStat

-- What there is to be read for a snapshot. A hostname can be any bytes, and the memory is looked at anew for each
-- figure.
structure Kernel where
  hostname   : Bytes
  meminfo    : String → Meminfo
  stat       : CpuStat
  population : Population

namespace Kernel

variable (kernel : Kernel)

def reads : SystemReads where
  hostname    := kernel.hostname ++ utf8 ['\n']
  meminfo key := (kernel.meminfo key).render
  entries     := kernel.population.entries

-- A hostname that is no text counts as empty, and a process is counted if its line can be read as text.
def snapshot : SystemSnapshot where
  hostname          := trim <| .ofList <| (fromUtf8 kernel.hostname).getD []
  memTotalBytes     := (kernel.meminfo "MemTotal:").bytes "MemTotal"
  memUsedBytes      := (kernel.meminfo "MemTotal:").bytes "MemTotal" - (kernel.meminfo "MemAvailable:").bytes "MemAvailable"
  memAvailableBytes := (kernel.meminfo "MemAvailable:").bytes "MemAvailable"
  swapTotalBytes    := (kernel.meminfo "SwapTotal:").bytes "SwapTotal"
  swapUsedBytes     := (kernel.meminfo "SwapTotal:").bytes "SwapTotal" - (kernel.meminfo "SwapFree:").bytes "SwapFree"
  processCount      := kernel.population.processes.countP (fun p => (fromUtf8 p.comm).isSome) % UInt64.size

end Kernel
end Proc
