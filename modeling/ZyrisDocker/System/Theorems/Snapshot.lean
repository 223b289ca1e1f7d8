import ZyrisDocker.System.Kernel
import ZyrisDocker.System.Theorems.Running

open Text

theorem readFile_utf8 : readFile (some <| utf8 cs) = cs := by
  rw [readFile, Option.bind_some, fromUtf8_utf8, Option.getD_some]

namespace Proc

namespace MemLine

variable (line : MemLine)

theorem isWord_label : IsWord isWhitespace (line.name ++ [':']) where
  ne_nil := by simp
  no_sep := by simpa [or_imp, forall_and] using ⟨line.isWord.no_sep, by decide⟩

theorem words_render : ∃ rest, words isWhitespace line.render = (line.name ++ [':']) :: decimal line.value :: rest := by
  have hr : line.render = (line.name ++ [':']) ++ ' ' :: (List.replicate line.pad ' ' ++
    (decimal line.value ++ if line.inKb then [' ', 'k', 'B'] else [])) := List.append_cons ..
  rw [hr, words_word_append line.isWord_label (by decide), words_replicate (by decide)]
  cases line.inKb
  case false => exact ⟨[], by simp [words_word isWord_decimal]⟩
  case true  => exact ⟨[['k', 'B']], by rw [if_pos rfl, words_word_append isWord_decimal (by decide)]; rfl⟩

theorem isLine_render : IsLine line.render := by
  have hn {c : Char} (h : c.isDigit = false) (hs : isWhitespace c) (hc : c ∉ [':', ' ', 'k', 'B', '-']) : c ∉ line.render := by
    simp only [List.mem_cons, List.not_mem_nil, or_false, not_or] at hc
    have hw : c ∉ line.name := fun hm => absurd (line.isWord.no_sep c hm) (by simp [hs])
    have hd : c ∉ decimal line.value := not_mem_decimal h hc.2.2.2.2
    cases hk : line.inKb <;> simp [render, hk, hw, hd, hc]
  exact isLine_of_not_mem (hn (by decide) (by decide) (by decide)) (hn (by decide) (by decide) (by decide))

-- A key is what a line starts with only if the line has its name.
theorem prefix_render {name : List Char} (h : ':' ∉ name) : name ++ [':'] <+: line.render ↔ line.name = name := by
  constructor
  case mp =>
    rintro ⟨t, ht⟩
    rw [List.append_assoc, List.singleton_append] at ht
    exact (append_separator_inj h line.plain ht).1.symm
  case mpr =>
    rintro rfl
    exact ⟨_, (List.append_cons ..).symm⟩

end MemLine

namespace Meminfo

variable (meminfo : Meminfo)

theorem lines_render : lines (readFile <| some meminfo.render) = meminfo.map MemLine.render := by
  rw [render, readFile_utf8]
  refine lines_unlines fun l hl => ?_
  obtain ⟨line, _, rfl⟩ := List.mem_map.mp hl
  exact line.isLine_render

-- Whatever other figures there are, a figure is that of its name.
theorem meminfoKb_render {name : String} (h : ':' ∉ name.toList) :
    meminfoKb (some meminfo.render) (name ++ ":") = meminfo.bytes name := by
  have hk : (name ++ ":").toList = name.toList ++ [':'] := String.toList_append
  have hp : (fun l => decide ((name ++ ":").toList <+: l)) ∘ MemLine.render = fun line => decide (line.name = name.toList) :=
    funext fun line => decide_eq_decide.mpr <| hk ▸ line.prefix_render h
  rw [meminfoKb, lines_render, List.find?_map, hp, bytes]
  cases meminfo.find? (·.name = name.toList)
  case none      => rfl
  case some line =>
    obtain ⟨rest, hw⟩ := line.words_render
    have hv : parseU64 (decimal line.value) = some line.value := by simp [parseU64_decimal, line.fits]
    simp [hw, hv]

end Meminfo

namespace CpuStat

variable (stat : CpuStat)

theorem words_total : words isWhitespace stat.total = ['c', 'p', 'u'] :: stat.numbers.map fun n : Nat => decimal n := by
  have ht : stat.total = ['c', 'p', 'u'] ++ ' ' :: ' ' :: [' '].intercalate (stat.numbers.map fun n : Nat => decimal n) := rfl
  have hw : ∀ w ∈ stat.numbers.map fun n : Nat => decimal n, IsWord isWhitespace w := by
    intro w hw
    obtain ⟨n, _, rfl⟩ := List.mem_map.mp hw
    exact isWord_decimal
  rw [ht, words_word_append ⟨by simp, by simp [isWhitespace]⟩ (by decide), words_cons (by decide),
    words_intercalate (by decide) hw]

theorem isLine_total : IsLine stat.total := by
  have hn {c : Char} (h : c.isDigit = false) (hc : c ∉ ['c', 'p', 'u', ' ', '-']) : c ∉ stat.total := by
    simp only [List.mem_cons, List.not_mem_nil, or_false, not_or] at hc
    have hi : c ∉ [' '].intercalate (stat.numbers.map fun n : Nat => decimal n) := by
      refine not_mem_intercalate hc.2.2.2.1 fun w hw => ?_
      obtain ⟨n, _, rfl⟩ := List.mem_map.mp hw
      exact not_mem_decimal h hc.2.2.2.2
    simp [total, hc, hi]
  exact isLine_of_not_mem (hn (by decide) (by decide)) (hn (by decide) (by decide))

theorem nextTotals_total (totals) : nextTotals totals stat.total = (stat.user, stat.nice, stat.system, stat.idle) := by
  rw [nextTotals, words_total]
  have hp {n : Nat} (h : n ∈ [stat.user, stat.nice, stat.system, stat.idle]) : parseU64 (decimal n) = some n := by
    simp [parseU64_decimal, stat.fits n h]
  simp [numbers, hp]

theorem nextTotals_other (totals) (h : (words isWhitespace line).head? ≠ some ['c', 'p', 'u']) :
    nextTotals totals line = totals := by
  rw [nextTotals]
  split
  case h_1 hw => simp [hw] at h
  case h_2    => rfl

-- Whatever is said about other things, the times are those of all CPUs.
theorem cpuTimes_render : cpuTimes (some stat.render) = (stat.user, stat.nice, stat.system, stat.idle) := by
  have hl : lines (readFile <| some stat.render) = stat.total :: stat.others := by
    rw [render, readFile_utf8]
    exact lines_unlines <| List.forall_mem_cons.mpr ⟨stat.isLine_total, stat.isLine⟩
  have others (totals) : ∀ ls : List (List Char), (∀ l ∈ ls, l ∈ stat.others) → ls.foldl nextTotals totals = totals := by
    intro ls h
    induction ls
    case nil          => rfl
    case cons l ls ih =>
      have ⟨hl, h⟩ := List.forall_mem_cons.mp h
      rw [List.foldl_cons, nextTotals_other totals (stat.labels l hl), ih h]
  calc cpuTimes (some stat.render)
    _ = (stat.total :: stat.others).foldl nextTotals (0, 0, 0, 0) := by rw [cpuTimes, hl]
    _ = _ := by rw [List.foldl_cons, nextTotals_total, others _ _ fun _ => id]

end CpuStat

-- The line feed at the end of a text is trimmed with the rest.
theorem trim_newline (cs : List Char) : trim (.ofList <| cs ++ ['\n']) = trim (.ofList cs) := by
  apply String.toList_inj.mp
  rw [toList_trim, toList_trim, String.toList_ofList, String.toList_ofList, List.dropWhile_append]
  split
  case isTrue h  => rw [List.isEmpty_iff.mp h]; decide
  case isFalse _ => exact List.rdropWhile_concat_pos _ _ _ (by decide)

theorem fromUtf8_newline (bs : Bytes) : fromUtf8 (bs ++ utf8 ['\n']) = (fromUtf8 bs).map (· ++ ['\n']) := by
  cases h : fromUtf8 bs
  case some cs => rw [← fromUtf8_eq_some_iff.mp h, ← utf8_append, fromUtf8_utf8, Option.map_some]
  case none    =>
    rw [Option.map_none, fromUtf8_eq_none_iff]
    exact fun hu => fromUtf8_eq_none_iff.mp h <| isUtf8_append_cons_iff (x := 0x0A) (by decide) |>.mp hu |>.1

-- Whatever the hostname is, the snapshot has what is left of it as a trimmed text.
theorem hostname_read (hostname : Bytes) : trim (.ofList <| readFile <| some <| hostname ++ utf8 ['\n']) =
    trim (.ofList <| (fromUtf8 hostname).getD []) := by
  rw [readFile, Option.bind_some, fromUtf8_newline]
  cases fromUtf8 hostname
  case none    => rfl
  case some cs => exact trim_newline cs

theorem length_processList (population : Population) :
    (processList population.entries).length = population.processes.countP fun p => (fromUtf8 p.comm).isSome := by
  have hi (p : Process) : p.entry.info.isSome = (fromUtf8 p.comm).isSome := by
    have := congrArg Option.isSome p.info_entry
    simpa only [Option.isSome_map, Process.shown] using this
  have ho : population.others.countP (·.info.isSome) = 0 :=
    List.countP_eq_zero.mpr fun e he => by simp [ProcEntry.info, population.others_pid e he]
  rw [processList, Option.getD_some, List.length_filterMap_eq_countP, Population.entries, List.countP_append, ho, Nat.zero_add,
    List.countP_map]
  exact List.countP_congr fun p _ => by simp [hi]

-- A snapshot shows what the kernel has to say.
theorem kernel_snapshot (kernel : Kernel) : systemSnapshot kernel.reads = kernel.snapshot ∧
    cpuTimes (some kernel.stat.render) = (kernel.stat.user, kernel.stat.nice, kernel.stat.system, kernel.stat.idle) := by
  refine ⟨?_, kernel.stat.cpuTimes_render⟩
  have figure (name : String) (h : ':' ∉ name.toList) :
      meminfoKb (kernel.reads.meminfo (name ++ ":")) (name ++ ":") = (kernel.meminfo (name ++ ":")).bytes name :=
    (kernel.meminfo _).meminfoKb_render h
  have memTotal : meminfoKb (kernel.reads.meminfo "MemTotal:") "MemTotal:" = _ := figure "MemTotal" (by decide)
  have memAvail : meminfoKb (kernel.reads.meminfo "MemAvailable:") "MemAvailable:" = _ := figure "MemAvailable" (by decide)
  have swapTotal : meminfoKb (kernel.reads.meminfo "SwapTotal:") "SwapTotal:" = _ := figure "SwapTotal" (by decide)
  have swapFree : meminfoKb (kernel.reads.meminfo "SwapFree:") "SwapFree:" = _ := figure "SwapFree" (by decide)
  have hostname : trim (.ofList <| readFile kernel.reads.hostname) = _ := hostname_read kernel.hostname
  have count : (processList kernel.reads.entries).length = _ := length_processList kernel.population
  simp only [systemSnapshot, memTotal, memAvail, swapTotal, swapFree, hostname, count]
  rfl

section Examples

def memTotal : MemLine :=
  ⟨"MemTotal".toList, 7, 2048, true, ⟨by simp, by simp [isWhitespace]⟩, by decide, by decide⟩

def memAvailable (kb : Nat) (h : kb < UInt64.size) : MemLine :=
  ⟨"MemAvailable".toList, 3, kb, true, ⟨by simp, by simp [isWhitespace]⟩, by decide, h⟩

-- A figure without a unit.
def hugePages : MemLine :=
  ⟨"HugePages_Total".toList, 7, 0, false, ⟨by simp, by simp [isWhitespace]⟩, by decide, by decide⟩

def cpus : CpuStat where
  user   := 7
  nice   := 0
  system := 3
  idle   := 90
  more   := [1, 0, 0, 0, 0, 0]
  others := ["cpu0 4 0 1 45 1 0 0 0 0 0".toList, "intr 812 0".toList]
  fits   := by decide
  isLine := by simp [isLine_of_not_mem]
  labels := by decide

-- The available memory shrinks between the reads, and there is no swap.
def host : Kernel where
  hostname    := utf8 " web-1".toList
  meminfo key := if key = "MemAvailable:" then [memTotal, memAvailable 512 (by decide), hugePages] else
    [memTotal, memAvailable 1024 (by decide), hugePages]
  stat        := cpus
  population  := crashed

theorem kernel_snapshot_host : systemSnapshot host.reads = ⟨"web-1", 2097152, 1572864, 524288, 0, 0, 1⟩ ∧
    cpuTimes (some host.stat.render) = (7, 0, 3, 90) := by
  have ⟨snapshot, times⟩ := kernel_snapshot host
  exact ⟨snapshot.trans (by decide), times⟩

end Examples

end Proc
