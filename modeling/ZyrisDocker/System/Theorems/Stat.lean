import ZyrisDocker.System.Proc

open Text

-- The name that is made of a comm: what is between its last `(` and its first `)`.
def shownName (comm : List Char) : String :=
  trim <| .ofList <| comm.takeWhile (· ≠ ')') |>.rtakeWhile (· ≠ '(')

-- The comms that are a name as they are.
structure Plain (comm : List Char) : Prop where
  noOpen  : '(' ∉ comm
  noClose : ')' ∉ comm
  trimmed : trim (.ofList comm) = .ofList comm

theorem plain_shownName (comm : List Char) : Plain (shownName comm).toList where
  noOpen h := by
    have := List.mem_rtakeWhile_imp <| String.toList_ofList ▸ mem_of_mem_trim h
    simp at this
  noClose h := by
    have := List.mem_takeWhile_imp <| (List.rtakeWhile_suffix _ _).mem <| String.toList_ofList ▸ mem_of_mem_trim h
    simp at this
  trimmed := by
    rw [String.ofList_toList]
    exact trim_trim _

theorem shownName_of_plain {comm : List Char} (h : Plain comm) : shownName comm = .ofList comm := by
  rw [shownName, List.takeWhile_eq_self_iff.mpr, List.rtakeWhile_eq_self_iff.mpr, h.trimmed]
  · simpa using fun c hc (he : c = '(') => h.noOpen (he ▸ hc)
  · simpa using fun c hc (he : c = ')') => h.noClose (he ▸ hc)

theorem shownName_eq_iff {comm : List Char} : shownName comm = .ofList comm ↔ Plain comm := by
  refine ⟨fun h => ?_, shownName_of_plain⟩
  simpa [h] using plain_shownName comm

-- What becomes of a number that is read as 64 unsigned bits.
def unsigned (z : Int) : Nat :=
  if 0 ≤ z ∧ z.toNat < UInt64.size then z.toNat else 0

theorem parseU64_decimal_getD : (parseU64 (decimal z)).getD 0 = unsigned z := by
  rw [parseU64_decimal, unsigned]
  split <;> rfl

namespace Proc

namespace Stat

variable (stat : Stat) (pid : Int) (n : Nat) (comm : List Char) (cmdline : Option Bytes)

variable {stat comm} in
theorem isWord_of_mem_fields (h : w ∈ stat.fields) : IsWord isWhitespace w := by
  rcases List.mem_cons.mp h with rfl | h
  · have hs : isWhitespace stat.state.letter = false := by cases stat.state <;> decide
    exact { ne_nil := by simp, no_sep := by simpa using hs }
  · have ⟨_, _, he⟩ := List.mem_map.mp h
    exact he ▸ isWord_decimal

theorem words_tail : words isWhitespace stat.tail = stat.fields := by
  rw [tail, words_snoc (by decide), words_cons (by decide), words_intercalate (by decide)]
  exact fun _ => isWord_of_mem_fields

theorem render_eq : stat.render n comm = (decimal n ++ ' ' :: '(' :: comm) ++ ')' :: stat.tail := by
  simp [render]

-- Whatever the comm is, a name is made of it.
theorem parseProcStat_name : ∃ info, parseProcStat pid (stat.render n comm) cmdline = some info ∧
    info.name = shownName comm := by
  have ⟨tail, ht⟩ := splitOnce_append_cons (x := ')') (l := decimal n ++ ' ' :: '(' :: comm) (r := stat.tail)
  have hn : ∀ c ∈ decimal n, decide (c ≠ ')') := fun c hc =>
    decide_eq_true fun he => not_mem_decimal (by decide) (by decide) (he ▸ hc)
  have hh : (decimal n ++ ' ' :: '(' :: comm).takeWhile (· ≠ ')') =
      (decimal n ++ [' ']) ++ '(' :: comm.takeWhile (· ≠ ')') := by
    rw [List.takeWhile_append_of_pos hn]
    simp
  have ⟨_, hr⟩ := rsplitOnce_append_cons (x := '(') (l := decimal n ++ [' ']) (r := comm.takeWhile (· ≠ ')'))
  rw [hh] at ht
  rw [render_eq, parseProcStat, ht]
  refine ⟨_, rfl, ?_⟩
  simp only [hr]
  rfl

-- The numbers that are taken for the resident set and the times, which are further back.
def startcode (stat : Stat) : Nat :=
  stat.rest[1]?.elim 0 unsigned

def ticksRead (stat : Stat) : Nat :=
  unsigned stat.cstime + unsigned stat.priority + unsigned stat.nice + unsigned stat.numThreads

-- The state is field 0.
theorem number_read : (stat.fields[i + 1]?.bind parseU64).getD 0 = stat.numbers[i]?.elim 0 unsigned := by
  rw [fields, List.getElem?_cons_succ, List.getElem?_map]
  cases stat.numbers[i]?
  case none => rfl
  case some => exact parseU64_decimal_getD

variable {comm} in
-- If the comm has no closing parenthesis, the fields are those that were rendered.
theorem parseProcStat_fields (h : ')' ∉ comm) : ∃ info,
    parseProcStat pid (stat.render n comm) cmdline = some info ∧
    info.state    = .ofList [stat.state.letter] ∧
    info.rssBytes = stat.startcode * 4096 % UInt64.size ∧
    info.cpuSecs  = stat.ticksRead % UInt64.size / 100 := by
  have hn : ')' ∉ decimal n ++ ' ' :: '(' :: comm := by
    simpa [h] using not_mem_decimal (by decide) (by decide)
  rw [render_eq, parseProcStat, splitOnce_append hn]
  refine ⟨_, rfl, ?_, ?_, ?_⟩
  · simp only [words_tail]
    rfl
  · simp only [words_tail, number_read]
    rfl
  · simp only [words_tail, number_read]
    rfl

-- The sum and the product that are to be shown fit 64 bits.
structure Fits (stat : Stat) : Prop where
  ticks : stat.utime + stat.stime + stat.cutime + stat.cstime < UInt64.size
  bytes : stat.rss * 4096 < UInt64.size

-- What was rendered is shown.
structure IsShown (stat : Stat) (comm : List Char) (info : ProcessInfo) : Prop where
  name     : info.name = .ofList comm
  state    : info.state = .ofList [stat.state.letter]
  cpuSecs  : info.cpuSecs = (stat.utime + stat.stime + stat.cutime + stat.cstime) / 100
  rssBytes : info.rssBytes = stat.rss * 4096

-- A line is read as it was meant exactly if the comm is plain and the numbers further back happen to
-- amount to the same.
theorem parseProcStat_isShown_iff :
    (∃ info, parseProcStat pid (stat.render n comm) cmdline = some info ∧ stat.IsShown comm info) ↔
    Plain comm ∧
    stat.ticksRead % UInt64.size / 100 = (stat.utime + stat.stime + stat.cutime + stat.cstime) / 100 ∧
    stat.startcode * 4096 % UInt64.size = stat.rss * 4096 := by
  have ⟨info, hp, hn⟩ := parseProcStat_name stat pid n comm cmdline
  constructor
  case mp =>
    intro ⟨_, hp', h⟩
    cases hp.symm.trans hp'
    have hc : Plain comm := shownName_eq_iff.mp (hn.symm.trans h.name)
    have ⟨_, hp', _, hr, ht⟩ := parseProcStat_fields stat pid n cmdline hc.noClose
    cases hp.symm.trans hp'
    exact ⟨hc, ht.symm.trans h.cpuSecs, hr.symm.trans h.rssBytes⟩
  case mpr =>
    intro ⟨hc, ht, hr⟩
    have ⟨_, hp', hs, hr', ht'⟩ := parseProcStat_fields stat pid n cmdline hc.noClose
    cases hp.symm.trans hp'
    exact ⟨info, hp, hn.trans (shownName_of_plain hc), hs, ht'.trans ht, hr'.trans hr⟩

-- `cat` after 2.5 seconds, with 2 MB in memory.
def cat : Stat where
  state       := .running
  ppid        := 1
  pgrp        := 812
  session     := 812
  ttyNr       := 0
  tpgid       := -1
  flags       := 4194304
  minflt      := 97
  cminflt     := 0
  majflt      := 0
  cmajflt     := 0
  utime       := 200
  stime       := 50
  cutime      := 0
  cstime      := 0
  priority    := 20
  nice        := 0
  numThreads  := 1
  itrealvalue := 0
  starttime   := 8112
  vsize       := 6000000
  rss         := 500
  rest        := [18446744073709551615, 94123456000000, 94123456020000]

theorem cat_not_isShown : cat.Fits ∧
    ¬∃ info, parseProcStat 812 (cat.render 812 ['c', 'a', 't']) none = some info ∧ cat.IsShown ['c', 'a', 't'] info := by
  refine ⟨⟨by decide, by decide⟩, ?_⟩
  intro ⟨info, hp, h⟩
  have ⟨_, hp', _, _, ht⟩ := parseProcStat_fields cat 812 812 none (by decide : ')' ∉ ['c', 'a', 't'])
  cases hp.symm.trans hp'
  exact absurd (ht.symm.trans h.cpuSecs) (by decide)

end Stat

end Proc
