import ZyrisDocker.System.Theorems.Stat

open Text

namespace Proc

namespace Process

-- The name that is made of the comm, if the line can be read as text.
def shown (process : Process) : Option String :=
  fromUtf8 process.comm |>.map shownName

variable {process : Process} {text : List Char}

theorem stat_of_text (h : utf8 text = process.comm) :
    process.entry.stat.bind fromUtf8 = some (process.stat.render process.pid text) := by
  have hs : utf8 (decimal process.pid ++ [' ', '(']) ++ process.comm ++ utf8 (')' :: process.stat.tail) =
      utf8 (process.stat.render process.pid text) := by
    rw [← h, ← utf8_append, ← utf8_append]
    simp [Stat.render]
  rw [entry, Option.bind_some, hs, fromUtf8_utf8]

-- Around the comm the line is ASCII, and so it is the comm that keeps it from being text.
theorem stat_of_not_text (h : fromUtf8 process.comm = none) : process.entry.stat.bind fromUtf8 = none := by
  rw [entry, Option.bind_some, fromUtf8_eq_none_iff]
  intro hu
  have h₁ : IsUtf8 (utf8 (decimal process.pid ++ [' ', '(']) ++ process.comm) :=
    isUtf8_append_cons_iff (x := 0x29) (by decide) |>.mp hu |>.1
  have h₂ : IsUtf8 process.comm := by
    rw [utf8_append, show utf8 [' ', '('] = [0x20, 0x28] by decide] at h₁
    exact isUtf8_append_cons_iff (l := _ ++ [0x20]) (x := 0x28) (by decide) |>.mp (by simpa using h₁) |>.2
  exact fromUtf8_eq_none_iff.mp h h₂

theorem info_entry : process.entry.info.map (·.name) = process.shown := by
  have hp : parseI32 (fromUtf8Lossy process.entry.name) = some (process.pid : Int) := by
    rw [entry, fromUtf8Lossy_utf8, parseI32_decimal process.pid_lt]
  rw [ProcEntry.info, hp, shown]
  cases h : fromUtf8 process.comm
  case none => simp [stat_of_not_text h]
  case some text =>
    have ⟨info, hi, hn⟩ := process.stat.parseProcStat_name process.pid process.pid text process.entry.cmdline
    simp [stat_of_text (fromUtf8_eq_some_iff.mp h), hi, hn]

end Process

variable {population : Population}

theorem mem_processList :
    (∃ info ∈ processList population.entries, info.name = name) ↔ ∃ p ∈ population.processes, p.shown = some name := by
  simp only [processList, Option.getD_some, List.mem_filterMap]
  constructor
  case mp =>
    intro ⟨info, ⟨entry, he, hi⟩, hn⟩
    rcases List.mem_append.mp he with ho | hp
    case inl => simp [ProcEntry.info, population.others_pid entry ho] at hi
    case inr =>
      obtain ⟨p, hm, rfl⟩ := List.mem_map.mp hp
      exact ⟨p, hm, by rw [← Process.info_entry, hi, ← hn]; rfl⟩
  case mpr =>
    intro ⟨p, hp, hn⟩
    have ⟨info, hi, hn⟩ := Option.map_eq_some_iff.mp (Process.info_entry.trans hn)
    exact ⟨info, ⟨p.entry, List.mem_append_right _ <| List.mem_map_of_mem hp, hi⟩, hn⟩

theorem processRunning_iff :
    processRunning (processList population.entries) name ↔ ∃ p ∈ population.processes, p.shown = some name := by
  simp [processRunning, ← mem_processList]

theorem shown_plain {process : Process} (h : process.shown = some name) : Plain name.toList := by
  have ⟨_, _, hs⟩ := Option.map_eq_some_iff.mp h
  exact hs ▸ plain_shownName _

-- A plain name is shown, also when nothing is left of its process but an exit status.
theorem shown_of_comm {process : Process} (h : process.comm = utf8 name.toList) (hp : Plain name.toList) :
    process.shown = some name := by
  simp [Process.shown, h, shownName_of_plain hp]

-- The answer is right exactly if a plain name is that of a live process, or no live process has the
-- name and no process, live or not, is shown under it.
theorem processRunning_isLive_iff :
    (processRunning (processList population.entries) name ↔ ∃ p ∈ population.processes, p.IsLive name) ↔
    (Plain name.toList ∧ ∃ p ∈ population.processes, p.IsLive name) ∨
    (∀ p ∈ population.processes, ¬p.IsLive name ∧ p.shown ≠ some name) := by
  rw [processRunning_iff]
  constructor
  case mp =>
    intro h
    by_cases hl : ∃ p ∈ population.processes, p.IsLive name
    case pos =>
      have ⟨_, _, hs⟩ := h.mpr hl
      exact .inl ⟨shown_plain hs, hl⟩
    case neg =>
      exact .inr fun p hp => ⟨fun hp' => hl ⟨p, hp, hp'⟩, fun hs => hl <| h.mp ⟨p, hp, hs⟩⟩
  case mpr =>
    rintro (⟨hn, p, hp, hl⟩ | h)
    case inl => exact iff_of_true ⟨p, hp, shown_of_comm hl.2 hn⟩ ⟨p, hp, hl⟩
    case inr => exact iff_of_false (fun ⟨p, hp, hs⟩ => (h p hp).2 hs) (fun ⟨p, hp, hl⟩ => (h p hp).1 hl)

-- A worker that crashed and was not waited for.
def nginx : Process where
  pid     := 812
  comm    := utf8 "nginx".toList
  stat    := { Stat.cat with state := .zombie }
  cmdline := none
  pid_lt  := by decide

def crashed : Population where
  processes  := [nginx]
  others     := []
  others_pid := by simp

theorem crashed_running : ¬(processRunning (processList crashed.entries) "nginx" ↔
    ∃ p ∈ crashed.processes, p.IsLive "nginx") := by
  have hs : nginx.shown = some "nginx" := shown_of_comm rfl ⟨by decide, by decide, by decide⟩
  intro h
  have ⟨p, hp, hl⟩ := h.mp <| processRunning_iff.mpr ⟨nginx, .head _, hs⟩
  cases List.mem_singleton.mp hp
  exact absurd hl.1 (by decide)

end Proc
