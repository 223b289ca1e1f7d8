import ZyrisDocker.Lib.Simulation
import ZyrisDocker.Terminal.Theorems.Output

open Text Transition

namespace GatedTerminal

variable {terminal : GatedTerminal} {req : ExecRequest} {s s' : State} {e : Event} {events : List Event}
variable {capacity : Nat} {capacities : Stream → Nat}

-- The text of a stream of which at most `cap` bytes are kept.
def text (cap : Nat) (bs : Bytes) : String :=
  .ofList (fromUtf8Lossy (bs.take cap)) ++ (if cap < bs.length then marker else "")

-- What a caller is to get of a command that exits with `code` and has written these streams.
def report (cap : Nat) (code : Option Int) (stdout stderr : Bytes) : ExecOutput where
  exitCode        := code.getD (-1)
  stdout          := text cap stdout
  stderr          := text cap stderr
  timedOut        := false
  stdoutTruncated := cap < stdout.length
  stderrTruncated := cap < stderr.length

-- The exit status is that of the child.
structure Exited (events : List Event) (s : State) : Prop where
  status   : ∀ {code}, s.status = some code → .world (.exits code) ∈ events
  returned : ∀ {out}, s.at = .returned out → out = timedOut ∨ ∃ code, .world (.exits code) ∈ events ∧ out.exitCode = code.getD (-1)

theorem finish_status (terminal : GatedTerminal) (req : ExecRequest) (h : advance terminal req s .finish = some s') :
    ∃ code, s.status = some code ∧ s' = { s with «at» := .returned (completed s code) } := by
  simp only [advance] at h
  split at h
  case h_2       => cases h
  case h_1 hc hs => split at h <;> cases h; exact ⟨_, hs, rfl⟩

namespace Exited

theorem spawned : Exited [] (spawned terminal req capacity capacities) := by
  constructor <;> simp only [GatedTerminal.spawned]
  case status   => split <;> exact fun h => by cases h
  case returned => split <;> exact fun h => by cases h

theorem still (x : Exited events s) (hs : s'.status = s.status) (ha : s'.at = s.at ∨ ∀ out, s'.at ≠ .returned out) :
    Exited (events ++ [e]) s' where
  status h   := List.mem_append_left _ (x.status (hs ▸ h))
  returned h := by
    obtain ha | ha := ha
    · exact (x.returned (ha ▸ h)).imp_right fun ⟨code, hm, he⟩ => ⟨code, List.mem_append_left _ hm, he⟩
    · exact absurd h (ha _)

theorem step (x : Exited events s) (h : GatedTerminal.step terminal req s e = some s') : Exited (events ++ [e]) s' := by
  cases e
  case exec m =>
    by_cases hm : m = .finish
    case pos =>
      subst hm
      obtain ⟨code, hs, rfl⟩ := finish_status terminal req h
      refine ⟨fun h => List.mem_append_left _ (x.status h), fun h => ?_⟩
      cases h
      exact .inr ⟨code, List.mem_append_left _ (x.status hs), rfl⟩
    case neg =>
      cases advances h
      case finish => exact absurd rfl hm
      case kill   => exact ⟨fun h => List.mem_append_left _ (x.status h), fun h => by cases h; exact .inl rfl⟩
      case read hc _ _ | eof hc _ _ => exact x.still rfl (.inl rfl)
      all_goals exact x.still rfl (.inr nofun)
  case world =>
    cases happens h
    case exits code =>
      refine ⟨fun h => by cases h; simp, fun h => ?_⟩
      exact (x.returned h).imp_right fun ⟨code, hm, he⟩ => ⟨code, List.mem_append_left _ hm, he⟩
    all_goals exact x.still rfl (.inl rfl)

end Exited

theorem run_exited (r : Run (Fires <| step terminal req) (spawned terminal req capacity capacities) events s) :
    Exited events s :=
  r.snoc_induction Exited.spawned fun _ _ _ _ _ h x => x.step h

-- A call that does not time out reports what its command did, in whatever order and in whatever pieces it did so.
-- Only of a stream that could not be read to its end, a part may be missing.
theorem returned_report
    (r : Run (Fires <| step terminal req) (spawned terminal req capacity capacities) events s) (hs : s.at = .returned out) :
    (.exec .expire ∈ events ∧ out = timedOut) ∨
    (.exec .expire ∉ events ∧
      (∃ code, .world (.exits code) ∈ events ∧
        out = report terminal.maxOutputBytes code (delivered .stdout events) (delivered .stderr events)) ∧
      ∀ stream, .world (.fails stream) ∉ events → delivered stream events = written stream events) := by
  have ho := run_outcome r
  simp only [Outcome, hs] at ho
  refine ho.imp_right fun ho => ?_
  obtain ⟨ht, _, code', hc⟩ := ho
  refine ⟨ht, ?_, fun stream => delivered_eq_written r hs ht⟩
  have kept (stream) : (s.output stream).kept = .ofStream terminal.maxOutputBytes (delivered stream events) :=
    (run_gathered r).kept
  obtain he | ⟨code, hm, he⟩ := (run_exited r).returned hs
  case inl => exact absurd (congrArg ExecOutput.timedOut <| hc.symm.trans he) Bool.false_ne_true
  case inr =>
    refine ⟨code, hm, ?_⟩
    rw [hc] at he ⊢
    simp only [completed, kept, finish_ofStream] at he ⊢
    simp [report, text, he, Capped.ofStream]

-- The bytes of a command that prints two invalid ones and exits.
theorem returned_report_printed : ∃ s out, s.at = .returned out ∧
    Run (Fires <| step (cappedAt 6) printf) (spawned (cappedAt 6) printf 65536 fun _ => 65536) printed s ∧
    ∃ code, .world (.exits code) ∈ printed ∧ out = report 6 code [0xff, 0xff] [] := by
  have ⟨s, out, hs, r⟩ := run_printed 6
  have h := (returned_report r hs).resolve_left fun h => absurd h.1 (by simp [printed])
  exact ⟨s, out, hs, r, h.2.1⟩

section Stdin

-- What is given to a command as its standard input.
def input (req : ExecRequest) : Bytes :=
  req.stdin.elim [] (utf8 ·.toList)

-- What a step takes out of the standard input of the command.
def intake (s : State) : Event → State → Bytes
  | .world (.takes n), _ => s.stdin.buffer.take n
  | _,                 _ => []

def State.unsent (s : State) : Bytes :=
  match s.at with
  | .writing rest => rest
  | _             => []

-- What was fed, what is in the pipe and what is still to be written make up the input, except for what is
-- dropped when nobody reads it any more.
structure Fed (input fed : Bytes) (s : State) : Prop where
  split  : ∃ dropped, fed ++ s.stdin.buffer ++ s.unsent ++ dropped = input ∧ (s.stdin.reader → dropped = [])
  closed : s.stdin.writer = false → s.unsent = []

namespace Fed

variable {given fed : Bytes}

theorem still (f : Fed given fed s) (hp : s'.stdin = s.stdin) (hu : s'.unsent = s.unsent) : Fed given fed s' := by
  obtain ⟨split, closed⟩ := f
  constructor <;> rw [hp, hu] <;> assumption

theorem collect (f : Fed given fed s) (h : s.stdin.reader = false ∨ s.unsent = []) :
    Fed given fed (collect terminal req s) where
  closed _ := rfl
  split    := by
    obtain ⟨dropped, hi, hd⟩ := f.split
    refine ⟨s.unsent ++ dropped, ?_, fun hr => ?_⟩
    · simpa [GatedTerminal.collect, State.unsent] using hi
    · have hr : s.stdin.reader = true := hr
      rw [hd hr, List.append_nil]
      exact h.resolve_left (by simp [hr])

theorem write {pipe : Pipe} (f : Fed given fed s) (hw : s.at = .writing rest) (hp : s.stdin.push (rest.take n) = some pipe) :
    Fed given fed { s with «at» := .writing (rest.drop n), stdin := pipe } := by
  have hu : s.unsent = rest := by simp [State.unsent, hw]
  have ⟨_, hb, hr⟩ := Pipe.push_eq hp
  obtain ⟨dropped, hi, hd⟩ := f.split
  refine ⟨⟨dropped, ?_, fun h => hd (hr ▸ h)⟩, fun hc => ?_⟩
  · rw [← hi, hu, hb]
    simp [State.unsent]
  · have hn : rest = [] := hu ▸ f.closed (Pipe.push_writer hp ▸ hc)
    simp [State.unsent, hn]

theorem advance (f : Fed given fed s) (h : advance terminal req s m = some s') : Fed given fed s' := by
  cases advances h
  case write hw hp            => exact f.write hw hp
  case read | eof             => exact f.still rfl rfl
  case finish hc _            => exact f.still rfl (by simp [State.unsent, hc])
  case expire hc _ _          => exact f.still rfl (by simp [State.unsent, hc])
  case kill hg _              => exact f.still rfl (by simp [State.unsent, hg])
  case broken =>
    simp only [GatedTerminal.advance] at h
    split at h
    case h_2 => cases h
    case h_1 => split at h <;> cases h; exact f.collect <| .inl (Bool.eq_false_iff.mpr ‹_›)
  case close =>
    simp only [GatedTerminal.advance] at h
    split at h
    case h_2    => cases h
    case h_1 hw => exact f.collect <| .inr (by simp [State.unsent, hw])

theorem happen {w : World} (f : Fed given fed s) (h : happen s w = some s') :
    Fed given (fed ++ intake s (.world w) s') s' := by
  cases happens h
  case takes n =>
    obtain ⟨split, closed⟩ := f
    refine ⟨?_, closed⟩
    have hb : s.stdin.buffer.take n ++ (s.stdin.pull n).buffer = s.stdin.buffer := List.take_append_drop ..
    rw [List.append_assoc fed, intake, hb]
    exact split
  all_goals show Fed given (fed ++ []) _; rw [List.append_nil]
  case drops =>
    obtain ⟨⟨dropped, hi, _⟩, closed⟩ := f
    exact ⟨⟨dropped, hi, nofun⟩, closed⟩
  all_goals exact f.still rfl rfl

theorem step (f : Fed given fed s) (h : step terminal req s e = some s') :
    Fed given (fed ++ intake s e s') s' := by
  cases e
  case exec  => exact (List.append_nil fed).symm ▸ f.advance h
  case world => exact f.happen h

theorem spawned : Fed (input req) [] (spawned terminal req capacity capacities) := by
  rw [input, GatedTerminal.spawned]
  split
  case h_1 h => exact ⟨⟨[], by simp [h, State.unsent]⟩, fun h => by cases h⟩
  case h_2 h => exact ⟨⟨[], by simp [h, State.unsent, GatedTerminal.collect]⟩, fun _ => rfl⟩

end Fed

-- Whatever a command does in whatever order, it reads its input from the beginning, nothing twice and nothing
-- left out. Before its output is gathered all of the input is in its reach, unless it has stopped reading.
theorem stdin_in_order (t : Trace (Fires <| step terminal req) intake (spawned terminal req capacity capacities) fed s) :
    fed ++ s.stdin.buffer <+: input req ∧
    (s.stdin.reader → s.stdin.writer = false → fed ++ s.stdin.buffer = input req) := by
  have f : Fed (input req) fed s := t.gathers (Fed (input req)) .spawned fun f h => f.step h
  obtain ⟨dropped, hi, hd⟩ := f.split
  constructor
  case left  => exact ⟨s.unsent ++ dropped, by rw [← hi, List.append_assoc (fed ++ _)]⟩
  case right =>
    intro hr hw
    rw [← hi, hd hr, f.closed hw, List.append_nil, List.append_nil]

def cat : ExecRequest :=
  { printf with command := "cat", stdin := "ab" }

-- The second byte waits until the first one is read.
def copied : List Event :=
  [.exec (.write 1), .world (.takes 1), .exec (.write 1), .exec .close]

theorem stdin_in_order_copied : ∃ s,
    Trace (Fires <| step (cappedAt 6) cat) intake (spawned (cappedAt 6) cat 1 fun _ => 65536) [97] s ∧
    [97] ++ s.stdin.buffer = input cat := by
  have ⟨s, hs, hr⟩ : ∃ s, replay (step (cappedAt 6) cat) (spawned (cappedAt 6) cat 1 fun _ => 65536) copied = some s ∧
      s.stdin.reader ∧ s.stdin.writer = false := ⟨_, rfl, rfl, rfl⟩
  have t : Trace (Fires <| step (cappedAt 6) cat) intake _ [97] s := Trace.observed hs
  exact ⟨s, t, (stdin_in_order t).2 hr.1 hr.2⟩

end Stdin

end GatedTerminal
