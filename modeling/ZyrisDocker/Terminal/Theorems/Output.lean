import ZyrisDocker.Lib.Lossy
import ZyrisDocker.Terminal.Theorems.Capped
import ZyrisDocker.Terminal.Theorems.Step

open Text Transition

namespace GatedTerminal

variable {terminal : GatedTerminal} {req : ExecRequest} {s s' : State} {e : Event} {events : List Event}
variable {stream : Stream} {cap capacity : Nat} {capacities : Stream → Nat} {bs : Bytes}

def marker : String := "\n… output truncated at the cap"

-- At most as many bytes as the cap, followed by the marker exactly if there was more.
def Bounded (cap : Nat) (bs : Bytes) (text : String) : Prop :=
  ∃ body : String, text = body ++ (if cap < bs.length then marker else "") ∧ (utf8 body.toList).length ≤ cap

theorem finish_ofStream : finish (.ofStream cap bs) =
    .ofList (fromUtf8Lossy (bs.take cap)) ++ (if cap < bs.length then marker else "") := by
  simp only [finish, Capped.ofStream_out]
  simp only [Capped.ofStream, decide_eq_true_eq]
  split <;> simp [marker]

-- The text of what is kept is as long as the cap allows exactly if the kept bytes do not grow by more
-- than what is left below the cap.
theorem bounded_finish_iff :
    Bounded cap bs (finish (.ofStream cap bs)) ↔ growth none 0 (bs.take cap) ≤ cap - bs.length := by
  have hl := length_utf8_fromUtf8Lossy (bs.take cap)
  rw [List.length_take] at hl
  rw [finish_ofStream]
  constructor
  case mp =>
    intro ⟨body, he, hb⟩
    rw [← String.append_left_inj _ |>.mp he, String.toList_ofList] at hb
    omega
  case mpr =>
    intro h
    exact ⟨_, rfl, by rw [String.toList_ofList]; omega⟩

-- The bytes that an event puts into a stream, and the number of those that it takes out.
def Event.puts (stream : Stream) : Event → Bytes
  | .world (.puts stream' bytes) => if stream' = stream then bytes else []
  | _                            => []

def Event.takes (stream : Stream) : Event → Nat
  | .exec (.read stream' n) => if stream' = stream then n else 0
  | _                       => 0

def written (stream : Stream) (events : List Event) : Bytes :=
  events.flatMap (Event.puts stream)

def taken (stream : Stream) (events : List Event) : Nat :=
  events.foldl (fun n e => n + e.takes stream) 0

-- What was read of a stream up to its end, or up to an error.
def delivered (stream : Stream) (events : List Event) : Bytes :=
  (written stream events).take (taken stream events)

-- A step moves bytes through the pipe of a stream into what is kept of it.
structure Moves (terminal : GatedTerminal) (stream : Stream) (s : State) (e : Event) (s' : State) : Prop where
  takes  : e.takes stream ≤ (s.output stream).pipe.buffer.length
  buffer : (s'.output stream).pipe.buffer = (s.output stream).pipe.buffer.drop (e.takes stream) ++ e.puts stream
  kept   : (s'.output stream).kept =
    (s.output stream).kept.add terminal.maxOutputBytes ((s.output stream).pipe.buffer.take (e.takes stream))

theorem Capped.add_nil (kept : Capped) : kept.add cap [] = kept := by
  simp [add]

theorem Moves.still (hp : e.puts stream = []) (ht : e.takes stream = 0) (ho : s'.output stream = s.output stream) :
    Moves terminal stream s e s' where
  takes  := by simp [ht]
  buffer := by simp [hp, ht, ho]
  kept   := by simp [ht, ho, Capped.add_nil]

theorem setOutput_self {output : Output} : (s.setOutput stream output).output stream = output :=
  Function.update_self ..

theorem setOutput_other {stream' : Stream} {output : Output} (h : stream' ≠ stream) :
    (s.setOutput stream' output).output stream = s.output stream :=
  Function.update_of_ne h.symm ..

-- Only whether the stream has ended may change.
theorem Moves.setOutput {stream' : Stream} {output : Output} (hp : e.puts stream = []) (ht : e.takes stream = 0)
    (hb : output.pipe.buffer = (s.output stream').pipe.buffer) (hk : output.kept = (s.output stream').kept) :
    Moves terminal stream s e (s.setOutput stream' output) := by
  by_cases hs : stream' = stream
  case neg => exact .still hp ht (setOutput_other hs)
  case pos =>
    subst hs
    exact {
      takes  := by simp [ht]
      buffer := by rw [setOutput_self, hb, hp, ht]; simp
      kept   := by rw [setOutput_self, hk, ht]; simp [Capped.add_nil]
    }

theorem Advances.moves (a : Advances terminal req s m s') : Moves terminal stream s (.exec m) s' := by
  cases a
  case write | broken | close | finish | expire | kill => exact .still rfl rfl rfl
  case eof                     => exact .setOutput rfl rfl rfl rfl
  case read stream' n _ _ le   =>
    by_cases hs : stream' = stream
    case neg => exact .still rfl (if_neg hs) (setOutput_other hs)
    case pos =>
      subst hs
      have ht : (Event.exec (.read stream' n)).takes stream' = n := if_pos rfl
      exact {
        takes  := by rw [ht]; exact le
        buffer := by rw [ht, setOutput_self]; simp [Event.puts]
        kept   := by rw [ht, setOutput_self]
      }

theorem Happens.moves (h : Happens s w s') : Moves terminal stream s (.world w) s' := by
  cases h
  case takes | drops | exits | tick => exact .still rfl rfl rfl
  case ends | fails                 => exact .setOutput rfl rfl rfl rfl
  case puts stream' bytes pipe _ pushed =>
    obtain ⟨-, hb, -⟩ := Pipe.push_eq pushed
    by_cases hs : stream' = stream
    case neg => exact .still (if_neg hs) rfl (setOutput_other hs)
    case pos =>
      subst hs
      have hp : (Event.world (.puts stream' bytes)).puts stream' = bytes := if_pos rfl
      exact {
        takes  := Nat.zero_le _
        buffer := by rw [hp, setOutput_self]; exact hb
        kept   := by rw [setOutput_self]; exact (Capped.add_nil _).symm
      }

theorem step_moves (h : step terminal req s e = some s') : Moves terminal stream s e s' := by
  cases e
  case exec  => exact (advances h).moves
  case world => exact (happens h).moves

-- In a run, what was taken out of a stream is kept of it, and the rest of what was written is left.
structure Gathered (terminal : GatedTerminal) (stream : Stream) (events : List Event) (s : State) : Prop where
  le     : taken stream events ≤ (written stream events).length
  buffer : (s.output stream).pipe.buffer = (written stream events).drop (taken stream events)
  kept   : (s.output stream).kept = .ofStream terminal.maxOutputBytes (delivered stream events)

-- Nothing was read of a stream or put into it yet.
structure Output.Fresh (output : Output) : Prop where
  buffer : output.pipe.buffer = []
  kept   : output.kept = {}
  ended  : output.ended = false

theorem spawned_fresh : ((spawned terminal req capacity capacities).output stream).Fresh := by
  cases h : req.stdin
  all_goals
    rw [spawned, h]
    exact ⟨rfl, rfl, rfl⟩

theorem spawned_gathered : Gathered terminal stream [] (spawned terminal req capacity capacities) where
  le     := Nat.le_refl _
  buffer := spawned_fresh.buffer
  kept   := by rw [spawned_fresh.kept]; simp [delivered, written]

theorem written_snoc : written stream (events ++ [e]) = written stream events ++ e.puts stream := by
  simp [written]

theorem taken_snoc : taken stream (events ++ [e]) = taken stream events + e.takes stream := by
  simp [taken]

theorem Gathered.step (g : Gathered terminal stream events s) (m : Moves terminal stream s e s') :
    Gathered terminal stream (events ++ [e]) s' := by
  have ht := m.takes
  rw [g.buffer, List.length_drop] at ht
  have hl : taken stream events + e.takes stream ≤ (written stream events).length := by
    have := g.le
    omega
  have hd : delivered stream (events ++ [e]) =
      delivered stream events ++ ((written stream events).drop (taken stream events)).take (e.takes stream) := by
    rw [delivered, written_snoc, taken_snoc, List.take_append_of_le_length hl, List.take_add, delivered]
  exact {
    le     := by rw [written_snoc, taken_snoc, List.length_append]; omega
    buffer := by rw [m.buffer, g.buffer, written_snoc, taken_snoc, List.drop_append_of_le_length hl, List.drop_drop]
    kept   := by rw [m.kept, g.kept, g.buffer, hd, Capped.add_ofStream]
  }

theorem run_gathered (r : Run (Fires (step terminal req)) (spawned terminal req capacity capacities) events s) :
    Gathered terminal stream events s :=
  r.snoc_induction spawned_gathered fun _ _ _ _ _ h g => g.step <| step_moves h

-- The command may still deliver something.
def Suspension.IsOpen : Suspension → Prop
  | .writing _ | .collecting => True
  | _                        => False

-- How a step continues the call.
inductive Turn (s : State) : Event → State → Prop
  | world (same : t.at = s.at) : Turn s (.world w) t
  | works (before : s.at.IsOpen) (after : t.at.IsOpen) (timely : m ≠ .expire) : Turn s (.exec m) t
  | expires (collecting : s.at = .collecting) : Turn s (.exec .expire) { s with «at» := .grace due }
  | finishes (ended : ∀ stream, (s.output stream).ended) (collecting : s.at = .collecting) :
    Turn s (.exec .finish) { s with «at» := .returned (completed s code) }
  | kills (grace : s.at = .grace due) : Turn s (.exec .kill) { s with «at» := .returned timedOut }

theorem Advances.turn (a : Advances terminal req s m s') : Turn s (.exec m) s' := by
  cases a
  case write writing _                 => exact .works (by rw [writing]; trivial) trivial (by simp)
  case broken writing | close writing  => exact .works (by rw [writing]; trivial) trivial (by simp)
  case read hc _ _ | eof hc _ _        =>
    have collecting : s.at.IsOpen := by rw [hc]; trivial
    exact .works collecting collecting (by simp)
  case finish collecting ended         => exact .finishes ended collecting
  case expire collecting _ _           => exact .expires collecting
  case kill grace _                    => exact .kills grace

theorem Happens.turn (h : Happens s w s') : Turn s (.world w) s' := by
  cases h <;> exact .world rfl

theorem step_turn (h : step terminal req s e = some s') : Turn s e s' := by
  cases e
  case exec  => exact (advances h).turn
  case world => exact (happens h).turn

-- Whether the timeout expired decides what the call returns.
def Outcome (events : List Event) (s : State) : Prop :=
  match s.at with
  | .writing _ | .collecting => .exec .expire ∉ events
  | .grace _                 => .exec .expire ∈ events
  | .returned out            =>
    (.exec .expire ∈ events ∧ out = timedOut) ∨
    (.exec .expire ∉ events ∧ (∀ stream, (s.output stream).ended) ∧ ∃ code, out = completed s code)

theorem spawned_outcome : Outcome [] (spawned terminal req capacity capacities) := by
  simp only [spawned]
  split <;> simp [Outcome, collect]

theorem outcome_of_isOpen (h : s.at.IsOpen) : Outcome events s ↔ .exec .expire ∉ events := by
  simp only [Outcome]
  split <;> simp_all [Suspension.IsOpen]

-- Of what happens around the call, nothing makes a stream go on that had ended.
theorem Happens.ended (h : Happens s w s') (he : (s.output stream).ended) : (s'.output stream).ended := by
  have set {stream' : Stream} {output : Output} (ho : stream' = stream → output.ended) :
      ((s.setOutput stream' output).output stream).ended := by
    by_cases hs : stream' = stream
    case pos => subst hs; rw [setOutput_self]; exact ho rfl
    case neg => rw [setOutput_other hs]; exact he
  cases h
  case takes | drops | exits | tick => exact he
  case puts | ends                  => exact set fun hs => hs ▸ he
  case fails                        => exact set fun _ => rfl

theorem world_kept (h : step terminal req s (.world w) = some s') :
    (s'.output stream).kept = (s.output stream).kept := by
  have ht : (Event.world w).takes stream = 0 := by cases w <;> rfl
  rw [(step_moves h).kept, ht]
  exact Capped.add_nil _

theorem completed_congr (h : ∀ stream, (s'.output stream).kept = (s.output stream).kept) :
    completed s' code = completed s code := by
  simp [completed, h]

theorem Outcome.step (h : Outcome events s) (hs : step terminal req s e = some s') : Outcome (events ++ [e]) s' := by
  cases step_turn hs
  case works before timely after =>
    rw [outcome_of_isOpen after]
    rw [outcome_of_isOpen before] at h
    simpa [timely.symm] using h
  case expires => simp [Outcome]
  case finishes ended collecting =>
    simp only [Outcome, collecting] at h
    exact .inr ⟨by simpa using h, ended, _, rfl⟩
  case kills grace =>
    simp only [Outcome, grace] at h
    exact .inl ⟨List.mem_append_left _ h, rfl⟩
  case world same =>
    simp only [Outcome, same, List.mem_append, List.mem_singleton, reduceCtorEq, or_false] at h ⊢
    split at h
    case h_4 =>
      refine h.imp_right fun ⟨ht, ended, code, he⟩ => ⟨ht, fun stream => (happens hs).ended (ended stream), code, ?_⟩
      rw [he, completed_congr fun _ => world_kept hs]
    all_goals exact h

theorem run_outcome (r : Run (Fires (step terminal req)) (spawned terminal req capacity capacities) events s) :
    Outcome events s :=
  r.snoc_induction spawned_outcome fun _ _ _ _ _ h o => o.step h

-- Nothing is left of a stream, and nothing can follow.
structure Output.Drained (output : Output) : Prop where
  buffer : output.pipe.buffer = []
  writer : output.pipe.writer = false

-- Of a stream that has ended: a read failed, it is drained, or it had ended before.
def Ending (s : State) (e : Event) (stream : Stream) (s' : State) : Prop :=
  e = .world (.fails stream) ∨ (s'.output stream).Drained ∨
  ((s.output stream).ended ∧ ((s.output stream).Drained → (s'.output stream).Drained))

theorem ending_still (h : s'.output stream = s.output stream) (he : (s'.output stream).ended) : Ending s e stream s' :=
  .inr <| .inr ⟨h ▸ he, h ▸ id⟩

theorem ending_ended {stream' : Stream} {output : Output} (he : ((s.setOutput stream' output).output stream).ended)
    (h : stream' = stream → Ending s e stream (s.setOutput stream output)) :
    Ending s e stream (s.setOutput stream' output) := by
  by_cases hs : stream' = stream
  case pos => subst hs; exact h rfl
  case neg => exact ending_still (setOutput_other hs) he

theorem Advances.ending (a : Advances terminal req s m s') (he : (s'.output stream).ended) :
    Ending s (.exec m) stream s' := by
  cases a
  case write | broken | close | finish | expire | kill => exact ending_still rfl he
  case read going _ =>
    refine ending_ended he ?_
    rintro rfl
    rw [setOutput_self] at he
    exact absurd he (by simp [going])
  case eof buffer writer =>
    refine ending_ended he ?_
    rintro rfl
    refine .inr <| .inl ?_
    rw [setOutput_self]
    exact ⟨buffer, writer⟩

theorem Happens.ending (h : Happens s w s') (he : (s'.output stream).ended) : Ending s (.world w) stream s' := by
  cases h
  case takes | drops | exits | tick => exact ending_still rfl he
  case fails =>
    refine ending_ended he ?_
    rintro rfl
    exact .inl rfl
  case ends =>
    refine ending_ended he ?_
    rintro rfl
    rw [setOutput_self] at he
    refine .inr <| .inr ⟨he, fun hd => ?_⟩
    rw [setOutput_self]
    exact { buffer := hd.buffer, writer := rfl }
  case puts writer _ =>
    refine ending_ended he ?_
    rintro rfl
    rw [setOutput_self] at he
    refine .inr <| .inr ⟨he, fun hd => ?_⟩
    simp [hd.writer] at writer

theorem step_ending (h : step terminal req s e = some s') (he : (s'.output stream).ended) : Ending s e stream s' := by
  cases e
  case exec  => exact (advances h).ending he
  case world => exact (happens h).ending he

theorem run_drained (r : Run (Fires (step terminal req)) (spawned terminal req capacity capacities) events s)
    (he : (s.output stream).ended) : .world (.fails stream) ∈ events ∨ (s.output stream).Drained := by
  revert he
  refine r.snoc_induction
    (motive := fun events s => (s.output stream).ended → .world (.fails stream) ∈ events ∨ (s.output stream).Drained) ?refl ?snoc
  case refl => simp [spawned_fresh.ended]
  case snoc =>
    intro events s e s' _ h ih he
    rcases step_ending h he with rfl | hd | ⟨he, hd⟩
    · exact .inl (by simp)
    · exact .inr hd
    · exact (ih he).imp (List.mem_append_left _) hd

-- What is delivered of a stream that could be read to its end is all that was written.
theorem delivered_eq_written
    (r : Run (Fires (step terminal req)) (spawned terminal req capacity capacities) events s)
    (hs : s.at = .returned out) (ht : .exec .expire ∉ events) (hf : .world (.fails stream) ∉ events) :
    delivered stream events = written stream events := by
  have ho := run_outcome r
  simp only [Outcome, hs] at ho
  have he := (ho.resolve_left fun h => ht h.1).2.1 stream
  have hd := (run_drained r he).resolve_left hf
  have hb := (run_gathered r).buffer.symm.trans hd.buffer
  exact List.take_of_length_le <| List.drop_eq_nil_iff.mp hb

def outputOf (out : ExecOutput) : Stream → String
  | .stdout => out.stdout
  | .stderr => out.stderr

theorem outputOf_completed : outputOf (completed s code) stream = finish (s.output stream).kept := by
  cases stream <;> rfl

theorem bounded_iff_of_no_marker {text : String} (h : ¬marker.toList <:+ text.toList) :
    Bounded cap bs text ↔ bs.length ≤ cap ∧ (utf8 text.toList).length ≤ cap := by
  constructor
  case mp =>
    intro ⟨body, he, hb⟩
    split at he
    case isTrue  => exact absurd ⟨body.toList, by rw [he, String.toList_append]⟩ h
    case isFalse => exact ⟨by omega, by rwa [he, String.append_empty]⟩
  case mpr =>
    intro ⟨hl, ht⟩
    exact ⟨text, by rw [if_neg (by omega), String.append_empty], ht⟩

-- On a timeout, fixed texts are returned.
theorem bounded_timedOut_iff : Bounded cap bs (outputOf timedOut stream) ↔
    bs.length ≤ cap ∧ (stream = .stderr → 52 ≤ cap) := by
  cases stream
  case stdout =>
    rw [bounded_iff_of_no_marker (by decide)]
    simp [outputOf, timedOut]
  case stderr =>
    rw [bounded_iff_of_no_marker (by decide), show (utf8 (outputOf timedOut .stderr).toList).length = 52 by decide]
    simp

-- A call that does not time out returns what is to be kept of its streams.
theorem outputOf_returned
    (r : Run (Fires (step terminal req)) (spawned terminal req capacity capacities) events s)
    (hs : s.at = .returned out) (ht : .exec .expire ∉ events) :
    outputOf out stream = finish (.ofStream terminal.maxOutputBytes (delivered stream events)) := by
  have ho := run_outcome r
  simp only [Outcome, hs] at ho
  obtain ⟨_, _, code, rfl⟩ := ho.resolve_left fun h => ht h.1
  rw [outputOf_completed, (run_gathered r).kept]

-- If what is kept is text, nothing is added to it.
theorem bounded_of_isUtf8
    (r : Run (Fires (step terminal req)) (spawned terminal req capacity capacities) events s)
    (hs : s.at = .returned out) (ht : .exec .expire ∉ events)
    (hu : IsUtf8 ((delivered stream events).take terminal.maxOutputBytes)) :
    Bounded terminal.maxOutputBytes (delivered stream events) (outputOf out stream) := by
  rw [outputOf_returned r hs ht, bounded_finish_iff, growth_of_isUtf8 hu]
  exact Nat.zero_le _

-- What a call returns is bounded as long as it does not time out and the kept bytes do not grow by more
-- than what is left below the cap.
theorem exec_bounded_iff
    (r : Run (Fires (step terminal req)) (spawned terminal req capacity capacities) events s)
    (hs : s.at = .returned out) :
    Bounded terminal.maxOutputBytes (delivered stream events) (outputOf out stream) ↔
    (.exec .expire ∉ events ∧
      growth none 0 ((delivered stream events).take terminal.maxOutputBytes) ≤
        terminal.maxOutputBytes - (delivered stream events).length) ∨
    (.exec .expire ∈ events ∧ (delivered stream events).length ≤ terminal.maxOutputBytes ∧
      (stream = .stderr → 52 ≤ terminal.maxOutputBytes)) := by
  by_cases ht : .exec .expire ∈ events
  case neg => simp [ht, outputOf_returned r hs ht, bounded_finish_iff]
  case pos =>
    have ho := run_outcome r
    simp only [Outcome, hs] at ho
    obtain ⟨-, rfl⟩ := ho.resolve_right fun h => h.1 ht
    simp [ht, bounded_timedOut_iff]

def printf : ExecRequest where
  command   := "printf '\\377\\377'"
  argv      := none
  cwd       := none
  timeoutMs := none
  stdin     := none
  env       := none
  shell     := none

def cappedAt (maxOutputBytes : Nat) : GatedTerminal where
  gate           := ⟨[[.root]], []⟩
  maxOutputBytes := maxOutputBytes
  execTimeout    := .fromSecs 120

-- The command prints two bytes and exits.
def printed : List Event :=
  [.world (.puts .stdout [0xff, 0xff]), .world (.ends .stdout), .world (.ends .stderr), .world (.exits (some 0)),
    .exec (.read .stdout 2), .exec (.eof .stdout), .exec (.eof .stderr), .exec .finish]

theorem run_printed (maxOutputBytes : Nat) : ∃ s out, s.at = .returned out ∧
    Run (Fires (step (cappedAt maxOutputBytes) printf)) (spawned (cappedAt maxOutputBytes) printf 65536 fun _ => 65536) printed s :=
  ⟨_, _, rfl, Run.iff_replay.mpr rfl⟩

-- With a cap of six bytes, there is room for the replacements of both.
theorem printed_bounded : ∃ s out, s.at = .returned out ∧
    Run (Fires (step (cappedAt 6) printf)) (spawned (cappedAt 6) printf 65536 fun _ => 65536) printed s ∧
    Bounded 6 (delivered .stdout printed) (outputOf out .stdout) := by
  have ⟨s, out, hs, r⟩ := run_printed 6
  exact ⟨s, out, hs, r, (exec_bounded_iff r hs).mpr <| .inl ⟨by simp [printed], by decide⟩⟩

-- With a cap of four bytes, the text is longer than the cap.
theorem printed_not_bounded : ¬∀ terminal req capacity capacities events s out stream,
    Run (Fires (step terminal req)) (spawned terminal req capacity capacities) events s → s.at = .returned out →
    Bounded terminal.maxOutputBytes (delivered stream events) (outputOf out stream) := by
  intro h
  have ⟨_, out, hs, r⟩ := run_printed 4
  have hb := h _ _ _ _ _ _ out .stdout r hs
  rw [outputOf_returned r hs (by simp [printed]), bounded_finish_iff] at hb
  exact absurd hb (by decide)

end GatedTerminal
