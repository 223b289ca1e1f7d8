import ZyrisDocker.Terminal.Theorems.Step

open Text Transition

namespace GatedTerminal

variable {terminal : GatedTerminal} {req : ExecRequest} {s s' : State} {m : Move} {w : World} {e : Event}

-- The call can do nothing by itself before something else happens.
def Waiting (terminal : GatedTerminal) (req : ExecRequest) (s : State) : Prop :=
  (∀ out, s.at ≠ .returned out) ∧ ∀ m, advance terminal req s m = none

-- The effective timeout was started.
def Armed (terminal : GatedTerminal) (req : ExecRequest) (s : State) : Prop :=
  ∃ start ≤ s.now, s.deadline = some (start + terminal.effectiveTimeout req.timeoutMs)

-- What a step changes of what the waits depend on.
inductive Effect (terminal : GatedTerminal) (req : ExecRequest) (s : State) : State → Prop
  | wrote (writing : s.at = .writing rest) (pushed : s.stdin.push (rest.take n) = some stdin) :
    Effect terminal req s { s with «at» := .writing (rest.drop n), stdin }
  | collected (writing : s.at = .writing rest) : Effect terminal req s (collect terminal req s)
  | output : Effect terminal req s (s.setOutput stream output)
  | drained (capacity : stdin.capacity = s.stdin.capacity) (buffer : stdin.buffer.length ≤ s.stdin.buffer.length) :
    Effect terminal req s { s with stdin }
  | exited : Effect terminal req s { s with status }
  | passed (timely : s.timer.all (s.now + d ≤ ·)) : Effect terminal req s { s with now := s.now + d }
  | expired (collecting : s.at = .collecting) (deadline : s.deadline = some d) (due : d ≤ s.now) :
    Effect terminal req s { s with «at» := .grace (s.now + killGrace) }
  | returned (waiting : s.at = .collecting ∨ ∃ d, s.at = .grace d) :
    Effect terminal req s { s with «at» := .returned out }

theorem Advances.effect (a : Advances terminal req s m s') : Effect terminal req s s' := by
  cases a
  case write writing pushed            => exact .wrote writing pushed
  case broken writing | close writing  => exact .collected writing
  case read | eof                      => exact .output
  case finish collecting _             => exact .returned (.inl collecting)
  case expire collecting deadline due  => exact .expired collecting deadline due
  case kill grace _                    => exact .returned (.inr ⟨_, grace⟩)

theorem Happens.effect (h : Happens s w s') : Effect terminal req s s' := by
  cases h
  case takes               => exact .drained rfl (Pipe.pull_length_le _ _)
  case drops               => exact .drained rfl (le_refl _)
  case puts | ends | fails => exact .output
  case exits               => exact .exited
  case tick timely         => exact .passed timely

theorem step_effect (h : step terminal req s e = some s') : Effect terminal req s s' := by
  cases e
  case exec  => exact (advances h).effect
  case world => exact (happens h).effect

variable {capacity : Nat} {capacities : Stream → Nat} {rest : Bytes}

-- Once the input is written, or given up, the timeout is started.
def Started (terminal : GatedTerminal) (req : ExecRequest) (s : State) : Prop :=
  (∃ rest, s.at = .writing rest) ∨ Armed terminal req s

-- The rest of the input fits into its pipe.
def Fits (s : State) : Prop :=
  ∀ rest, s.at = .writing rest → rest.length + s.stdin.buffer.length ≤ s.stdin.capacity

theorem collect_armed : Armed terminal req (collect terminal req s) :=
  ⟨s.now, le_refl _, rfl⟩

theorem spawned_started : Started terminal req (spawned terminal req capacity capacities) := by
  simp only [spawned]
  split
  case h_1 => exact .inl ⟨_, rfl⟩
  case h_2 => exact .inr collect_armed

theorem started_step (h : Started terminal req s) (hs : step terminal req s e = some s') :
    Started terminal req s' := by
  cases step_effect hs
  case wrote               => exact .inl ⟨_, rfl⟩
  case collected           => exact .inr collect_armed
  case output | drained | exited => exact h
  case passed              =>
    refine h.imp_right fun ⟨start, hl, hd⟩ => ⟨start, ?_, hd⟩
    exact Nat.le_trans hl (Nat.le_add_right _ _)
  case expired collecting _ _ =>
    cases h
    case inl h => exact nomatch collecting.symm.trans h.choose_spec
    case inr h => exact .inr h
  case returned waiting =>
    cases h
    case inr h => exact .inr h
    case inl h =>
      have ⟨_, h⟩ := h
      simp [h] at waiting

theorem spawned_fits (h : ∀ text, req.stdin = some text → (utf8 text.toList).length ≤ capacity) :
    Fits (spawned terminal req capacity capacities) := by
  simp only [spawned]
  split
  case h_1 ht => intro rest hr; cases hr; simpa using h _ ht
  case h_2    => intro rest hr; cases hr

theorem fits_step (h : Fits s) (hs : step terminal req s e = some s') : Fits s' := by
  intro rest' hr
  cases step_effect hs
  case output | exited | passed => exact h rest' hr
  case collected | expired | returned => cases hr
  case drained hc hb =>
    have := h rest' hr
    simp only [hc]
    omega
  case wrote hw hp =>
    cases hr
    have := h _ hw
    have ⟨hc, hb, _⟩ := Pipe.push_eq hp
    simp only [hc, hb, List.length_append, List.length_take, List.length_drop]
    omega

-- While the input fits, writing it does not have to wait for the child.
theorem not_waiting_writing (h : Fits s) (hw : s.at = .writing rest) : ¬Waiting terminal req s := by
  intro ⟨_, stuck⟩
  cases rest
  case nil => simpa [advance, hw] using stuck .close
  case cons b rest =>
    cases hr : s.stdin.reader
    case false => simpa [advance, hw, hr] using stuck .broken
    case true  =>
      have fits := h _ hw
      have pushed : (s.stdin.push ((b :: rest).take 1)).isSome := by
        rw [Pipe.push_isSome_iff, Pipe.room, List.length_take]
        rw [List.length_cons] at fits ⊢
        omega
      have := stuck (.write 1)
      simp_all [advance]

-- A child that does not read keeps the call waiting when the pipe is full.
theorem waiting_full (hw : s.at = .writing rest) (hr : rest ≠ []) (full : s.stdin.room = 0) (reader : s.stdin.reader) :
    Waiting terminal req s := by
  constructor
  case left  => simp [hw]
  case right =>
    intro m
    cases m <;> simp only [advance, hw, reader]
    case write n =>
      split
      case isFalse => rfl
      case isTrue hn =>
        have hp : ¬(s.stdin.push (rest.take n)).isSome := by
          rw [Pipe.push_isSome_iff, full, List.length_take]
          omega
        simp_all
    case broken => split <;> simp_all
    case close  => split <;> simp_all

theorem write_fills (terminal : GatedTerminal) (req : ExecRequest) (hw : s.at = .writing rest)
    (empty : s.stdin.buffer = []) (reader : s.stdin.reader) (hc : 0 < s.stdin.capacity)
    (hl : s.stdin.capacity < rest.length) :
    ∃ stdin : Pipe, stdin.room = 0 ∧ stdin.reader ∧
      step terminal req s (.exec (.write s.stdin.capacity)) =
        some { s with «at» := .writing (rest.drop s.stdin.capacity), stdin } := by
  have pushed : (s.stdin.push (rest.take s.stdin.capacity)).isSome := by
    rw [Pipe.push_isSome_iff, Pipe.room_of_empty empty]
    exact List.length_take_le _ _
  have ⟨stdin, hp⟩ := Option.isSome_iff_exists.mp pushed
  have ⟨_, _, hr⟩ := Pipe.push_eq hp
  refine ⟨stdin, ?_, hr.trans reader, ?_⟩
  · rw [Pipe.push_room hp, Pipe.room_of_empty empty, List.length_take]
    omega
  · simp [step, advance, hw, hp, hc, Nat.le_of_lt hl, reader]

-- A child that reads nothing gets the call to wait before the timeout is started.
theorem waiting_overflow (terminal : GatedTerminal) (req : ExecRequest) (capacities : Stream → Nat)
    (ht : req.stdin = some text) (hl : capacity < (utf8 text.toList).length) :
    ∃ es s, Run (Fires (step terminal req)) (spawned terminal req capacity capacities) es s ∧
      Waiting terminal req s ∧ s.deadline = none := by
  let s : State := {
    «at»     := .writing (utf8 text.toList)
    stdin    := { capacity }
    output   := fun stream => { pipe := { capacity := capacities stream } }
    status   := none
    now      := 0
    deadline := none
  }
  have hs : spawned terminal req capacity capacities = s := by simp only [spawned, ht, s]
  rw [hs]
  cases Nat.eq_zero_or_pos capacity
  case inl hc =>
    refine ⟨[], s, .refl, waiting_full rfl ?_ ((Pipe.room_of_empty rfl).trans hc) rfl, rfl⟩
    exact List.ne_nil_of_length_pos (Nat.zero_lt_of_lt hl)
  case inr hc =>
    obtain ⟨stdin, full, reader, fills⟩ := write_fills (s := s) terminal req rfl rfl rfl hc hl
    refine ⟨_, _, .single fills, waiting_full rfl ?_ full reader, rfl⟩
    exact fun hn => absurd (List.drop_eq_nil_iff.mp hn) (Nat.not_le_of_lt hl)

theorem deadline_armed_iff :
    (∀ es s, Run (Fires (step terminal req)) (spawned terminal req capacity capacities) es s →
      Waiting terminal req s → Armed terminal req s) ↔
    ∀ text, req.stdin = some text → (utf8 text.toList).length ≤ capacity := by
  constructor
  case mp =>
    intro armed text ht
    refine Nat.le_of_not_lt fun hl => ?_
    have ⟨es, s, r, waiting, hd⟩ := waiting_overflow terminal req capacities ht hl
    have ⟨_, _, hd'⟩ := armed es s r waiting
    exact nomatch hd.symm.trans hd'
  case mpr =>
    intro fits es s r waiting
    have started := r.preserves spawned_started fun _ _ _ => started_step
    have fits    := r.preserves (spawned_fits fits) fun _ _ _ => fits_step
    cases started
    case inl hw => exact absurd waiting (not_waiting_writing fits hw.choose_spec)
    case inr ha => exact ha

theorem length_utf8_replicate (n : Nat) : (utf8 <| List.replicate n 'a').length = n := by
  induction n
  case zero      => rfl
  case succ n ih =>
    rw [List.replicate_succ, utf8_cons, List.length_append, ih]
    exact Nat.add_comm _ _

-- One byte more than the pipe takes, for a command that does not read it.
theorem not_deadline_armed :
    ¬∀ terminal req capacity capacities es s,
      Run (Fires (step terminal req)) (spawned terminal req capacity capacities) es s →
      Waiting terminal req s → Armed terminal req s := by
  intro h
  let terminal : GatedTerminal := { gate := ⟨[[.root]], []⟩, maxOutputBytes := 262144, execTimeout := .fromSecs 120 }
  let req : ExecRequest := {
    command   := "sleep 3600"
    argv      := none
    cwd       := none
    timeoutMs := some 1000
    stdin     := some <| .ofList <| List.replicate 65537 'a'
    env       := none
    shell     := none
  }
  have overflow : 65536 < (utf8 (String.ofList <| List.replicate 65537 'a').toList).length := by
    rw [String.toList_ofList, length_utf8_replicate]
    decide
  have ⟨es, s, r, waiting, hd⟩ := waiting_overflow terminal req (fun _ => 65536) rfl overflow
  have ⟨_, _, hd'⟩ := h terminal req 65536 (fun _ => 65536) es s r waiting
  exact nomatch hd.symm.trans hd'

-- The timers elapse at the latest when they are due, and the grace period follows the timeout.
def Timely (s : State) : Prop :=
  match s.at with
  | .writing _    => s.deadline = none
  | .collecting   => ∃ d, s.deadline = some d ∧ s.now ≤ d
  | .grace due    => ∃ d, s.deadline = some d ∧ s.now ≤ due ∧ due ≤ d + killGrace
  | .returned _   => True

theorem collect_timely : Timely (collect terminal req s) :=
  ⟨_, rfl, Nat.le_add_right _ _⟩

theorem spawned_timely : Timely (spawned terminal req capacity capacities) := by
  simp only [spawned]
  split
  case h_1 => rfl
  case h_2 => exact collect_timely

theorem timely_step (h : Timely s) (hs : step terminal req s e = some s') : Timely s' := by
  cases step_effect hs
  case wrote hw _          => simpa [Timely, hw] using h
  case collected           => exact collect_timely
  case output | drained | exited => exact h
  case returned            => trivial
  case expired hc hd due   =>
    simp only [Timely, hc, hd, Option.some.injEq, exists_eq_left'] at h ⊢
    exact ⟨Nat.le_add_right _ _, Nat.add_le_add_right h _⟩
  case passed d ht         =>
    simp only [Timely, State.timer] at h ht ⊢
    split at h <;> rename_i ha <;> simp only [ha] at ht ⊢
    case h_1 => exact h
    case h_2 =>
      have ⟨t, hd, _⟩ := h
      exact ⟨t, hd, by simpa [hd] using ht⟩
    case h_3 =>
      have ⟨t, hd, _, hg⟩ := h
      exact ⟨t, hd, by simpa using ht, hg⟩

-- Once the timeout was started, the call returns within the grace period after it.
theorem returns_by_deadline (r : Run (Fires (step terminal req)) (spawned terminal req capacity capacities) es s)
    (hd : s.deadline = some d) : (∃ out, s.at = .returned out) ∨ s.now ≤ d + killGrace := by
  have timely := r.preserves spawned_timely fun _ _ _ => timely_step
  simp only [Timely] at timely
  split at timely
  case h_1 => exact nomatch hd.symm.trans timely
  case h_2 =>
    have ⟨_, hd', hn⟩ := timely
    cases hd.symm.trans hd'
    exact .inr <| Nat.le_trans hn (Nat.le_add_right _ _)
  case h_3 =>
    have ⟨_, hd', hn, hg⟩ := timely
    cases hd.symm.trans hd'
    exact .inr <| Nat.le_trans hn hg
  case h_4 ha => exact .inl ⟨_, ha⟩

end GatedTerminal
