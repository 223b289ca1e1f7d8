import ZyrisDocker.Lib.Simulation
import ZyrisDocker.Terminal.Processes
import ZyrisDocker.Terminal.Theorems.Output

open Transition Unix

namespace GatedTerminal.Tree

variable {terminal : GatedTerminal} {req : ExecRequest} {child : Nat} {s s' : State}

-- What each event does to the call and to the processes.
inductive Steps (terminal : GatedTerminal) (req : ExecRequest) (child : Nat) (s : State) : Event → State → Prop
  | exec (advanced : advance terminal req s.call m = some call) :
    Steps terminal req child s (.exec m) ({ s with call }.obey child m)
  | world (happened : happen s.call w = some call) : Steps terminal req child s (.world w) { s with call }
  | exits (acts : act (note child) s.table p .exit = some table) (happened : happen s.call (.exits code) = some call) :
    Steps terminal req child s (.world (.exits code)) { s with table, call }
  | process (acts : act (note child) s.table p a = some table) (held : s.holds → a = .reap → p.pid ≠ child) :
    Steps terminal req child s (.process p a) { s with table }

theorem steps (h : step child terminal req s e = some s') : Steps terminal req child s e s' := by
  cases e
  case exec m =>
    obtain ⟨_, ha, h⟩ := Option.bind_eq_some_iff.mp h
    cases h
    exact .exec ha
  case process p a =>
    simp only [step, Option.bind_eq_bind] at h
    split at h
    case isTrue     => cases h
    case isFalse hn =>
      obtain ⟨_, ha, h⟩ := Option.bind_eq_some_iff.mp h
      cases h
      exact .process ha fun hh hr hp => hn ⟨hp, hh, .inr hr⟩
  case world w =>
    obtain ⟨table, ht, h⟩ := Option.bind_eq_some_iff.mp h
    obtain ⟨call, hc, h⟩ := Option.bind_eq_some_iff.mp h
    cases h
    cases w
    case exits =>
      obtain ⟨p, _, ha⟩ := Option.bind_eq_some_iff.mp ht
      exact .exits ha hc
    all_goals
      cases ht
      exact .world hc

theorem happens_at {call call' : GatedTerminal.State} {w : World} (h : happen call w = some call') : call'.at = call.at := by
  cases happens h <;> rfl

variable {table : List (Unix.Process Origin)} {p q : Unix.Process Origin} {a : Unix.Action}

-- A process on its side of the border, if it never crossed it: what descends from the command is in its group and in
-- reach of signals, and nothing else is in this group.
structure Sided (child : Nat) (q : Unix.Process Origin) : Prop where
  own     : q.pid = child → q.recorded.kin
  inside  : q.recorded.strayed = false → q.recorded.kin → q.group = child ∧ q.owned
  outside : q.recorded.strayed = false → q.group = child → q.recorded.kin

namespace Sided

theorem reached (i : Sided child q) (hm : q ∈ members table child) : q.recorded.kin ∨ q.recorded.strayed := by
  obtain ⟨_, _, _, hg⟩ := mem_members.mp hm
  cases h : q.recorded.strayed
  case true  => exact .inr rfl
  case false => exact .inl <| i.outside h hg

-- What stays in its group and in reach, stays on its side.
theorem still (i : Sided child p) (hp : q.pid = p.pid) (hg : q.group = p.group) (ho : q.owned = p.owned)
    (hr : q.recorded = p.recorded) : Sided child q := by
  obtain ⟨own, inside, outside⟩ := i
  exact ⟨by rwa [hp, hr], by rwa [hg, ho, hr], by rwa [hg, hr]⟩

theorem fork {pid : Nat} (i : Sided child p) (hp : pid ≠ child) : Sided child { p with pid } :=
  ⟨fun h => absurd h hp, i.inside, i.outside⟩

theorem setGroup {group : Nat} (i : Sided child p) :
    Sided child { p with recorded := note child p (.setGroup group), group } := by
  refine ⟨i.own, fun hs hk => ?_, fun hs hg => ?_⟩
  case refine_1 =>
    have hk : p.recorded.kin := hk
    simp only [note, crosses, hk, if_true, Bool.or_eq_false_iff, decide_eq_false_iff_not, not_not] at hs
    exact ⟨hs.2, (i.inside hs.1 hk).2⟩
  case refine_2 =>
    have hg : group = child := hg
    by_contra hk
    have hk : p.recorded.kin = false := Bool.eq_false_iff.mpr hk
    have hp : p.pid ≠ child := fun h => by simp [i.own h] at hk
    simp [note, crosses, hk, hg, hp] at hs

theorem setSession (i : Sided child p) :
    Sided child { p with recorded := note child p .setSession, group := p.pid, session := p.pid } := by
  refine ⟨i.own, fun hs hk => ?_, fun _ hg => i.own hg⟩
  have hk : p.recorded.kin := hk
  simp [note, crosses, hk] at hs

theorem setUser {owned : Bool} (i : Sided child p) :
    Sided child { p with recorded := note child p (.setUser owned), owned } := by
  refine ⟨i.own, fun hs hk => ?_, fun hs => ?_⟩
  case refine_1 =>
    have hk : p.recorded.kin := hk
    simp only [note, crosses, hk, Bool.true_and, Bool.or_eq_false_iff, Bool.not_eq_false'] at hs
    exact ⟨(i.inside hs.1 hk).1, hs.2⟩
  case refine_2 =>
    simp only [note, Bool.or_eq_false_iff] at hs
    exact i.outside hs.1

-- As long as the child holds its id, nothing else gets to be the head of its group.
theorem turn (held : ∃ q ∈ table, q.pid = child) (may : May table p a) (i : Sided child p) :
    ∀ q ∈ Unix.turn { p with recorded := note child p a } a, Sided child q := by
  have hn (h : crosses child p a = false) : note child p a = p.recorded := by simp [note, h]
  cases a <;> simp only [Unix.turn, List.forall_mem_cons, List.not_mem_nil, false_implies, implies_true, and_true]
  case fork pid =>
    obtain ⟨q, hq, rfl⟩ := held
    have hp : pid ≠ q.pid := (may.2.2 q hq).1.symm
    rw [hn rfl]
    exact ⟨i, i.fork hp⟩
  case setGroup   => exact i.setGroup
  case setSession => exact i.setSession
  case setUser    => exact i.setUser
  case exit       => exact i.still rfl rfl rfl <| hn rfl

end Sided

-- What is alive of the command has strayed.
def Astray (q : Unix.Process Origin) : Prop :=
  q.alive → q.recorded.kin → q.recorded.strayed

-- Nobody comes back to life.
theorem Astray.turn (may : May table p a) (h : Astray p) : ∀ q ∈ Unix.turn { p with recorded := note child p a } a, Astray q := by
  have hs {q : Unix.Process Origin} (ha : p.alive) (hr : q.recorded = note child p a) : Astray q := fun _ hk => by
    rw [hr] at hk ⊢
    simp [note, h ha hk]
  cases a <;> simp only [Unix.turn, List.forall_mem_cons, List.not_mem_nil, false_implies, implies_true, and_true]
  case fork                  => exact ⟨hs may.1 rfl, hs may.1 rfl⟩
  case setGroup | setSession => exact hs may.1 rfl
  case setUser | exit        => exact hs may rfl

namespace State

theorem holds_congr (h : s'.call.at = s.call.at) : s'.holds = s.holds := by
  rw [holds, holds, h]

theorem killGroup_term (pos : 0 < child) :
    killGroup child .term s = { s with signalled := s.signalled ++ members s.table child } :=
  if_pos pos

theorem killGroup_kill (pos : 0 < child) : killGroup child .kill s =
    { s with signalled := s.signalled ++ members s.table child, table := s.table.map (slay child) } :=
  if_pos pos

end State

-- The border of the command's group is kept until the call returns. There are no signals before the timeout.
structure Bordered (child : Nat) (s : State) : Prop where
  held  : s.holds → ∃ q ∈ s.table, q.pid = child
  sided : s.holds → ∀ q ∈ s.table, Sided child q
  dead  : s.call.at = .returned timedOut → ∀ q ∈ s.table, Astray q
  hit   : ∀ q ∈ s.signalled, q.recorded.kin ∨ q.recorded.strayed
  quiet : s.signalled = [] ∨ (∃ d, s.call.at = .grace d) ∨ s.call.at = .returned timedOut

namespace Bordered

theorem spawned (fresh : Free others child) :
    Bordered child (spawned child terminal req capacity capacities session others) := by
  have hs : ∀ q ∈ (Tree.spawned child terminal req capacity capacities session others).table, Sided child q := by
    refine List.forall_mem_cons.mpr ⟨⟨fun _ => rfl, fun _ _ => ⟨rfl, rfl⟩, fun _ _ => rfl⟩, ?_⟩
    intro q hq
    obtain ⟨o, ho, rfl⟩ := List.mem_map.mp hq
    have hf := fresh.2 o ho
    exact ⟨fun h => absurd h hf.1, fun _ hk => Bool.noConfusion hk, fun _ h => absurd h hf.2.1⟩
  refine ⟨fun _ => ⟨_, .head _, rfl⟩, fun _ => hs, fun hr => ?_, fun q hq => absurd hq List.not_mem_nil, .inl rfl⟩
  have hc : (GatedTerminal.spawned terminal req capacity capacities).at = .returned timedOut := hr
  rw [GatedTerminal.spawned] at hc
  split at hc <;> cases hc

theorem signalled (b : Bordered child s) (hh : s.holds) :
    ∀ q ∈ s.signalled ++ members s.table child, q.recorded.kin ∨ q.recorded.strayed := by
  intro q hq
  rcases List.mem_append.mp hq with hq | hq
  · exact b.hit q hq
  · exact (b.sided hh q (mem_members.mp hq).1).reached hq

-- All that is still on its side of the border is in the group.
theorem slain (b : Bordered child s) (hh : s.holds) : ∀ q ∈ s.table.map (slay child), Astray q := by
  intro q hq ha hk
  obtain ⟨p, hp, rfl⟩ := List.mem_map.mp hq
  by_contra hs
  have hi := (b.sided hh p hp).inside (Bool.eq_false_iff.mpr hs) hk
  simp [slay_dead hi.2 hi.1] at ha

-- A call that is still to time out has sent nothing.
theorem silent (b : Bordered child s) (hs : s.call.at.IsOpen) : s.signalled = [] := by
  refine b.quiet.resolve_right fun h => ?_
  obtain ⟨_, hd⟩ | hr := h
  case inl => simp [hd, Suspension.IsOpen] at hs
  case inr => simp [hr, Suspension.IsOpen] at hs

theorem open_holds (h : s.call.at.IsOpen) : s.holds := by
  rw [State.holds]
  split
  case h_1 hr => simp [hr, Suspension.IsOpen] at h
  case h_2    => rfl

theorem works (b : Bordered child s) (hs : s.call.at.IsOpen) (hc : call.at.IsOpen) : Bordered child { s with call } := by
  have hh := open_holds hs
  refine ⟨fun _ => b.held hh, fun _ => b.sided hh, fun hr => ?_, b.hit, .inl <| b.silent hs⟩
  have hr : call.at = .returned timedOut := hr
  simp [hr, Suspension.IsOpen] at hc

theorem exec (pos : 0 < child) (b : Bordered child s) (h : advance terminal req s.call m = some call) :
    Bordered child ({ s with call }.obey child m) := by
  cases advances h
  case write hw _  => exact b.works (hw ▸ trivial) trivial
  case broken hw   => exact b.works (hw ▸ trivial) trivial
  case close hw    => exact b.works (hw ▸ trivial) trivial
  case read hc _ _ => exact b.works (hc ▸ trivial) (by simp [GatedTerminal.State.setOutput, hc, Suspension.IsOpen])
  case eof hc _ _  => exact b.works (hc ▸ trivial) (by simp [GatedTerminal.State.setOutput, hc, Suspension.IsOpen])
  case finish hc _ =>
    have hn (h : false = true) : False := Bool.false_ne_true h
    refine ⟨fun h => (hn h).elim, fun h => (hn h).elim, fun hr => ?_, b.hit, .inl <| b.silent (hc ▸ trivial)⟩
    exact absurd (congrArg ExecOutput.timedOut <| Suspension.returned.inj hr) Bool.false_ne_true
  case expire hc _ _ =>
    have hh := open_holds (s := s) (hc ▸ trivial)
    rw [State.obey, State.killGroup_term pos]
    exact ⟨fun _ => b.held hh, fun _ => b.sided hh, (fun hr => by cases hr), b.signalled hh, .inr <| .inl ⟨_, rfl⟩⟩
  case kill hg _ =>
    have hh : s.holds := by rw [State.holds, hg]
    have hn (h : false = true) : False := Bool.false_ne_true h
    rw [State.obey, State.killGroup_kill pos]
    exact ⟨fun h => (hn h).elim, fun h => (hn h).elim, fun _ => b.slain hh, b.signalled hh, .inr <| .inr rfl⟩

theorem acts (b : Bordered child s) (ha : act (note child) s.table p a = some table)
    (held : s.holds → a = .reap → p.pid ≠ child) (same : call.at = s.call.at) : Bordered child { s with table, call } := by
  have hh : State.holds { s with table, call } = s.holds := State.holds_congr same
  refine ⟨fun h => ?_, fun h => ?_, fun h => ?_, b.hit, same ▸ b.quiet⟩
  case refine_1 => exact act_holds ha (held (hh ▸ h)) <| b.held (hh ▸ h)
  case refine_2 => exact act_forall ha (b.sided (hh ▸ h)) <| Sided.turn <| b.held (hh ▸ h)
  case refine_3 => exact act_forall ha (b.dead (same ▸ h)) Astray.turn

theorem step (pos : 0 < child) (b : Bordered child s) (h : step child terminal req s e = some s') : Bordered child s' := by
  cases steps h
  case exec advanced       => exact b.exec pos advanced
  case exits acts happened => exact b.acts acts (fun _ hr => by cases hr) (happens_at happened)
  case process acts held   => exact b.acts acts held rfl
  case world call happened =>
    have same := happens_at happened
    have hh : State.holds { s with call } = s.holds := State.holds_congr same
    exact ⟨fun h => b.held (hh ▸ h), fun h => b.sided (hh ▸ h), fun h => b.dead (same ▸ h), b.hit, same ▸ b.quiet⟩

end Bordered

-- What the call itself does.
def Event.call? : Event → Option GatedTerminal.Event
  | .exec m      => some <| .exec m
  | .world w     => some <| .world w
  | .process _ _ => none

theorem obey_call : (s.obey child m).call = s.call := by
  cases m
  case expire | kill => simp only [State.obey, killGroup]; split <;> rfl
  all_goals rfl

theorem run_call
    (r : Run (Fires <| step child terminal req) (spawned child terminal req capacity capacities session others) events s) :
    Run (Fires <| GatedTerminal.step terminal req) (GatedTerminal.spawned terminal req capacity capacities)
      (events.filterMap Event.call?) s.call := by
  refine r.project (I := fun _ => True) State.call Event.call? trivial (fun _ _ _ _ _ => trivial) ?_ ?_
  case refine_1 =>
    intro s e s' d _ h hd
    cases steps h <;> cases hd
    case exec advanced  => rw [obey_call]; exact advanced
    case world happened => exact happened
    case exits happened => exact happened
  case refine_2 =>
    intro s e s' _ h hd
    cases steps h <;> cases hd
    rfl

-- Among all that never crossed the border of its group, a timeout hits exactly what descends from the command: it
-- leaves nothing of it alive, and nothing else gets a signal, whatever is forked, exits, changes its group or its
-- user and is given an id again meanwhile.
theorem timeout_kills_tree (fresh : Free others child)
    (r : Run (Fires <| step child terminal req) (spawned child terminal req capacity capacities session others) events s) :
    (∀ p ∈ s.signalled, p.recorded.kin ∨ p.recorded.strayed) ∧
    ∀ out, s.call.at = .returned out →
      (out.timedOut → ∀ p ∈ s.table, p.alive → p.recorded.kin → p.recorded.strayed) ∧
      (out.timedOut = false → s.signalled = []) := by
  have pos : 0 < child := Nat.lt_trans Nat.zero_lt_one fresh.1
  have b : Bordered child s := r.preserves (Bordered.spawned fresh) fun _ _ _ b h => b.step pos h
  refine ⟨b.hit, fun out hr => ⟨fun ht => ?_, fun ht => ?_⟩⟩
  case refine_1 =>
    have ho := run_outcome <| run_call r
    simp only [Outcome, hr] at ho
    obtain ⟨_, rfl⟩ | ⟨_, _, _, rfl⟩ := ho
    case inl => exact b.dead hr
    case inr => cases ht
  case refine_2 =>
    refine b.quiet.resolve_right fun h => ?_
    obtain ⟨_, hd⟩ | hr' := h
    case inl => cases hr.symm.trans hd
    case inr =>
      cases Suspension.returned.inj <| hr.symm.trans hr'
      cases ht

def sleeping : ExecRequest :=
  { printf with command := "sleep 300 & setsid sleep 300", timeoutMs := some 100 }

def shell : Unix.Process Origin where
  pid      := 7
  group    := 7
  session  := 1
  recorded := ⟨true, false⟩

def caller : Unix.Process Unit where
  pid      := 1
  group    := 1
  session  := 1
  recorded := ()

-- One of the processes that the shell forks leads a session of its own.
def daemonized : List Event :=
  [.process shell (.fork 8), .process shell (.fork 9), .process { shell with pid := 9 } .setSession,
    .world (.tick (.fromMillis 100)), .exec .expire, .world (.tick killGrace), .exec .kill]

-- It is the only one that is left.
theorem timeout_kills_tree_daemonized : ∃ s,
    Run (Fires <| step 7 (cappedAt 6) sleeping) (spawned 7 (cappedAt 6) sleeping 65536 (fun _ => 65536) 1 [caller])
      daemonized s ∧
    (s.table.filter (·.alive)).map (·.pid) = [9, 1] ∧ ∀ p ∈ s.table, p.alive → p.recorded.kin → p.recorded.strayed := by
  have fresh : Free [caller] 7 := by decide
  have ⟨s, hs, hr, ha⟩ : ∃ s, replay (step 7 (cappedAt 6) sleeping)
      (spawned 7 (cappedAt 6) sleeping 65536 (fun _ => 65536) 1 [caller]) daemonized = some s ∧
      s.call.at = .returned timedOut ∧ (s.table.filter (·.alive)).map (·.pid) = [9, 1] := ⟨_, rfl, rfl, rfl⟩
  have r := Run.iff_replay.mpr hs
  exact ⟨s, r, ha, ((timeout_kills_tree fresh r).2 _ hr).1 rfl⟩

end GatedTerminal.Tree
