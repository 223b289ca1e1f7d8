import ZyrisDocker.Enroll.Dial

open Transition

namespace Node

namespace Event

-- The store is empty, and no enrollment is granted or denied.
def unanswered : Event → Bool
  | .grant (.loaded (.ok none))          => true
  | .grant (.loaded _)                   => false
  | .grant (.polled (.ok (.granted _)))  => false
  | .grant (.polled (.ok .denied))       => false
  | .grant (.enrolled (.error .denied))  => false
  | .grant (.polled (.error .denied))    => false
  | .grant (.renewed (.error .denied))   => false
  | _                                    => true

-- A code is shown.
def shows : Event → Bool
  | .grant (.enrolled (.ok _)) => true
  | .grant (.renewed (.ok _))  => true
  | _                          => false

-- An error of the enrollment layer that the loop answers with another enrollment, although a code
-- was already shown.
def restarts : Event → Bool
  | .grant (.polled (.error .lapsed))           => true
  | .grant (.polled (.error (.unreachable _)))  => true
  | .grant (.renewed (.error .lapsed))          => true
  | .grant (.renewed (.error (.unreachable _))) => true
  | _                                           => false

end Event

-- The codes of the latest enrollment that lapsed.
def lapses : List Event → Nat :=
  List.foldl (fun n e =>
    match e with
    | .grant (.enrolled _)          => 0
    | .grant (.polled (.ok .lapsed)) => n + 1
    | _                             => n) 0

-- The codes which a log shows.
def codes (log : List LogEnroll) : Nat :=
  log.countP fun | .show _ => true | _ => false

-- Where a node can be whose store is empty and whose enrollments are never answered, and how many
-- codes the enrollment that is going on has shown.
inductive Phase : Runner.Suspension → DeviceGrant.Suspension → Nat → Prop
  | idle                            : Phase .bearer .idle 0
  | load                            : Phase .bearer (.load .bearer) 0
  | enroll                          : Phase .bearer (.enroll url request) 0
  | poll (bound : n ≤ maxRenewals)  : Phase .bearer (.poll n) (n + 1)
  | renew (bound : n ≤ maxRenewals) : Phase .bearer (.renew n) n
  | sleep                           : Phase .sleep .idle 0
  | ended                           : Phase (.returned (.credentials (.needsOperator msg))) .idle (maxRenewals + 1)

-- How the lapses show in where the node is.
def Lapsed (n : Nat) : Runner.Suspension → DeviceGrant.Suspension → Prop
  | _,           .poll m  => n = m
  | _,           .renew m => n = m
  | .returned _, _        => True
  | _,           _        => n ≤ maxRenewals

theorem Phase.bound : Phase at₁ at₂ n → n ≤ maxRenewals + 1
  | poll h                       => Nat.succ_le_succ h
  | renew h                      => Nat.le_succ_of_le h
  | idle | load | enroll | sleep => Nat.zero_le _
  | ended                        => Nat.le_refl _

structure Budget (es : List Event) (s : State) : Prop where
  held   : s.grant.held = none
  log    : codes s.grant.log = es.countP Event.shows
  phase  : ∃ n, Phase s.runner.at s.grant.at n ∧
    es.countP Event.shows ≤ (maxRenewals + 1) * es.countP Event.restarts + n
  lapsed : Lapsed (lapses es) s.runner.at s.grant.at

variable {node : Node} {s s' : State} {e : Event} {es : List Event}

theorem step_loop {e : Runner.Event} (h : step node s (.loop e) = some s') :
    admits s.runner.at (.loop e) ∧
      ∃ runner, Runner.step node.runner s.runner e = some runner ∧ s' = { s with runner } := by
  simp only [step] at h
  split at h
  case isTrue ha  =>
    have ⟨runner, hr, h⟩ := Option.map_eq_some_iff.mp h
    exact ⟨ha, runner, hr, h.symm⟩
  case isFalse => cases h

theorem step_grant {e : DeviceGrant.Event} (h : step node s (.grant e) = some s') :
    admits s.runner.at (.grant e) ∧
      ∃ o, DeviceGrant.step node.grant s.grant e = some o ∧ resume node s o = some s' := by
  simp only [step] at h
  split at h
  case isTrue ha => exact ⟨ha, Option.bind_eq_some_iff.mp h⟩
  case isFalse   => cases h

-- What a single step does, counted per code.
structure Effect (es : List Event) (s : State) (n : Nat) (e : Event) (s' : State) (n' : Nat) : Prop where
  held   : s'.grant.held = none
  log    : codes s'.grant.log = codes s.grant.log + [e].countP Event.shows
  phase  : Phase s'.runner.at s'.grant.at n'
  budget : [e].countP Event.shows + n ≤ (maxRenewals + 1) * [e].countP Event.restarts + n'
  lapsed : Lapsed (lapses es) s.runner.at s.grant.at → Lapsed (lapses (es ++ [e])) s'.runner.at s'.grant.at

-- A step after which no code is shown anew.
theorem Effect.quiet (hh : s'.grant.held = none) (hg : codes s'.grant.log = codes s.grant.log)
    (hp : Phase s'.runner.at s'.grant.at n') (hs : e.shows = false)
    (hn : n ≤ (maxRenewals + 1) * [e].countP Event.restarts + n')
    (hl : Lapsed (lapses es) s.runner.at s.grant.at → Lapsed (lapses (es ++ [e])) s'.runner.at s'.grant.at) :
    Effect es s n e s' n' where
  held   := hh
  log    := by simpa [hs] using hg
  phase  := hp
  budget := by simpa [hs] using hn
  lapsed := hl

-- A step that shows a code.
theorem Effect.showing (hh : s'.grant.held = none) (hg : s'.grant.log = .show code :: s.grant.log)
    (hp : Phase s'.runner.at s'.grant.at (n + 1)) (hs : e.shows = true)
    (hl : Lapsed (lapses es) s.runner.at s.grant.at → Lapsed (lapses (es ++ [e])) s'.runner.at s'.grant.at) :
    Effect es s n e s' (n + 1) where
  held   := hh
  log    := by simp [hs, hg, codes]
  phase  := hp
  budget := by simp [hs]; omega
  lapsed := hl

-- A step in which the enrollment layer fails. The loop sleeps, or ends if a person has to act.
theorem effect_trouble {x : EnrollError} (ha : s.runner.at = .bearer) (hh : s.grant.held = none) (hd : x ≠ .denied)
    (hr : resume node s (s.grant.answer (.bearer (.error (DeviceGrant.enrollmentTrouble node.grant x)))) = some s')
    (hs : e.shows = false) (hn : n ≤ maxRenewals + 1)
    (hx : (∀ scope, x ≠ .scopeUnknown scope) → n ≤ (maxRenewals + 1) * [e].countP Event.restarts)
    (hl : Lapsed (lapses es) s.runner.at s.grant.at → lapses (es ++ [e]) ≤ maxRenewals) :
    ∃ n', Effect es s n e s' n' := by
  simp only [resume, DeviceGrant.State.answer, answered, Runner.step, ha] at hr
  match x with
  | .lapsed | .unreachable _ => cases hr; exact ⟨0, .quiet hh rfl .sleep hs (hx nofun) hl⟩
  | .scopeUnknown _          => cases hr; exact ⟨_, .quiet hh rfl .ended hs (Nat.le_add_left_of_le hn) fun _ => trivial⟩

section

variable {o : DeviceGrant.State × Option DeviceGrant.Answer} (ha : s.runner.at = .bearer) (hh : s.grant.held = none)
  (hr : resume node s o = some s')

include ha hh hr

theorem effect_enrolled {r : Except EnrollError Code} (hg : s.grant.at = .enroll url request)
    (hu : (Event.grant <| .enrolled r).unanswered) (ho : DeviceGrant.step node.grant s.grant (.enrolled r) = some o) :
    ∃ n', Effect es s 0 (.grant <| .enrolled r) s' n' := by
  simp only [DeviceGrant.step, hg] at ho
  match r with
  | .ok code =>
    cases ho; cases hr
    exact ⟨1, .showing hh rfl (ha ▸ .poll (Nat.zero_le _)) rfl fun _ => by simp [Lapsed, lapses]⟩
  | .error x =>
    cases ho
    exact effect_trouble ha hh (by rintro rfl; cases hu) hr rfl (Nat.zero_le _) (fun _ => Nat.zero_le _)
      fun _ => by simp [lapses]

theorem effect_polled {r : Except EnrollError Progress} (hg : s.grant.at = .poll n) (hn : n ≤ maxRenewals)
    (hu : (Event.grant <| .polled r).unanswered) (ho : DeviceGrant.step node.grant s.grant (.polled r) = some o) :
    ∃ n', Effect es s (n + 1) (.grant <| .polled r) s' n' := by
  simp only [DeviceGrant.step, hg] at ho
  match r with
  | .ok .waiting =>
    cases ho; cases hr
    exact ⟨n + 1, .quiet hh rfl (ha ▸ .poll hn) rfl (Nat.le_add_left ..) fun hl => by simpa [ha, hg, lapses] using hl⟩
  | .ok .lapsed =>
    simp only [DeviceGrant.poll] at ho
    split at ho <;> cases ho
    case isTrue =>
      simp only [resume, DeviceGrant.State.answer, answered, Runner.step, ha] at hr
      cases hr
      exact ⟨_, .quiet hh rfl .ended rfl (by omega) fun _ => trivial⟩
    case isFalse hm =>
      cases hr
      have hc : codes (s.grant.print .lapsed).log = codes s.grant.log := by simp [codes, DeviceGrant.State.print]
      refine ⟨n + 1, .quiet hh hc (ha ▸ .renew (by omega)) rfl (by omega) fun hl => ?_⟩
      simpa [hg, lapses, Lapsed] using hl
  | .error x =>
    cases ho
    have hd : x ≠ .denied := by rintro rfl; cases hu
    refine effect_trouble ha hh hd hr rfl (by omega) (fun hx => ?_) fun hl => ?_
    · cases x <;> simp_all [Event.restarts]
    · simp_all [lapses, Lapsed]

theorem effect_renewed {r : Except EnrollError Code} (hg : s.grant.at = .renew n) (hn : n ≤ maxRenewals)
    (hu : (Event.grant <| .renewed r).unanswered) (ho : DeviceGrant.step node.grant s.grant (.renewed r) = some o) :
    ∃ n', Effect es s n (.grant <| .renewed r) s' n' := by
  simp only [DeviceGrant.step, hg] at ho
  match r with
  | .ok code =>
    cases ho; cases hr
    exact ⟨n + 1, .showing hh rfl (ha ▸ .poll hn) rfl fun hl => by simpa [hg, lapses, Lapsed] using hl⟩
  | .error x =>
    cases ho
    have hd : x ≠ .denied := by rintro rfl; cases hu
    refine effect_trouble ha hh hd hr rfl (by omega) (fun hx => ?_) fun hl => ?_
    · cases x <;> simp_all [Event.restarts]; all_goals omega
    · simp_all [lapses, Lapsed]

end

theorem effect (es : List Event) (hp : Phase s.runner.at s.grant.at n) (hh : s.grant.held = none) (hu : e.unanswered)
    (h : step node s e = some s') : ∃ n', Effect es s n e s' n' := by
  obtain ⟨⟨backoff, reenrolled, live, hooks, at₁⟩, ⟨held, log, at₂⟩⟩ := s
  dsimp only at hp hh
  subst hh
  cases e
  case loop e =>
    have ⟨ha, runner, hr, hs⟩ := step_loop h
    subst hs
    cases hp <;> cases e <;> simp [admits, Runner.step] at ha hr
    subst hr
    exact ⟨0, .quiet rfl rfl .idle rfl (Nat.zero_le _) (by simp [Lapsed, lapses])⟩
  case grant e =>
    have ⟨ha, o, ho, hr⟩ := step_grant h
    cases hp <;> cases e <;> simp [admits] at ha <;> try cases ho
    case idle.bearer =>
      cases hr
      exact ⟨0, .quiet rfl rfl .load rfl (Nat.zero_le _) (by simp [Lapsed, lapses])⟩
    case load.loaded r =>
      match r with
      | .ok none => cases ho; cases hr; exact ⟨0, .quiet rfl rfl .enroll rfl (Nat.zero_le _) (by simp [Lapsed, lapses])⟩
    case enroll.enrolled    => exact effect_enrolled rfl rfl hr rfl hu ho
    case poll.polled hn _   => exact effect_polled rfl rfl hr rfl hn hu ho
    case renew.renewed hn _ => exact effect_renewed rfl rfl hr rfl hn hu ho

namespace Budget

theorem init : Budget [] (init node) where
  held   := rfl
  log    := rfl
  phase  := ⟨0, .idle, Nat.zero_le _⟩
  lapsed := Nat.zero_le _

theorem step (b : Budget es s) (hu : e.unanswered) (h : Node.step node s e = some s') : Budget (es ++ [e]) s' := by
  have ⟨n, hp, hb⟩ := b.phase
  have ⟨n', f⟩ := effect es hp b.held hu h
  refine ⟨f.held, ?_, ⟨n', f.phase, ?_⟩, f.lapsed b.lapsed⟩
  · rw [f.log, b.log, List.countP_append]
  · have hf := f.budget
    rw [List.countP_append, List.countP_append, Nat.mul_add]
    omega

theorem of_run (r : Run (Fires (Node.step node)) (Node.init node) es s) (hu : ∀ e ∈ es, e.unanswered) :
    Budget es s := by
  refine (r.guard hu).snoc_induction init fun es s e s' _ h b => ?_
  exact b.step h.meets h.fires

end Budget

-- Once the last code of an enrollment lapsed, the loop has ended.
theorem ended_of_lapses (b : Budget es s) (h : maxRenewals < lapses es) :
    ∃ msg, s.runner.at = .returned (.credentials (.needsOperator msg)) := by
  have ⟨n, hp, _⟩ := b.phase
  have hl := b.lapsed
  generalize s.runner.at = at₁ at hp hl ⊢
  generalize s.grant.at = at₂ at hp hl
  cases hp
  case ended => exact ⟨_, rfl⟩
  all_goals
    simp only [Lapsed] at hl
    omega

theorem codes_bounded (r : Run (Fires (step node)) (init node) es s) (hu : ∀ e ∈ es, e.unanswered) :
    codes s.grant.log ≤ (maxRenewals + 1) * (1 + es.countP Event.restarts) ∧
    (maxRenewals < lapses es →
      ∃ err, s.runner.at = .returned err ∧ err.exitCode = 2 ∧ ∃ msg, err = .credentials (.needsOperator msg)) := by
  have b := Budget.of_run r hu
  constructor
  case left =>
    have ⟨n, hp, hb⟩ := b.phase
    have hn := hp.bound
    rw [b.log, Nat.mul_add]
    omega
  case right =>
    intro h
    have ⟨msg, hm⟩ := ended_of_lapses b h
    exact ⟨_, hm, rfl, msg, rfl⟩

-- Four codes lapse in one enrollment.
theorem codes_bounded_ended :
    let node : Node := ⟨⟨⟨"", "", "", [], false, 1, 8, 5⟩, false, true⟩, "", ⟨"", "", "", []⟩, fun _ => ""⟩
    let code : Code := ⟨"WXQR-7KBD", "/settings/zyris/device", 600⟩
    let renewal : List Event := [.grant (.polled (.ok .lapsed)), .grant (.renewed (.ok code))]
    let es : List Event :=
      [.grant .bearer, .grant (.loaded (.ok none)), .grant (.enrolled (.ok code))] ++
      renewal ++ renewal ++ renewal ++ [.grant (.polled (.ok .lapsed))]
    ∃ s, Run (Fires (step node)) (init node) es s ∧ codes s.grant.log ≤ maxRenewals + 1 ∧
      ∃ err, s.runner.at = .returned err ∧ err.exitCode = 2 := by
  intro node code renewal es
  have ⟨s, r⟩ : ∃ s, Run (Fires (step node)) (init node) es s := ⟨_, Run.iff_replay.mpr rfl⟩
  have ⟨bound, ended⟩ := codes_bounded r (by decide)
  have ⟨err, hs, hc, _⟩ := ended (by decide)
  exact ⟨s, r, bound, err, hs, hc⟩

-- Three codes lapse, then a poll finds the server unreachable. The loop sleeps and enrolls again, with
-- the renewals counted from zero.
theorem not_codes_bounded :
    ¬∀ (node : Node) (es : List Event) (s : State),
      Run (Fires (step node)) (init node) es s → (∀ e ∈ es, e.unanswered) → codes s.grant.log ≤ maxRenewals + 1 := by
  intro h
  let node : Node := ⟨⟨⟨"", "", "", [], false, 1, 8, 5⟩, false, true⟩, "", ⟨"", "", "", []⟩, fun _ => ""⟩
  let code : Code := ⟨"WXQR-7KBD", "/settings/zyris/device", 600⟩
  let renewal : List Event := [.grant (.polled (.ok .lapsed)), .grant (.renewed (.ok code))]
  let enroll : List Event := [.grant .bearer, .grant (.loaded (.ok none)), .grant (.enrolled (.ok code))]
  let es := enroll ++ renewal ++ renewal ++ renewal ++
    [.grant (.polled (.error (.unreachable "timed out"))), .loop (.slept 0)] ++ enroll
  have r : Run (Fires (step node)) (init node) es _ := Run.iff_replay.mpr rfl
  exact absurd (h node es _ r (by decide)) (by decide)

end Node
