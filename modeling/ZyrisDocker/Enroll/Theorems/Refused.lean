import ZyrisDocker.Enroll.Shared
import ZyrisDocker.Enroll.Theorems.Codes
import ZyrisDocker.Enroll.Theorems.Moves
import ZyrisDocker.Runtime.Theorems.DialLoop

open Transition

namespace DeviceGrant

variable {grant : DeviceGrant} {s : State} {o : State × Option Answer} {e : Event}

theorem step_held (hi : s.at = .idle) (hh : s.held = some c) :
    step grant s .bearer = some (s.answer (.bearer (.ok c.secret))) := by
  simp only [step, hi, hh]

theorem step_found (hl : s.at = .load .bearer) : step grant s (.loaded (.ok (some c))) = some (hold s c) := by
  simp only [step, hl, stored]

theorem step_adopts (hl : s.at = .load (.forgetRefused r)) (ha : r.all (·.secret ≠ c.secret)) :
    step grant s (.loaded (.ok (some c))) = some ({ s with held := c } |>.answer (.forgetRefused (.ok true))) := by
  simp only [step, hl, stored]
  rw [if_pos ha]

namespace Moves

-- `forgetRefused` never leaves it at the refusal.
theorem returned_ne (m : Moves grant s e o) : o.2 ≠ some (.forgetRefused (.ok false)) := by
  cases m
  case refused | stuck => cases ‹Call› <;> nofun
  all_goals nofun

-- A load begins with the call that makes it.
theorem load_inv (m : Moves grant s e o) (h : o.1.at = .load call) :
    o.2 = none ∧ (call = .bearer ∧ e = .bearer ∨ call = .forgetRefused s.held ∧ e = .forgetRefused) := by
  cases m
  case loads        => cases h; exact ⟨rfl, .inl ⟨rfl, rfl⟩⟩
  case forgets      => cases h; exact ⟨rfl, .inr ⟨rfl, rfl⟩⟩
  case enrolls ha _ => cases h; cases ha
  all_goals cases h

end Moves
end DeviceGrant

namespace Node

variable {node : Node} {s s' : State} {o : DeviceGrant.State × Option DeviceGrant.Answer} {a : DeviceGrant.Answer}

theorem bearer_of_admits {p : Runner.Suspension} (h : admits p (.grant .bearer)) : p = .bearer := by
  cases p
  case bearer => rfl
  all_goals cases h

theorem forget_of_admits {p : Runner.Suspension} (h : admits p (.grant .forgetRefused)) : ∃ x, p = .forget x := by
  cases p
  case forget x => exact ⟨x, rfl⟩
  all_goals cases h

-- The loop does not make up the answers of its credentials.
theorem own_of_admits {p : Runner.Suspension} {e : Runner.Event} (h : admits p (.loop e)) :
    (∀ r, e ≠ .bearer r) ∧ ∀ r, e ≠ .forget r := by
  constructor <;> rintro r rfl <;> cases p <;> cases h

theorem resume_cases (h : resume node s o = some s') : s'.grant = o.1 ∧
    (o.2 = none ∧ s'.runner = s.runner ∨ ∃ a, o.2 = some a ∧ Runner.Moves node.runner s.runner (answered a) s'.runner) := by
  match o with
  | (_, none)   => cases h; exact ⟨rfl, .inl ⟨rfl, rfl⟩⟩
  | (_, some a) =>
    have ⟨_, hr, he⟩ := Option.map_eq_some_iff.mp h
    subst he
    exact ⟨rfl, .inr ⟨a, rfl, Runner.step_moves hr⟩⟩

-- What the loop does with an answer of its credentials.
structure Answered (r : Runner.State) (a : DeviceGrant.Answer) (r' : Runner.State) : Prop where
  reenrolled : r'.reenrolled = true → r.reenrolled = true
  dial       : r'.at = .dial secret → a = .bearer (.ok secret)
  refused    : r'.at = .returned (.refused x) → a = .forgetRefused (.ok false)

theorem answered_moves {runner : Runner} {r r' : Runner.State} (m : Runner.Moves runner r (answered a) r') :
    Answered r a r' := by
  cases a <;> cases m
  case bearer.connecting          => exact ⟨id, fun h => by cases h; rfl, nofun⟩
  case forgetRefused.unforgotten  => exact ⟨id, nofun, fun _ => rfl⟩
  case forgetRefused.postponed    => exact ⟨nofun, nofun, nofun⟩
  all_goals exact ⟨id, nofun, nofun⟩

end Node

namespace Shared.Loop

-- The node has enrolled for the credential since the last successful dial.
def Obtained (s : State) (secret : String) : Prop :=
  ∃ c ∈ s.enrolled, c.secret = secret

-- While the one attempt is spent, no credential is taken over but those the node enrolled for.
def Renews (s : State) : Event → State → Prop
  | .node (.grant (.loaded (.ok (some c)))), _ =>
    s.node.runner.reenrolled = true → s.node.grant.at.adopts c → Obtained s c.secret
  | _, _ => True

-- A loop that gives up on a refusal has enrolled for what was refused.
def Justified (s : State) : Prop :=
  ∀ x, Refusal.of x = .reenroll → s.node.runner.at = .returned (.refused x) →
    ∃ secret, s.dialled = some secret ∧ Obtained s secret

structure Sound (s : State) : Prop where
  renewed   : s.node.runner.reenrolled = true → s.node.grant.held = some c →
    Obtained s c.secret ∨ s.node.grant.at = .idle ∧ ∃ x, s.node.runner.at = .forget x
  dialling  : s.node.runner.at = .dial secret →
    s.node.grant.at = .idle ∧ s.dialled = some secret ∧ ∃ c, s.node.grant.held = some c ∧ c.secret = secret
  justified : Justified s

variable {node : Node} {s s' : State}

theorem step_node {e : Node.Event} (h : step node s (.node e) = some s') : answers s.store e ∧
    ∃ node', Node.step node s.node e = some node' ∧ s' = {
      node     := node'
      store    := after s.store s.node.grant.at e
      enrolled := enrolls s.enrolled s.node.grant.at e
      dialled  := dials s.dialled node'.runner.at } := by
  simp only [step] at h
  split at h
  case isFalse   => cases h
  case isTrue ha =>
    have ⟨node', hn, he⟩ := Option.map_eq_some_iff.mp h
    exact ⟨ha, node', hn, he.symm⟩

theorem enrolls_grant (enrolled : List Credential) (p : DeviceGrant.Suspension) (e : DeviceGrant.Event) :
    enrolled ⊆ enrolls enrolled p (.grant e) := by
  unfold enrolls
  split
  case h_1 he => cases he
  case h_2    => exact List.subset_cons_self ..
  case h_3    => exact List.Subset.refl _

namespace Sound

theorem put (k : Sound s) : Sound { s with store := stored } where
  renewed   := k.renewed
  dialling  := k.dialling
  justified := k.justified

-- But for a refusal that is not answered yet, the credential that is held was enrolled for.
theorem obtained (k : Sound s) (hr : s.node.runner.reenrolled = true) (hh : s.node.grant.held = some c)
    (hf : ∀ x, s.node.runner.at ≠ .forget x) : Obtained s c.secret :=
  (k.renewed hr hh).resolve_right fun ⟨_, x, hx⟩ => hf x hx

theorem loop {e : Runner.Event} (k : Sound s) (h : step node s (.node (.loop e)) = some s') : Sound s' := by
  obtain ⟨-, _, hn, rfl⟩ := step_node h
  obtain ⟨ha, runner, hr, rfl⟩ := Node.step_loop hn
  cases Runner.step_moves hr
  case panicked | connecting | unavailable | hopeless  => exact absurd rfl (Node.own_of_admits ha |>.1 _)
  case forgotten | unforgotten | postponed | stuck     => exact absurd rfl (Node.own_of_admits ha |>.2 _)
  case connected      => exact ⟨nofun, nofun, fun _ _ => nofun⟩
  case refused _ hd _ => exact ⟨fun _ _ => .inr ⟨(k.dialling hd).1, _, rfl⟩, nofun, fun _ _ => nofun⟩
  case spent _ hd hs  =>
    have ho {c} (hh : s.node.grant.held = some c) := k.obtained hs hh (by simp [hd])
    have ⟨_, hb, c, hh, hc⟩ := k.dialling hd
    exact ⟨fun _ hh => .inl (ho hh), nofun, fun _ _ _ => ⟨_, hb, hc ▸ ho hh⟩⟩
  case fatal hx hd    =>
    have ho {c} hs (hh : s.node.grant.held = some c) := k.obtained hs hh (by simp [hd])
    exact ⟨fun hs hh => .inl (ho hs hh), nofun, fun _ hx' hr => by cases hr; cases hx.symm.trans hx'⟩
  case unreachable _ hp | dropped hp | slept hp =>
    have ho {c} hs (hh : s.node.grant.held = some c) := k.obtained hs hh (by simp [hp])
    exact ⟨fun hs hh => .inl (ho hs hh), nofun, fun _ _ => nofun⟩

-- What is held after a step was enrolled for, if the attempt was spent before.
theorem kept {e : DeviceGrant.Event} (k : Sound s) (hr : Renews s (.node (.grant e)) s')
    (ha : Node.admits s.node.runner.at (.grant e)) (m : DeviceGrant.Moves grant s.node.grant e o)
    (hs : s.node.runner.reenrolled = true) (hh : o.1.held = some c) :
    ∃ c' ∈ enrolls s.enrolled s.node.grant.at (.grant e), c'.secret = c.secret := by
  have he := enrolls_grant s.enrolled s.node.grant.at e
  obtain ⟨hh, hf⟩ | ⟨rfl, hp⟩ | ⟨hp, rfl⟩ := m.held_cases hh
  case inl =>
    obtain ⟨c', hc, hs⟩ | ⟨hi, x, hx⟩ := k.renewed hs hh
    · exact ⟨c', he hc, hs⟩
    -- The refusal is not answered yet, and the loop does not ask for a bearer before it is.
    · cases (m.idle_inv hi).resolve_right hf
      cases hx.symm.trans (Node.bearer_of_admits ha)
  case inr.inl =>
    have ⟨c', hc, hs⟩ := hr hs hp
    exact ⟨c', he hc, hs⟩
  case inr.inr => exact ⟨c, by simp [hp, enrolls], rfl⟩

theorem grant {e : DeviceGrant.Event} (k : Sound s) (hr : Renews s (.node (.grant e)) s')
    (h : step node s (.node (.grant e)) = some s') : Sound s' := by
  obtain ⟨-, node', hn, rfl⟩ := step_node h
  have ⟨ha, o, hg, hn⟩ := Node.step_grant hn
  have m := DeviceGrant.step_moves hg
  have ⟨ho, hc⟩ := Node.resume_cases hn
  obtain ⟨_, hq⟩ | ⟨a, hn, m'⟩ := hc
  case inl =>
    refine ⟨fun hs hh => .inl (k.kept hr ha m (hq ▸ hs) (ho ▸ hh)), fun (hd : node'.runner.at = _) => ?_,
      fun x hx (hb : node'.runner.at = _) => ?_⟩
    case refine_1 =>
      rw [hq] at hd
      have ⟨hi, _⟩ := k.dialling hd
      cases m.idle_inv hi
      case inl he =>
        subst he
        cases hd.symm.trans (Node.bearer_of_admits ha)
      case inr he =>
        subst he
        have ⟨_, hx⟩ := Node.forget_of_admits ha
        cases hd.symm.trans hx
    case refine_2 =>
      have ⟨secret, hd, c, hc, hs⟩ := k.justified x hx (hq ▸ hb)
      exact ⟨secret, by simpa [hb, dials] using hd, c, enrolls_grant _ _ _ hc, hs⟩
  case inr =>
    have w := Node.answered_moves m'
    refine ⟨fun hs hh => .inl (k.kept hr ha m (w.reenrolled hs) (ho ▸ hh)), fun (hd : node'.runner.at = _) => ?_,
      fun x hx (hb : node'.runner.at = _) => ?_⟩
    case refine_1 =>
      cases w.dial hd
      have ⟨c, hh, hs, hi⟩ := m.held_of_returned hn
      exact ⟨ho ▸ hi, by simp [hd, dials], c, ho ▸ hh, hs⟩
    case refine_2 =>
      cases w.refused hb
      exact absurd hn m.returned_ne

theorem step (k : Sound s) (g : Guard (Fires <| Loop.step node) Renews s e s') : Sound s' := by
  have ⟨hs, hr⟩ := g
  match e with
  | .put _            => cases hs; exact k.put
  | .node (.loop _)   => exact k.loop hs
  | .node (.grant _)  => exact k.grant hr hs

theorem init : Sound (init node store) :=
  ⟨nofun, nofun, fun _ _ => nofun⟩

end Sound

theorem renews_justified (r : Run (Guard (Fires <| step node) Renews) (init node store) es s) : Justified s :=
  have k : Sound s := r.preserves .init fun _ _ _ k g => k.step g
  k.justified

-- The stored credential is refused, and so is the one that is enrolled for in its place.
theorem renews_justified_enrolled :
    let node : Node := ⟨⟨⟨"", "", "", [], false, 1, 8, 5⟩, false, false⟩, "", ⟨"", "", "", []⟩, fun _ => ""⟩
    let named : Named := ⟨"", "", ""⟩
    let old : Credential := ⟨2, "zc_old", named, named, [], ""⟩
    let new : Credential := ⟨2, "zc_new", named, named, [], ""⟩
    let es : List Event := [
      .node (.grant .bearer),
      .node (.grant (.loaded (.ok (some old)))),
      .node (.loop (.dial (.error .unauthorized))),
      .node (.grant .forgetRefused),
      .node (.grant (.loaded (.ok (some old)))),
      .node (.grant (.cleared (.ok ()))),
      .node (.grant .bearer),
      .node (.grant (.loaded (.ok none))),
      .node (.grant (.enrolled (.ok ⟨"WXQR-7KBD", "/settings/zyris/device", 600⟩))),
      .node (.grant (.polled (.ok (.granted new)))),
      .node (.grant (.saved (.ok ()))),
      .node (.loop (.dial (.error .revoked)))]
    ∃ s, Run (Fires (step node)) (init node (.credential old)) es s ∧
      s.node.runner.at = .returned (.refused .revoked) ∧ ∃ secret, s.dialled = some secret ∧ Obtained s secret := by
  intro node named old new es
  have ⟨s, r, hs⟩ : ∃ s, Run (Guard (Fires (step node)) Renews) (init node (.credential old)) es s ∧
      s.node.runner.at = .returned (.refused .revoked) := by
    refine ⟨_, .step ⟨rfl, trivial⟩ <| .step ⟨rfl, nofun⟩ <| .step ⟨rfl, trivial⟩ <| .step ⟨rfl, trivial⟩ <|
      .step ⟨rfl, fun _ h => absurd h (by decide)⟩ <| .step ⟨rfl, trivial⟩ <| .step ⟨rfl, trivial⟩ <| .step ⟨rfl, trivial⟩ <|
      .step ⟨rfl, trivial⟩ <| .step ⟨rfl, trivial⟩ <| .step ⟨rfl, trivial⟩ <| .step ⟨rfl, trivial⟩ .refl, rfl⟩
  exact ⟨s, r.unguard, hs, renews_justified r .revoked rfl hs⟩

-- A sibling has replaced the refused credential, by one that is refused as well.
theorem not_justified :
    ¬∀ (node : Node) (store : Stored) (es : List Event) (s : State),
      Run (Fires (step node)) (init node store) es s → Justified s := by
  intro h
  let node : Node := ⟨⟨⟨"", "", "", [], false, 1, 8, 5⟩, false, false⟩, "", ⟨"", "", "", []⟩, fun _ => ""⟩
  let named : Named := ⟨"", "", ""⟩
  let old : Credential := ⟨2, "zc_old", named, named, [], ""⟩
  let new : Credential := ⟨2, "zc_new", named, named, [], ""⟩
  let es : List Event := [
    .node (.grant .bearer),
    .node (.grant (.loaded (.ok (some old)))),
    .node (.loop (.dial (.error .unauthorized))),
    .put (.credential new),
    .node (.grant .forgetRefused),
    .node (.grant (.loaded (.ok (some new)))),
    .node (.grant .bearer),
    .node (.loop (.dial (.error .unauthorized)))]
  have ⟨s, r, hs, he⟩ : ∃ s, Run (Fires (step node)) (init node (.credential old)) es s ∧
      s.node.runner.at = .returned (.refused .unauthorized) ∧ s.enrolled = [] :=
    ⟨_, .step rfl <| .step rfl <| .step rfl <| .step rfl <| .step rfl <| .step rfl <| .step rfl <| .step rfl .refl, rfl, rfl⟩
  have ⟨_, _, c, hc, _⟩ := h node _ es s r .unauthorized rfl hs
  simp [he] at hc

-- A load is under way only while the loop awaits the call that made it.
structure Awaited (s : Node.State) : Prop where
  bearer : s.grant.at = .load .bearer → s.runner.at = .bearer
  forget : s.grant.at = .load (.forgetRefused r) → ∃ x, s.runner.at = .forget x

namespace Awaited

theorem loop {s s' : Node.State} {e : Runner.Event} (w : Awaited s) (h : Node.step node s (.loop e) = some s') :
    Awaited s' := by
  obtain ⟨ha, runner, hr, rfl⟩ := Node.step_loop h
  have own := Node.own_of_admits ha
  have m := Runner.step_moves hr
  refine ⟨fun hl => ?_, fun hl => ?_⟩
  case refine_1 =>
    have hp := w.bearer hl
    cases m
    case panicked | connecting | unavailable | hopeless => exact absurd rfl (own.1 _)
    all_goals cases hp.symm.trans ‹s.runner.at = _›
  case refine_2 =>
    have ⟨_, hp⟩ := w.forget hl
    cases m
    case forgotten | unforgotten | postponed | stuck => exact absurd rfl (own.2 _)
    all_goals cases hp.symm.trans ‹s.runner.at = _›

theorem grant {s s' : Node.State} {e : DeviceGrant.Event} (h : Node.step node s (.grant e) = some s') : Awaited s' := by
  have ⟨ha, o, hg, hn⟩ := Node.step_grant h
  have m := DeviceGrant.step_moves hg
  have ⟨ho, hc⟩ := Node.resume_cases hn
  have unmoved {call} (hl : s'.grant.at = .load call) : s'.runner = s.runner := by
    obtain ⟨_, hr⟩ | ⟨_, hn, _⟩ := hc
    · exact hr
    · cases (m.load_inv (ho ▸ hl)).1.symm.trans hn
  refine ⟨fun hl => ?_, fun hl => ?_⟩ <;> rw [unmoved hl] <;> rw [ho] at hl
  case refine_1 =>
    obtain ⟨_, he⟩ | ⟨hn, _⟩ := (m.load_inv hl).2
    · exact Node.bearer_of_admits (he ▸ ha)
    · cases hn
  case refine_2 =>
    obtain ⟨hn, _⟩ | ⟨_, he⟩ := (m.load_inv hl).2
    · cases hn
    · exact Node.forget_of_admits (he ▸ ha)

theorem step (w : Awaited s.node) (h : Loop.step node s e = some s') : Awaited s'.node := by
  match e with
  | .put _           => cases h; exact w
  | .node (.loop _)  =>
    obtain ⟨_, _, hn, rfl⟩ := step_node h
    exact w.loop hn
  | .node (.grant _) =>
    obtain ⟨_, _, hn, rfl⟩ := step_node h
    exact grant hn

theorem of_run (r : Run (Fires <| Loop.step node) (Loop.init node store) es s) : Awaited s.node :=
  r.preserves (I := (Awaited ·.node)) ⟨nofun, nofun⟩ fun _ _ _ w h => w.step h

end Awaited

-- The loop dials with what it is answered, unless the log line before it panics.
theorem resume_bearer {s : Node.State} {g : DeviceGrant.State} (hr : s.runner.at = .bearer)
    (hp : ¬(node.runner.info ∧ Credentials.tokenPrefix secret = none)) :
    Node.resume node s (g, some (.bearer (.ok secret))) = some ⟨{ s.runner with «at» := .dial secret }, g⟩ := by
  simp only [Node.resume, Node.answered, Runner.step, hr, Runner.connecting, if_neg hp, Option.map_some]

theorem step_unauthorized (hd : s.node.runner.at = .dial secret) (hs : s.node.runner.reenrolled = true) :
    step node s (.node (.loop (.dial (.error .unauthorized)))) = some { s with
      node := { s.node with runner := { s.node.runner with «at» := .returned (.refused .unauthorized) } } } := by
  simp [step, answers, after, enrolls, dials, Node.step, Node.admits, hd, Runner.step, Runner.refused, Refusal.of, hs]

theorem unjustified_of_dial (hd : s.node.runner.at = .dial secret) (hs : s.node.runner.reenrolled = true)
    (hb : s.dialled = some secret) (hn : ¬Obtained s secret) :
    ∃ es s', Run (Fires <| step node) s es s' ∧ ¬Justified s' := by
  refine ⟨_, _, .single (step_unauthorized hd hs), fun j => ?_⟩
  have ⟨_, hb', ho⟩ := j .unauthorized rfl rfl
  cases hb.symm.trans hb'
  exact hn ho

theorem resume_forgotten {s : Node.State} {g : DeviceGrant.State} (hf : s.runner.at = .forget x) :
    Node.resume node s (g, some (.forgetRefused (.ok true))) = some ⟨{ s.runner with «at» := .bearer }, g⟩ := by
  simp only [Node.resume, Node.answered, Runner.step, hf, Runner.forgotten, Option.map_some]

-- A bearer that the node has not enrolled for, while the attempt is spent.
theorem unjustified_of_bearer {g : DeviceGrant.State} (hr : s.node.runner.at = .bearer) (hs : s.node.runner.reenrolled = true)
    (hg : DeviceGrant.step node.grant s.node.grant e = some (g, some (.bearer (.ok secret))))
    (hp : ¬(node.runner.info ∧ Credentials.tokenPrefix secret = none))
    (hn : ¬∃ c ∈ enrolls s.enrolled s.node.grant.at (.grant e), c.secret = secret)
    (h : step node s (.node (.grant e)) = some s') : ∃ es s'', Run (Fires <| step node) s' es s'' ∧ ¬Justified s'' := by
  have ⟨_, node', hk, he⟩ := step_node h
  have ⟨_, o, ho, hm⟩ := Node.step_grant hk
  cases hg.symm.trans ho
  cases (resume_bearer hr hp).symm.trans hm
  subst he
  exact unjustified_of_dial rfl hs rfl hn

theorem step_bearer (hr : s.node.runner.at = .bearer) (hi : s.node.grant.at = .idle) (hh : s.node.grant.held = some c)
    (hp : ¬(node.runner.info ∧ Credentials.tokenPrefix c.secret = none)) :
    ∃ s', step node s (.node (.grant .bearer)) = some s' := by
  simp [step, answers, Stored.answers, Node.step, Node.admits, hr, DeviceGrant.step_held hi hh, DeviceGrant.State.answer,
    resume_bearer hr hp]

theorem unjustified_of_held (hr : s.node.runner.at = .bearer) (hs : s.node.runner.reenrolled = true)
    (hi : s.node.grant.at = .idle) (hh : s.node.grant.held = some c)
    (hp : ¬(node.runner.info ∧ Credentials.tokenPrefix c.secret = none)) (hn : ¬Obtained s c.secret) :
    ∃ es s', Run (Fires <| step node) s es s' ∧ ¬Justified s' := by
  have ⟨_, h⟩ := step_bearer hr hi hh hp
  have ⟨es, s'', r, j⟩ := unjustified_of_bearer hr hs (DeviceGrant.step_held hi hh) hp (by rw [hi]; exact hn) h
  exact ⟨_ :: es, s'', .step h r, j⟩

-- Where a credential is taken over against the condition, a refusal is all it takes.
theorem unjustified_of_adopts (r : Run (Fires <| step node) (init node store) es s) (hs : s.node.runner.reenrolled = true)
    (ha : s.node.grant.at.adopts c) (hn : ¬Obtained s c.secret)
    (hp : ¬(node.runner.info ∧ Credentials.tokenPrefix c.secret = none))
    (h : step node s (.node (.grant (.loaded (.ok (some c))))) = some s') :
    ∃ es' s'', Run (Fires <| step node) s' es' s'' ∧ ¬Justified s'' := by
  have w := Awaited.of_run r
  cases hl : s.node.grant.at <;> rw [hl] at ha
  case load call =>
    cases call
    case bearer =>
      exact unjustified_of_bearer (w.bearer hl) hs (DeviceGrant.step_found hl) hp (by rw [hl]; exact hn) h
    case forgetRefused =>
      -- The next bearer is what was taken over.
      have ⟨x, hx⟩ := w.forget hl
      have ⟨_, node', hk, he⟩ := step_node h
      have ⟨_, o, hg, hm⟩ := Node.step_grant hk
      cases (DeviceGrant.step_adopts hl ha).symm.trans hg
      cases hm.symm.trans (resume_forgotten hx)
      subst he
      exact unjustified_of_held rfl hs rfl rfl hp (by rw [hl]; exact hn)
  all_goals cases ha

end Shared.Loop
