import ZyrisDocker.Enroll.Shared
import ZyrisDocker.Enroll.Theorems.Moves
import ZyrisDocker.Enroll.Theorems.Siblings

open Transition

namespace DeviceGrant

-- A call of `bearer` is executing, or none.
def Suspension.bearing : Suspension → Bool
  | load (.forgetRefused _) | discard (.forgetRefused _) _ | clear _ => false
  | _                                                                => true

theorem Suspension.bearing_of_enrolling {p : Suspension} (h : p.enrolling) : p.bearing := by
  cases p
  case enroll | poll | renew => rfl
  all_goals cases h

theorem Moves.bearing (m : Moves grant s e o) (hb : s.at.bearing) (he : e ≠ .forgetRefused) : o.1.at.bearing := by
  cases m
  case forgets            => exact absurd rfl he
  case enrolls hp _       => exact Suspension.bearing_of_enrolling hp
  case same ha _ | gone ha | forgotten ha => simp [ha, Suspension.bearing] at hb
  case discards ha _      =>
    rw [ha] at hb
    cases ‹Call›
    case bearer        => rfl
    case forgetRefused => cases hb
  all_goals rfl

end DeviceGrant

namespace Stored

theorem after_cases (stored : Stored) (p : DeviceGrant.Suspension) (e : DeviceGrant.Event) :
    stored.after p e = stored ∨ stored.after p e = .empty ∨ ∃ c, p = .save c ∧ stored.after p e = .credential c := by
  unfold after
  split
  case h_1 => exact .inr (.inl rfl)
  case h_2 => exact .inr (.inr ⟨_, rfl, rfl⟩)
  case h_3 => exact .inl rfl

end Stored

namespace Shared

-- Nothing is written, and nothing is granted, that has the secret of `h`.
def Fresh (h : Credential) (_ : State) : Event → State → Prop
  | .put stored, _                             => ∀ c, stored = .credential c → c.secret ≠ h.secret
  | .grant (.polled (.ok (.granted c))), _     => c.secret ≠ h.secret
  | _, _                                       => True

-- A credential that was found in the store or granted.
def Origin (es : List Event) (c : Credential) : Prop :=
  .grant (.loaded (.ok (some c))) ∈ es ∨ .grant (.polled (.ok (.granted c))) ∈ es

-- The secret of `h` is neither held nor stored nor about to be.
structure Clean (h : Credential) (es : List Event) (s : State) : Prop where
  store    : ∀ c, s.store = .credential c → c.secret ≠ h.secret
  held     : ∀ c, s.grant.held = some c → c.secret ≠ h.secret ∧ Origin es c
  save     : ∀ c, s.grant.at = .save c → c.secret ≠ h.secret ∧ Origin es c
  returned : ∀ secret, s.returned = some (.bearer (.ok secret)) → ∃ c, s.grant.held = some c ∧ c.secret = secret

-- What was found with another secret than that of `h` is held, and it is what is returned.
def Adopted (h : Credential) (es : List Event) (s : State) : Prop :=
  ∀ c, .grant (.loaded (.ok (some c))) ∈ es → c.secret ≠ h.secret →
    s.grant.held = some c ∧ s.grant.at = .idle ∧ ∀ r, s.returned = some (.bearer r) → r = .ok c.secret

-- `forgetRefused` was called with `h` and has not returned yet.
structure Forgetting (h : Credential) (es : List Event) (s : State) : Prop where
  held  : s.grant.held = none
  «at»  : s.grant.at = .load (.forgetRefused (some h)) ∨ (∃ x, s.grant.at = .discard (.forgetRefused (some h)) x) ∨
    s.grant.at = .clear (some h)
  found : ∀ c, .grant (.loaded (.ok (some c))) ∈ es → c.secret = h.secret
  quiet : s.returned = none

-- `forgetRefused` has returned, and nobody has called anything since.
structure Forgotten (h : Credential) (es : List Event) (s : State) : Prop where
  idle    : s.grant.at = .idle
  adopted : Adopted h es s
  clean   : s.returned = some (.forgetRefused (.ok true)) → Clean h es s

variable {grant : DeviceGrant} {h : Credential} {s s' : State} {es : List Event} {c : Credential}

theorem step_grant {e : DeviceGrant.Event} (hs : step grant s (.grant e) = some s') :
    s.store.answers e ∧ ∃ o, DeviceGrant.Moves grant s.grant e o ∧
      s' = { store := s.store.after s.grant.at e, grant := o.1, returned := o.2 } := by
  simp only [step] at hs
  split at hs
  case isFalse   => cases hs
  case isTrue ha =>
    have ⟨o, hm, he⟩ := Option.map_eq_some_iff.mp hs
    exact ⟨ha, o, DeviceGrant.step_moves hm, he.symm⟩

theorem Origin.append (ho : Origin es c) (es' : List Event) : Origin (es ++ es') c :=
  ho.imp (List.mem_append_left _) (List.mem_append_left _)

namespace Clean

theorem put (k : Clean h es s) (hf : ∀ c, stored = .credential c → c.secret ≠ h.secret) :
    Clean h (es ++ [e]) { s with store := stored, returned := none } where
  store       := hf
  held c hc   := ⟨(k.held c hc).1, (k.held c hc).2.append _⟩
  save c hc   := ⟨(k.save c hc).1, (k.save c hc).2.append _⟩
  returned    := nofun

theorem call {e : DeviceGrant.Event} (k : Clean h es s) (hf : Fresh h s (.grant e) s') (ha : s.store.answers e)
    (m : DeviceGrant.Moves grant s.grant e o) :
    Clean h (es ++ [.grant e]) { store := s.store.after s.grant.at e, grant := o.1, returned := o.2 } where
  store c hc := by
    obtain hs | hs | ⟨_, hp, hs⟩ := s.store.after_cases s.grant.at e
    · exact k.store c (hs ▸ hc)
    · cases hs.symm.trans hc
    · cases hs.symm.trans hc
      exact (k.save c hp).1
  held c hc := by
    obtain ⟨hs, _⟩ | ⟨rfl, _⟩ | ⟨hs, _⟩ := m.held_cases hc
    · exact ⟨(k.held c hs).1, (k.held c hs).2.append _⟩
    · exact ⟨k.store c (Stored.eq_credential ha), .inl (by simp)⟩
    · exact ⟨(k.save c hs).1, (k.save c hs).2.append _⟩
  save c hc := by
    cases m.granted_of_save hc
    exact ⟨hf, .inr (by simp)⟩
  returned _ hr :=
    have ⟨c, hc, hs, _⟩ := m.held_of_returned hr
    ⟨c, hc, hs⟩

theorem step (k : Clean h es s) (g : Guard (Fires <| Shared.step grant) (Fresh h) s e s') : Clean h (es ++ [e]) s' := by
  have ⟨hs, hf⟩ := g
  cases e
  case put => cases hs; exact k.put hf
  case grant =>
    have ⟨ha, _, m, he⟩ := step_grant hs
    exact he ▸ k.call (show Fresh h s (.grant _) s' from hf) ha m

end Clean

theorem Adopted.step (a : Adopted h es s) (hb : s.grant.at.bearing) (he : e ≠ .grant .forgetRefused)
    (hs : Shared.step grant s e = some s') : Adopted h (es ++ [e]) s' := by
  intro c hc hn
  cases e
  case put =>
    cases hs
    have ⟨hh, hi, _⟩ := a c (by simpa using hc) hn
    exact ⟨hh, hi, nofun⟩
  case grant e =>
    have ⟨_, o, m, hs⟩ := step_grant hs
    subst hs
    cases List.mem_append.mp hc
    case inl hc =>
      have ⟨hh, hi, _⟩ := a c hc hn
      rw [m.held_bearer hi hh (he <| congrArg _ ·)]
      exact ⟨hh, rfl, fun _ hr => by cases hr; rfl⟩
    case inr hc =>
      cases List.mem_singleton.mp hc
      cases m
      case found                       => exact ⟨rfl, rfl, fun _ hr => by cases hr; rfl⟩
      case adopts ha _ | same ha _     => simp [ha, DeviceGrant.Suspension.bearing] at hb
      case enrolls _ _ he | fails _ he => cases he

theorem bearing_step (hb : s.grant.at.bearing) (he : e ≠ .grant .forgetRefused) (hs : Shared.step grant s e = some s') :
    s'.grant.at.bearing := by
  cases e
  case put => cases hs; exact hb
  case grant =>
    have ⟨_, _, m, hs⟩ := step_grant hs
    exact hs ▸ m.bearing hb (he <| congrArg _ ·)

namespace Forgetting

theorem put (k : Forgetting h es s) : Forgetting h (es ++ [.put stored]) { s with store := stored, returned := none } where
  held      := k.held
  «at»      := k.at
  found c h := k.found c (by simpa using h)
  quiet     := rfl

-- The load finds another credential.
theorem adopts (k : Forgetting h es s) (ha : s.store.answers (.loaded (.ok (some c)))) (hc : c.secret ≠ h.secret) :
    Forgotten h (es ++ [.grant (.loaded (.ok (some c)))])
      { store := s.store, grant := { s.grant with held := c, «at» := .idle }, returned := some (.forgetRefused (.ok true)) } where
  idle := rfl
  adopted c' hm hn := by
    cases List.mem_append.mp hm
    case inl hm => exact absurd (k.found c' hm) hn
    case inr hm => cases List.mem_singleton.mp hm; exact ⟨rfl, rfl, nofun⟩
  clean _ := by
    refine ⟨fun c' hs => ?_, fun c' hh => ?_, nofun, nofun⟩
    · cases (Stored.eq_credential ha).symm.trans hs; exact hc
    · cases hh; exact ⟨hc, .inl (by simp)⟩

-- The call ends without a credential.
theorem ends {e : DeviceGrant.Event} (k : Forgetting h es s) (hl : ∀ c, e ≠ .loaded (.ok (some c)))
    (hs : returned = some (.forgetRefused (.ok true)) → store = .empty) (hb : ∀ r, returned ≠ some (.bearer r)) :
    Forgotten h (es ++ [.grant e]) { store, grant := { s.grant with «at» := .idle }, returned } where
  idle := rfl
  adopted c hm hn := by
    cases List.mem_append.mp hm
    case inl hm => exact absurd (k.found c hm) hn
    case inr hm => cases List.mem_singleton.mp hm; exact absurd rfl (hl c)
  clean hr := by
    refine ⟨fun c hc => ?_, fun c hc => ?_, nofun, fun _ hr => absurd hr (hb _)⟩
    · cases (hs hr).symm.trans hc
    · cases k.held.symm.trans hc

-- The call goes on.
theorem goes {e : DeviceGrant.Event} (k : Forgetting h es s) (hl : ∀ c, e = .loaded (.ok (some c)) → c.secret = h.secret)
    (hp : (∃ x, p = .discard (.forgetRefused (some h)) x) ∨ p = .clear (some h)) :
    Forgetting h (es ++ [.grant e]) { store, grant := { s.grant with «at» := p }, returned := none } where
  held  := k.held
  «at»  := .inr hp
  quiet := rfl
  found c hm := by
    cases List.mem_append.mp hm
    case inl hm => exact k.found c hm
    case inr hm => cases List.mem_singleton.mp hm; exact hl c rfl

theorem load_eq (k : Forgetting h es s) (ha : s.grant.at = .load caller) : caller = .forgetRefused (some h) := by
  obtain h' | ⟨_, h'⟩ | h' := k.at <;> cases h'.symm.trans ha
  rfl

theorem discard_eq (k : Forgetting h es s) (ha : s.grant.at = .discard caller x) : caller = .forgetRefused (some h) := by
  obtain h' | ⟨_, h'⟩ | h' := k.at <;> cases h'.symm.trans ha
  rfl

theorem not_enrolling (k : Forgetting h es s) : s.grant.at.enrolling = false := by
  obtain h' | ⟨_, h'⟩ | h' := k.at <;> rw [h'] <;> rfl

theorem call {e : DeviceGrant.Event} (k : Forgetting h es s) (ha : s.store.answers e) (m : DeviceGrant.Moves grant s.grant e o) :
    Forgetting h (es ++ [.grant e]) { store := s.store.after s.grant.at e, grant := o.1, returned := o.2 } ∨
    Forgotten h (es ++ [.grant e]) { store := s.store.after s.grant.at e, grant := o.1, returned := o.2 } := by
  cases m
  case adopts hl ho =>
    cases k.load_eq hl
    exact .inr (k.adopts ha fun hs => by simp [hs] at ho)
  case same hl hs =>
    cases k.load_eq hl
    exact .inl (k.goes (fun _ he => by cases he; exact hs.symm) (.inr rfl))
  case gone hl =>
    cases k.load_eq hl
    exact .inl (k.goes nofun (.inr rfl))
  case discards hl _ =>
    cases k.load_eq hl
    exact .inl (k.goes nofun (.inl ⟨_, rfl⟩))
  case refused hl _ =>
    cases k.load_eq hl
    exact .inr (k.ends nofun nofun nofun)
  case forgotten hd =>
    cases k.discard_eq hd
    exact .inl (k.goes nofun (.inr rfl))
  case stuck hd =>
    cases k.discard_eq hd
    exact .inr (k.ends nofun nofun nofun)
  case cleared   => exact .inr (k.ends nofun (fun _ => rfl) nofun)
  case uncleared => exact .inr (k.ends nofun nofun nofun)
  case enrolls hb _ _ | fails hb _ => cases k.not_enrolling.symm.trans hb
  all_goals
    have hq := ‹s.grant.at = _›
    obtain h' | ⟨_, h'⟩ | h' := k.at <;> cases h'.symm.trans hq

theorem step (k : Forgetting h es s) (g : Guard (Fires <| Shared.step grant) (Fresh h) s e s') :
    Forgetting h (es ++ [e]) s' ∨ Forgotten h (es ++ [e]) s' := by
  cases e
  case put =>
    cases g.fires
    exact .inl k.put
  case grant =>
    have ⟨ha, _, m, hs⟩ := step_grant g.fires
    exact hs ▸ k.call ha m

end Forgetting

theorem Forgotten.step (f : Forgotten h es s) (hc : e ≠ .grant .bearer ∧ e ≠ .grant .forgetRefused)
    (hs : Shared.step grant s e = some s') : Forgotten h (es ++ [e]) s' := by
  have hb : s.grant.at.bearing := by simp [f.idle, DeviceGrant.Suspension.bearing]
  have ha := f.adopted.step hb hc.2 hs
  cases e
  case put => cases hs; exact ⟨f.idle, ha, nofun⟩
  case grant e =>
    have ⟨_, _, m, _⟩ := step_grant hs
    cases m.idle_inv f.idle
    case inl he => exact absurd (congrArg _ he) hc.1
    case inr he => exact absurd (congrArg _ he) hc.2

-- A call of `forgetRefused`, until somebody calls the next one.
theorem forget_run (hh : s.grant.held = some h)
    (r : Run (Guard (Fires <| step grant) (Fresh h)) s (.grant .forgetRefused :: es) s')
    (hc : ∀ e ∈ es, e ≠ .grant .bearer ∧ e ≠ .grant .forgetRefused) : Forgetting h es s' ∨ Forgotten h es s' := by
  have ⟨s₁, g, r⟩ := r.cons_inv
  have k : Forgetting h [] s₁ := by
    have ⟨_, _, m, hs⟩ := step_grant g.fires
    subst hs
    cases m
    case forgets => exact ⟨rfl, .inl (by rw [hh]), nofun, rfl⟩
    case enrolls _ _ he | fails _ he => cases he
  refine r.snoc_induction
    (motive := fun es s => (∀ e ∈ es, e ≠ .grant .bearer ∧ e ≠ .grant .forgetRefused) → Forgetting h es s ∨ Forgotten h es s)
    (fun _ => .inl k) (fun es s e s' _ g ih hc => ?_) hc
  cases ih fun e he => hc e (by simp [he])
  case inl k => exact k.step g
  case inr f => exact .inr (f.step (hc e (by simp)) g.fires)

theorem forgotten_never_returned (hh : s.grant.held = some h)
    (r : Run (Guard (Fires <| step grant) (Fresh h)) s (.grant .forgetRefused :: es) s₁)
    (hc : ∀ e ∈ es, e ≠ .grant .bearer ∧ e ≠ .grant .forgetRefused)
    (h₁ : s₁.returned = some (.forgetRefused (.ok true))) :
    (∀ es₂ s₂ secret, Run (Guard (Fires <| step grant) (Fresh h)) s₁ es₂ s₂ → s₂.returned = some (.bearer (.ok secret)) →
      secret ≠ h.secret ∧ ∃ c, c.secret = secret ∧ Origin (es ++ es₂) c) ∧
    (∀ es₂ s₂ c, Run (Guard (Fires <| step grant) (Fresh h)) s₁ es₂ s₂ → .grant .forgetRefused ∉ es₂ →
      .grant (.loaded (.ok (some c))) ∈ es ++ es₂ → c.secret ≠ h.secret →
      s₂.grant.held = some c ∧ s₂.grant.at.enrolling = false ∧ ∀ r, s₂.returned = some (.bearer r) → r = .ok c.secret) := by
  have f := (forget_run hh r hc).resolve_left fun k => by simp [k.quiet] at h₁
  refine ⟨fun es₂ s₂ secret r₂ hr => ?_, fun es₂ s₂ c r₂ hf hm hn => ?_⟩
  case refine_1 =>
    have k : Clean h (es ++ es₂) s₂ := r₂.snoc_induction (motive := fun es₂ s => Clean h (es ++ es₂) s)
      (by simpa using f.clean h₁) fun es₂ _ e _ _ g k => by simpa using k.step g
    have ⟨c, hc, hs⟩ := k.returned secret hr
    have ⟨hn, ho⟩ := k.held c hc
    exact ⟨hs ▸ hn, c, hs, ho⟩
  case refine_2 =>
    have r₂ := r₂.unguard.guard (P := (· ≠ .grant .forgetRefused)) fun e he hf' => hf (hf' ▸ he)
    have ⟨a, _⟩ : Adopted h (es ++ es₂) s₂ ∧ s₂.grant.at.bearing := r₂.snoc_induction
      (motive := fun es₂ s => Adopted h (es ++ es₂) s ∧ s.grant.at.bearing)
      ⟨by simpa using f.adopted, by simp [f.idle, DeviceGrant.Suspension.bearing]⟩
      fun es₂ _ e _ _ g ⟨a, hb⟩ => ⟨by simpa using a.step hb g.meets g.fires, bearing_step hb g.meets g.fires⟩
    have ⟨hh, hi, hr⟩ := a c hm hn
    exact ⟨hh, by rw [hi]; rfl, hr⟩

-- The refused credential is still stored. A sibling writes a new one after it was cleared.
theorem forgotten_never_returned_adopted :
    let named : Named := ⟨"", "", ""⟩
    let old : Credential := ⟨2, "zc_old", named, named, [], ""⟩
    let new : Credential := ⟨2, "zc_new", named, named, [], ""⟩
    let grant : DeviceGrant := ⟨"", ⟨"", "", "", []⟩, fun _ => ""⟩
    let es : List Event := [.grant (.loaded (.ok (some old))), .grant (.cleared (.ok ()))]
    let es₂ : List Event := [.put (.credential new), .grant .bearer, .grant (.loaded (.ok (some new)))]
    ∃ s, Run (Fires <| step grant) ⟨.credential old, ⟨old, [], .idle⟩, none⟩ (.grant .forgetRefused :: es ++ es₂) s ∧
      s.grant.held = some new ∧ s.grant.at.enrolling = false := by
  intro named old new grant es es₂
  have ⟨s₁, r₁, h₁⟩ : ∃ s, Run (Guard (Fires <| step grant) (Fresh old)) ⟨.credential old, ⟨old, [], .idle⟩, none⟩
      (.grant .forgetRefused :: es) s ∧ s = ⟨.empty, ⟨none, [], .idle⟩, some (.forgetRefused (.ok true))⟩ :=
    ⟨_, .step ⟨rfl, trivial⟩ <| .step ⟨rfl, trivial⟩ <| .step ⟨rfl, trivial⟩ .refl, rfl⟩
  subst h₁
  have ⟨s₂, r₂⟩ : ∃ s, Run (Guard (Fires <| step grant) (Fresh old))
      ⟨.empty, ⟨none, [], .idle⟩, some (.forgetRefused (.ok true))⟩ es₂ s :=
    ⟨_, .step ⟨rfl, fun _ h => by cases h; decide⟩ <| .step ⟨rfl, trivial⟩ <| .step ⟨rfl, trivial⟩ .refl⟩
  have ⟨_, adopted⟩ := forgotten_never_returned (h := old) rfl r₁ (by simp [es]) rfl
  have ⟨hh, hn, _⟩ := adopted es₂ s₂ new r₂ (by simp [es₂]) (by simp [es₂]) (by decide)
  exact ⟨s₂, r₁.unguard.append r₂.unguard, hh, hn⟩

end Shared
