import ZyrisDocker.Enroll.Basic

namespace DeviceGrant

-- An enrollment is going on, up to its approval.
def Suspension.enrolling : Suspension → Bool
  | enroll .. | poll _ | renew _ => true
  | _                            => false

theorem Suspension.ne_idle_of_enrolling {p : Suspension} (h : p.enrolling) : p ≠ .idle := by
  rintro rfl; cases h

-- The answers of the enrollment layer.
def Event.enrolls : Event → Bool
  | enrolled _ | polled _ | renewed _ => true
  | _                                 => false

-- A load that finds the credential takes it over.
def Suspension.adopts : Suspension → Credential → Bool
  | load .bearer,            _ => true
  | load (.forgetRefused r), c => r.all (·.secret ≠ c.secret)
  | _,                       _ => false

-- Everything a call can do between two suspensions, apart from what it logs.
inductive Moves (grant : DeviceGrant) (s : State) : Event → State × Option Answer → Prop
  | held (at_idle : s.at = .idle) (held : s.held = some c) :
    Moves grant s .bearer ({ s with «at» := .idle }, some (.bearer (.ok c.secret)))
  | loads (at_idle : s.at = .idle) (held : s.held = none) :
    Moves grant s .bearer ({ s with «at» := .load .bearer }, none)
  | forgets (at_idle : s.at = .idle) :
    Moves grant s .forgetRefused ({ s with held := none, «at» := .load (.forgetRefused s.held) }, none)
  | found (at_load : s.at = .load .bearer) :
    Moves grant s (.loaded (.ok (some c))) ({ s with held := c, «at» := .idle }, some (.bearer (.ok c.secret)))
  | absent (at_load : s.at = .load .bearer) :
    Moves grant s (.loaded (.ok none)) ({ s with «at» := .enroll grant.url grant.request }, none)
  | adopts (at_load : s.at = .load (.forgetRefused r)) (other : r.all (·.secret ≠ c.secret)) :
    Moves grant s (.loaded (.ok (some c))) ({ s with held := c, «at» := .idle }, some (.forgetRefused (.ok true)))
  | same (at_load : s.at = .load (.forgetRefused (some r))) (same : r.secret = c.secret) :
    Moves grant s (.loaded (.ok (some c))) ({ s with «at» := .clear (some r) }, none)
  | gone (at_load : s.at = .load (.forgetRefused r)) :
    Moves grant s (.loaded (.ok none)) ({ s with «at» := .clear r }, none)
  | discards (at_load : s.at = .load call) (discardable : x.isDiscardable) :
    Moves grant s (.loaded (.error x)) ({ s with «at» := .discard call x }, none)
  | refused (at_load : s.at = .load call) (final : ¬x.isDiscardable) :
    Moves grant s (.loaded (.error x)) ({ s with «at» := .idle }, some (call.fail (storeTrouble x)))
  | discarded (at_discard : s.at = .discard .bearer x) :
    Moves grant s (.cleared (.ok ())) ({ s with «at» := .enroll grant.url grant.request }, none)
  | forgotten (at_discard : s.at = .discard (.forgetRefused r) x) :
    Moves grant s (.cleared (.ok ())) ({ s with «at» := .clear r }, none)
  | stuck (at_discard : s.at = .discard call x) :
    Moves grant s (.cleared (.error y)) ({ s with «at» := .idle }, some (call.fail (storeTrouble y)))
  | enrolls (answer : e.enrolls) (before : s.at.enrolling) (after : p.enrolling) :
    Moves grant s e ({ s with log, «at» := p }, none)
  | granted (at_poll : s.at = .poll n) :
    Moves grant s (.polled (.ok (.granted c))) ({ s with «at» := .save c }, none)
  | fails (answer : e.enrolls) (before : s.at.enrolling) :
    Moves grant s e ({ s with log, «at» := .idle }, some (.bearer (.error err)))
  | saved (at_save : s.at = .save c) :
    Moves grant s (.saved (.ok ())) ({ held := c, log, «at» := .idle }, some (.bearer (.ok c.secret)))
  | unsaved (at_save : s.at = .save c) :
    Moves grant s (.saved (.error x)) ({ s with «at» := .idle }, some (.bearer (.error (storeTrouble x))))
  | cleared (at_clear : s.at = .clear r) :
    Moves grant s (.cleared (.ok ())) ({ s with «at» := .idle }, some (.forgetRefused (.ok true)))
  | uncleared (at_clear : s.at = .clear r) :
    Moves grant s (.cleared (.error x)) ({ s with «at» := .idle }, some (.forgetRefused (.error (storeTrouble x))))

variable {grant : DeviceGrant} {s : State} {o : State × Option Answer} {e : Event}

theorem stored_moves (h : s.at = .load call) : Moves grant s (.loaded (.ok c)) (stored grant s call c) := by
  cases call <;> cases c
  case bearer.none => exact .absent h
  case bearer.some => exact .found h
  case forgetRefused.none => exact .gone h
  case forgetRefused.some r c =>
    simp only [stored]
    split
    case isTrue hs  => exact .adopts h hs
    case isFalse hs =>
      cases r
      case none   => simp at hs
      case some r => exact .same h (by simpa using hs)

theorem poll_moves (h : s.at = .poll n) : Moves grant s (.polled (.ok progress)) (poll s n progress) := by
  have hp : s.at.enrolling := by simp [h, Suspension.enrolling]
  cases progress
  case waiting => exact .enrolls rfl hp rfl
  case granted => exact .granted h
  case denied  => exact .fails rfl hp
  case lapsed  =>
    simp only [poll]
    split
    case isTrue  => exact .fails rfl hp
    case isFalse => exact .enrolls rfl hp rfl

theorem step_moves (h : step grant s e = some o) : Moves grant s e o := by
  simp only [step] at h
  split at h
  case h_1 ha =>
    split at h <;> cases h
    case h_1 hh => exact .held ha hh
    case h_2 hh => exact .loads ha hh
  case h_2 ha => cases h; exact .forgets ha
  case h_3 ha => cases h; exact stored_moves ha
  case h_4 ha =>
    split at h <;> cases h
    case isTrue hd  => exact .discards ha hd
    case isFalse hd => exact .refused ha hd
  case h_5 call _ ha =>
    cases h
    cases call
    case bearer        => exact .discarded ha
    case forgetRefused => exact .forgotten ha
  case h_6 ha => cases h; exact .stuck ha
  case h_7 ha | h_11 ha => cases h; exact .enrolls rfl (by simp [ha, Suspension.enrolling]) rfl
  case h_8 ha | h_10 ha | h_12 ha => cases h; exact .fails rfl (by simp [ha, Suspension.enrolling])
  case h_9 ha => cases h; exact poll_moves ha
  case h_13 ha => cases h; exact .saved ha
  case h_14 ha => cases h; exact .unsaved ha
  case h_15 ha => cases h; exact .cleared ha
  case h_16 ha => cases h; exact .uncleared ha
  case h_17 => cases h

namespace Moves

-- Where a credential that is held comes from.
theorem held_cases (m : Moves grant s e o) (h : o.1.held = some c) :
    s.held = some c ∧ e ≠ .forgetRefused ∨ e = .loaded (.ok (some c)) ∧ s.at.adopts c ∨
    s.at = .save c ∧ e = .saved (.ok ()) := by
  cases m
  case found ha     => cases h; exact .inr (.inl ⟨rfl, by rw [ha]; rfl⟩)
  case adopts ha ho => cases h; exact .inr (.inl ⟨rfl, by rw [ha]; exact ho⟩)
  case saved ha     => cases h; exact .inr (.inr ⟨ha, rfl⟩)
  case forgets      => cases h
  case enrolls _ _ ha | fails _ ha => exact .inl ⟨h, fun he => by rw [he] at ha; cases ha⟩
  all_goals exact .inl ⟨h, nofun⟩

theorem granted_of_save (m : Moves grant s e o) (h : o.1.at = .save c) : e = .polled (.ok (.granted c)) := by
  cases m
  case granted      => cases h; rfl
  case enrolls ha _ => cases h; cases ha
  all_goals cases h

theorem held_of_returned (m : Moves grant s e o) (h : o.2 = some (.bearer (.ok secret))) :
    ∃ c, o.1.held = some c ∧ c.secret = secret ∧ o.1.at = .idle := by
  cases m
  case held hh           => cases h; exact ⟨_, hh, rfl, rfl⟩
  case found | saved     => cases h; exact ⟨_, rfl, rfl, rfl⟩
  case refused | stuck   => cases ‹Call› <;> cases h
  all_goals cases h

-- While a credential is held, `bearer` returns it.
theorem held_bearer (m : Moves grant s e o) (hi : s.at = .idle) (hh : s.held = some c) (he : e ≠ .forgetRefused) :
    o = ({ s with «at» := .idle }, some (.bearer (.ok c.secret))) := by
  cases m
  case held hc => cases hh.symm.trans hc; rfl
  case loads hc => cases hh.symm.trans hc
  case forgets => exact absurd rfl he
  case enrolls hb _ _ | fails hb _ => exact absurd hi (Suspension.ne_idle_of_enrolling hb)
  all_goals cases hi.symm.trans ‹s.at = _›

theorem loaded_of_discard (m : Moves grant s e o) (h : o.1.at = .discard call x) : e = .loaded (.error x) := by
  cases m
  case discards      => cases h; rfl
  case enrolls ha _  => cases h; cases ha
  all_goals cases h

-- Between two calls there is nothing but the next call.
theorem idle_inv (m : Moves grant s e o) (hi : s.at = .idle) : e = .bearer ∨ e = .forgetRefused := by
  cases m
  case held | loads                => exact .inl rfl
  case forgets                     => exact .inr rfl
  case enrolls hb _ _ | fails hb _ => exact absurd hi (Suspension.ne_idle_of_enrolling hb)
  all_goals cases hi.symm.trans ‹s.at = _›

-- A credential is held between calls only.
theorem idle_of_held (m : Moves grant s e o) (hh : ∀ c, s.held = some c → s.at = .idle) (h : o.1.held = some c) :
    o.1.at = .idle := by
  cases m
  case held | found | adopts | saved => rfl
  case loads hn                      => cases hn.symm.trans h
  case forgets                       => cases h
  case enrolls hb _ _ | fails hb _   => exact absurd (hh _ h) (Suspension.ne_idle_of_enrolling hb)
  all_goals cases (hh _ h).symm.trans ‹s.at = _›

end Moves

end DeviceGrant
