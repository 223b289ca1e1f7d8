import ZyrisDocker.Enroll.Siblings

open Transition

namespace DeviceGrant

-- A call is past its load and on its way to a clear.
def Suspension.clearing : Suspension → Bool
  | .discard .. | .clear _ => true
  | _                      => false

-- The credential that a call of `forgetRefused` took.
def Suspension.refused : Suspension → Option Credential
  | .load (.forgetRefused r)      => r
  | .discard (.forgetRefused r) _ => r
  | .clear r                      => r
  | _                             => none

-- A suspension from which the call does not clear the store without another load.
structure Suspension.Settled (p : Suspension) : Prop where
  clearing : p.clearing = false
  refused  : p.refused = none

-- The steps of a call to its clear.
inductive Clears (held : Option Credential) : Suspension → Event → Suspension → Prop
  | taken : Clears held .idle .forgetRefused (.load (.forgetRefused held))
  | unusable (discardable : e.isDiscardable) :
    Clears held (.load call) (.loaded (.error e)) (.discard call e)
  | absent : Clears held (.load (.forgetRefused r)) (.loaded (.ok none)) (.clear r)
  | refused (same : r.secret = c.secret) :
    Clears held (.load (.forgetRefused (some r))) (.loaded (.ok (some c))) (.clear (some r))
  | discarded : Clears held (.discard (.forgetRefused r) e) (.cleared (.ok ())) (.clear r)

variable {grant : DeviceGrant} {s : State} {o : State × Option Answer} {e : Event}

theorem poll_settled (s : State) (n : Nat) (p : Progress) : (poll s n p).1.at.Settled := by
  cases p <;> simp only [poll]
  case lapsed => split <;> exact ⟨rfl, rfl⟩
  all_goals exact ⟨rfl, rfl⟩

-- A caller of `stored` goes on to clear the store only in `forgetRefused`, and a credential that was
-- found has the secret of the refused one then.
theorem stored_cases (grant : DeviceGrant) (s : State) (call : Call) (c : Option Credential) :
    (stored grant s call c).1.at.Settled ∨
    ∃ r, call = .forgetRefused r ∧ (stored grant s call c).1.at = .clear r ∧
      ∀ c', c = some c' → ∃ r', r = some r' ∧ r'.secret = c'.secret := by
  cases call <;> cases c
  case forgetRefused.none r => exact .inr ⟨r, rfl, rfl, nofun⟩
  case forgetRefused.some r c =>
    simp only [stored]
    split
    case isTrue     => exact .inl ⟨rfl, rfl⟩
    case isFalse hs =>
      refine .inr ⟨r, rfl, rfl, ?_⟩
      cases r <;> simp_all
  all_goals exact .inl ⟨rfl, rfl⟩

theorem step_cases (h : step grant s e = some o) : o.1.at.Settled ∨ Clears s.held s.at e o.1.at := by
  simp only [step] at h
  split at h
  case h_1 => split at h <;> cases h <;> exact .inl ⟨rfl, rfl⟩
  case h_2 ha => cases h; exact .inr (ha ▸ .taken)
  case h_3 call c ha =>
    cases h
    refine (stored_cases grant s call c).imp id fun ⟨r, hr, hs, hm⟩ => ?_
    subst hr
    rw [ha, hs]
    cases c
    case none => exact .absent
    case some =>
      have ⟨_, hr, he⟩ := hm _ rfl
      exact hr ▸ .refused he
  case h_4 ha =>
    split at h <;> cases h
    case isTrue hd => exact .inr (ha ▸ .unusable hd)
    case isFalse   => exact .inl (by cases ‹Call› <;> exact ⟨rfl, rfl⟩)
  case h_5 call e ha =>
    cases h
    refine (stored_cases grant s call none).imp id fun ⟨r, hr, hs, _⟩ => ?_
    subst hr
    exact ha ▸ hs ▸ .discarded
  case h_9 => cases h; exact .inl (poll_settled ..)
  case h_17 => cases h
  all_goals
    cases h
    exact .inl ⟨rfl, rfl⟩

theorem clearing_of_cleared (h : step grant s (.cleared (.ok ())) = some o) : s.at.clearing := by
  generalize he : Event.cleared (.ok ()) = e at h
  simp only [step] at h
  split at h
  case h_5 ha | h_15 ha => simp [ha, Suspension.clearing]
  all_goals cases he <;> cases h

end DeviceGrant

namespace Stored

theorem eq_empty {stored : Stored} (h : stored.answers (.loaded (.ok none))) : stored = .empty := by
  cases stored <;> simp [answers, load] at h
  rfl

theorem eq_credential {stored : Stored} (h : stored.answers (.loaded (.ok (some c)))) : stored = .credential c := by
  cases stored <;> simp [answers, load] at h
  rw [h]

theorem eq_broken {stored : Stored} (h : stored.answers (.loaded (.error e))) : ∃ text, stored = .broken text e := by
  cases stored <;> simp [answers, load] at h
  exact ⟨_, by rw [h]⟩

end Stored

namespace Siblings

-- The node found what it last loaded to be unusable, or was refused with it.
inductive Condemned (refusals : List Credential) : DeviceGrant.Suspension → Stored → Prop
  | unusable (discardable : e.isDiscardable) : Condemned refusals (.discard call e) (.broken text e)
  | refused (mem : r ∈ refusals) (same : r.secret = c.secret) : Condemned refusals (.clear (some r)) (.credential c)

-- A save lands only while no other node is between its load and its clear, and not on a credential
-- that no node was refused with.
def Apart (s : State ι) (e : Event ι) (_ : State ι) : Prop :=
  ∀ c ∈ saves (s.nodes e.node).at e.event,
    (∀ i, i ≠ e.node → (s.nodes i).at.clearing = false) ∧
    ∀ c', s.store = .credential c' → ∃ r ∈ s.refusals, r.secret = c'.secret

-- What a node on its way to a clear knows about the store.
structure Aware (s : State ι) (i : ι) : Prop where
  clearing : (s.nodes i).at.clearing →
    s.store = .empty ∨ s.store = s.seen i ∧ Condemned s.refusals (s.nodes i).at (s.seen i)
  refused  : (s.nodes i).at.refused = some r → r ∈ s.refusals

theorem Condemned.mono (h : Condemned rs p stored) (hr : rs ⊆ rs') : Condemned rs' p stored := by
  cases h
  case unusable hd    => exact .unusable hd
  case refused hm hs  => exact .refused (hr hm) hs

theorem Condemned.credential (h : Condemned rs p (.credential c)) : ∃ r ∈ rs, r.secret = c.secret := by
  cases h
  case refused hm hs => exact ⟨_, hm, hs⟩

theorem Aware.init : Aware (init store : State ι) i where
  clearing := nofun
  refused  := nofun

variable [DecidableEq ι] {grant : ι → DeviceGrant} {s s' : State ι} {e : Event ι} {es : List (Event ι)}

theorem step_inv (h : step grant s e = some s') :
    s.store.answers e.event ∧ ∃ o, DeviceGrant.step (grant e.node) (s.nodes e.node) e.event = some o ∧ s' = {
      store    := s.store.after (s.nodes e.node).at e.event
      nodes    := Function.update s.nodes e.node o.1
      seen     := Function.update s.seen e.node (sees s.store (s.seen e.node) e.event)
      refusals := refused (s.nodes e.node) e.event ++ s.refusals
      saved    := saves (s.nodes e.node).at e.event ++ s.saved
    } := by
  simp only [step] at h
  split at h
  case isTrue ha =>
    have ⟨o, ho, hs⟩ := Option.map_eq_some_iff.mp h
    exact ⟨ha, o, ho, hs.symm⟩
  case isFalse => cases h

theorem after_cases (stored : Stored) (p : DeviceGrant.Suspension) (e : DeviceGrant.Event) :
    (e = .cleared (.ok ()) ∧ saves p e = [] ∧ stored.after p e = .empty) ∨
    (∃ c, saves p e = [c] ∧ stored.after p e = .credential c) ∨
    (saves p e = [] ∧ stored.after p e = stored) := by
  unfold Stored.after
  split
  case h_1 => exact .inl ⟨rfl, by simp [saves], rfl⟩
  case h_2 => exact .inr <| .inl ⟨_, rfl, rfl⟩
  case h_3 =>
    refine .inr <| .inr ⟨?_, rfl⟩
    unfold saves
    split <;> simp_all

namespace Aware

theorem other (a : Aware s i) (hi : i ≠ e.node) (hp : Apart s e s') (h : step grant s e = some s') : Aware s' i := by
  have ⟨_, o, _, hs⟩ := step_inv h
  subst hs
  constructor <;> simp only [Function.update_of_ne hi]
  case clearing =>
    intro hc
    match after_cases s.store (s.nodes e.node).at e.event with
    | .inl ⟨_, _, he⟩          => exact .inl he
    | .inr (.inl ⟨c, hs, _⟩)   => simp [(hp c (by simp [hs])).1 i hi] at hc
    | .inr (.inr ⟨_, he⟩)      =>
      rw [he]
      exact (a.clearing hc).imp id fun ⟨hs, hd⟩ => ⟨hs, hd.mono <| List.subset_append_right ..⟩
  case refused =>
    intro r hr
    exact List.mem_append_right _ (a.refused hr)

theorem self (a : Aware s e.node) (h : step grant s e = some s') : Aware s' e.node := by
  have ⟨ha, o, ho, hs⟩ := step_inv h
  subst hs
  have hr := @a.refused
  cases DeviceGrant.step_cases ho
  case inl hs => constructor <;> simp [hs.clearing, hs.refused]
  case inr hc =>
    constructor <;> simp only [Function.update_self]
    all_goals
      revert hr ha hc
      generalize s.nodes e.node = node, e.event = e, o.1.at = q
      intro ha hr hc
    case clearing =>
      generalize node.at = p at hc hr
      intro hq
      cases hc
      case taken       => cases hq
      case unusable hd =>
        have ⟨text, hs⟩ := Stored.eq_broken ha
        simp only [Stored.after, sees, hs]
        exact .inr ⟨trivial, .unusable hd⟩
      case absent      => exact .inl (Stored.eq_empty ha)
      case refused hs  =>
        rw [Stored.eq_credential ha]
        exact .inr ⟨rfl, .refused (List.mem_append_right _ (hr rfl)) hs⟩
      case discarded   => exact .inl rfl
    case refused =>
      intro r hq
      generalize hp : node.at = p at hc hr
      cases hc
      case taken =>
        have hh : node.held = some r := hq
        simp [Siblings.refused, hh]
      case unusable =>
        cases ‹DeviceGrant.Call›
        case bearer        => cases hq
        case forgetRefused => exact List.mem_append_right _ (hr hq)
      all_goals exact List.mem_append_right _ (hr hq)

end Aware

theorem aware_of_run (r : Run (Guard (Fires (step grant)) Apart) (init store) es s) (i : ι) : Aware s i := by
  refine r.preserves (I := fun s => ∀ i, Aware s i) (fun _ => .init) (fun s e s' a h i => ?_) i
  by_cases hi : i = e.node
  · exact hi ▸ (a e.node).self h.fires
  · exact (a i).other hi h.meets h.fires

-- What a node clears is gone already, or is what the node found before.
theorem Aware.clear (a : Aware s i) (h : step grant s ⟨i, .cleared (.ok ())⟩ = some s') :
    s.store = .empty ∨ s.store = s.seen i ∧ Condemned s.refusals (s.nodes i).at (s.seen i) :=
  have ⟨_, _, ho, _⟩ := step_inv h
  a.clearing <| DeviceGrant.clearing_of_cleared ho

-- What a sibling has saved is stored, or some node was refused with it.
def Kept (s : State ι) : Prop :=
  ∀ c ∈ s.saved, s.store = .credential c ∨ ∃ r ∈ s.refusals, r.secret = c.secret

-- A clear by a node that is aware of the store takes nothing away that was not refused.
theorem Kept.cleared (k : Kept s) (a : Aware s i) (h : Siblings.step grant s ⟨i, .cleared (.ok ())⟩ = some s')
    (hc : c ∈ s.saved) : ∃ r ∈ s.refusals, r.secret = c.secret := by
  cases k c hc
  case inr hr => exact hr
  case inl hs =>
    cases a.clear h
    case inl he => cases hs.symm.trans he
    case inr he =>
      have ⟨he, hd⟩ := he
      rw [← he, hs] at hd
      exact hd.credential

theorem Kept.step (k : Kept s) (a : ∀ i, Aware s i) (hp : Apart s e s') (h : Siblings.step grant s e = some s') :
    Kept s' := by
  obtain ⟨i, e⟩ := e
  have ⟨_, _, _, hs⟩ := step_inv h
  intro c hc
  have grow : (∃ r ∈ s.refusals, r.secret = c.secret) → ∃ r ∈ s'.refusals, r.secret = c.secret :=
    fun ⟨r, hr, he⟩ => ⟨r, hs ▸ List.mem_append_right _ hr, he⟩
  match after_cases s.store (s.nodes i).at e with
  | .inl ⟨he, hn, _⟩ =>
    have hc : c ∈ s.saved := by simpa [hs, hn] using hc
    exact .inr <| grow <| k.cleared (a i) (he ▸ h) hc
  | .inr (.inl ⟨c', hn, he⟩) =>
    have hc : c = c' ∨ c ∈ s.saved := by simpa [hs, hn] using hc
    cases hc
    case inl hc => exact .inl (by simp [hs, he, hc])
    case inr hc =>
      refine .inr <| grow ?_
      exact (k c hc).elim ((hp c' (by simp [hn])).2 c) id
  | .inr (.inr ⟨hn, he⟩) =>
    have hc : c ∈ s.saved := by simpa [hs, hn] using hc
    exact (k c hc).imp (by simpa [hs, he] using ·) grow

theorem clears_observed (r : Run (Guard (Fires (step grant)) Apart) (init store) es s) :
    (∀ i s', step grant s ⟨i, .cleared (.ok ())⟩ = some s' →
      s.store = .empty ∨ s.store = s.seen i ∧ Condemned s.refusals (s.nodes i).at (s.seen i)) ∧
    (∀ c ∈ s.saved, s.store = .credential c ∨ ∃ r ∈ s.refusals, r.secret = c.secret) := by
  constructor
  case left  => exact fun i _ h => aware_of_run r i |>.clear h
  case right =>
    refine r.snoc_induction (motive := fun _ s => Kept s) nofun fun es s e s' r h k => ?_
    exact k.step (aware_of_run r) h.meets h.fires

-- A run without a save that succeeds meets the condition.
theorem run_apart (r : Run (Fires (step grant)) s es s') (h : ∀ e ∈ es, e.event ≠ .saved (.ok ())) :
    Run (Guard (Fires (step grant)) Apart) s es s' := by
  refine (r.guard h).mono fun {s e s'} g => ⟨g.fires, fun c hc => ?_⟩
  unfold saves at hc
  split at hc
  case h_1 he => exact absurd he g.meets
  case h_2    => cases hc

-- Both nodes hold `old`. One is refused, clears the store, enrolls again and saves `new`, which the other one adopts
-- when it is refused in turn.
theorem clears_observed_enrolled :
    let named : Named := ⟨"", "", ""⟩
    let old : Credential := ⟨2, "zc_old", named, named, [], ""⟩
    let new : Credential := ⟨2, "zc_new", named, named, [], ""⟩
    let grant : DeviceGrant := ⟨"", ⟨"", "", "", []⟩, fun _ => ""⟩
    let holding (i : Bool) : List (Event Bool) := [⟨i, .bearer⟩, ⟨i, .loaded (.ok (some old))⟩]
    let forgets : List (Event Bool) := [⟨true, .forgetRefused⟩, ⟨true, .loaded (.ok (some old))⟩]
    let enrolls : List (Event Bool) := [⟨true, .cleared (.ok ())⟩, ⟨true, .bearer⟩, ⟨true, .loaded (.ok none)⟩,
      ⟨true, .enrolled (.ok ⟨"", "", 0⟩)⟩, ⟨true, .polled (.ok (.granted new))⟩]
    let adopts : List (Event Bool) := [⟨false, .forgetRefused⟩, ⟨false, .loaded (.ok (some new))⟩]
    ∃ s₁ s₁' s, Run (Fires (step fun _ => grant)) (init (.credential old)) (holding true ++ holding false ++ forgets) s₁ ∧
      step (fun _ => grant) s₁ ⟨true, .cleared (.ok ())⟩ = some s₁' ∧
      (s₁.store = .empty ∨ s₁.store = s₁.seen true ∧ Condemned s₁.refusals (s₁.nodes true).at (s₁.seen true)) ∧
      Run (Fires (step fun _ => grant)) s₁ (enrolls ++ [⟨true, .saved (.ok ())⟩] ++ adopts) s ∧ new ∈ s.saved ∧
      (s.nodes false).held = some new ∧ (s.store = .credential new ∨ ∃ r ∈ s.refusals, r.secret = new.secret) := by
  intro named old new grant holding forgets enrolls adopts
  let es := holding true ++ holding false ++ forgets
  let after (es : List (Event Bool)) : State Bool :=
    (replay (step fun _ => grant) (init (.credential old)) es).getD (init .empty)
  have forgetting : Run (Fires (step fun _ => grant)) (init (.credential old)) es (after es) := Run.iff_replay.mpr rfl
  have enrolling : Run (Fires (step fun _ => grant)) (after es) enrolls (after (es ++ enrolls)) := Run.iff_replay.mpr rfl
  have adopting : Run (Fires (step fun _ => grant)) (after (es ++ enrolls ++ [⟨true, .saved (.ok ())⟩])) adopts _ :=
    Run.iff_replay.mpr rfl
  -- When the save lands, the store is empty and the other node has no call under way.
  have saving : Guard (Fires (step fun _ => grant)) Apart (after (es ++ enrolls)) ⟨true, .saved (.ok ())⟩
      (after (es ++ enrolls ++ [⟨true, .saved (.ok ())⟩])) := by
    refine ⟨rfl, fun c _ => ⟨fun i hi => ?_, nofun⟩⟩
    cases i
    case false => rfl
    case true  => exact absurd rfl hi
  have forgotten := run_apart forgetting (by simp [es, holding, forgets])
  have enrolled := run_apart enrolling (by simp [enrolls]) |>.snoc saving
  have r := (forgotten.append enrolled).append <| run_apart adopting (by simp [adopts])
  exact ⟨_, _, _, forgetting, rfl, (clears_observed forgotten).1 true _ rfl, (enrolled.unguard.append adopting),
    List.mem_singleton_self _, rfl, (clears_observed r).2 new (List.mem_singleton_self _)⟩

-- Both nodes hold `old` and are refused. One has found `old` still stored when the other forgets it,
-- enrolls and saves `new`, which the first one then clears.
theorem not_clears_observed :
    ¬∀ (grant : Bool → DeviceGrant) (store : Stored) (es : List (Event Bool)) (s s' : State Bool) (i : Bool),
      Run (Fires (step grant)) (init store) es s → step grant s ⟨i, .cleared (.ok ())⟩ = some s' →
      s.store = .empty ∨ s.store = s.seen i ∧ Condemned s.refusals (s.nodes i).at (s.seen i) := by
  intro h
  let named : Named := ⟨"", "", ""⟩
  let old : Credential := ⟨2, "zc_old", named, named, [], ""⟩
  let new : Credential := ⟨2, "zc_new", named, named, [], ""⟩
  let grant : DeviceGrant := ⟨"", ⟨"", "", "", []⟩, fun _ => ""⟩
  let refused (i : Bool) : List (Event Bool) :=
    [⟨i, .bearer⟩, ⟨i, .loaded (.ok (some old))⟩, ⟨i, .forgetRefused⟩, ⟨i, .loaded (.ok (some old))⟩]
  let es := refused false ++ refused true ++ [
    ⟨true, .cleared (.ok ())⟩, ⟨true, .bearer⟩, ⟨true, .loaded (.ok none)⟩, ⟨true, .enrolled (.ok ⟨"", "", 0⟩)⟩,
    ⟨true, .polled (.ok (.granted new))⟩, ⟨true, .saved (.ok ())⟩]
  have r : Run (Fires (step fun _ => grant)) (init (.credential old)) es _ := Run.iff_replay.mpr rfl
  have hs := h _ _ es _ _ false r rfl
  have hn : Stored.credential new ≠ .credential old := by decide
  exact hs.elim nofun fun hs => hn hs.1

end Siblings
