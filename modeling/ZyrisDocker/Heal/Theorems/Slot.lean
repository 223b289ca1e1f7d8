import Mathlib.Data.List.Nodup
import ZyrisDocker.Heal.Slot
import ZyrisDocker.Runtime.Theorems.DialLoop

open Transition

namespace ConnSlot

-- Once a connection was stored, no earlier one is in the slot.
def State.Newest (s : State) : Prop :=
  ∀ n ∈ s.stored, ∀ m < n, s.slot.get ≠ s.loop.dialed m

-- A hook does not run after the one of a later connection.
def InOrder (s : State) : Event → State → Prop
  | .hook n, _ => ∀ m ∈ s.stored, m ≤ n
  | .loop _, _ => True

-- The slot holds the latest one of the stored connections.
structure Filled (s : State) : Prop where
  distinct : s.loop.hooks.map Connection.id |>.Nodup
  latest   : ∀ n ∈ s.stored, ∃ m, n ≤ m ∧ m < s.loop.hooks.length ∧ s.slot.get = s.loop.dialed m

variable {runner : Runner} {s s' : State} {e : Event} {es : List Event}

theorem step_loop {e : Runner.Event} (h : step runner s (.loop e) = some s') :
    s.fresh e ∧ ∃ loop, Runner.Moves runner s.loop e loop ∧ s' = { s with loop } := by
  simp only [step] at h
  split at h
  case isFalse    => cases h
  case isTrue hf  =>
    have ⟨loop, hl, he⟩ := Option.map_eq_some_iff.mp h
    exact ⟨hf, loop, Runner.step_moves hl, he.symm⟩

theorem step_hook (h : step runner s (.hook n) = some s') :
    ∃ conn, s.loop.dialed n = some conn ∧ s' = s.hook n conn := by
  simp only [step] at h
  split at h
  case isTrue  => cases h
  case isFalse =>
    have ⟨conn, hc, he⟩ := Option.map_eq_some_iff.mp h
    exact ⟨conn, hc, he.symm⟩

-- A step of the dial loop spawns at most one hook.
theorem hooks_cases {s s' : Runner.State} {e : Runner.Event} (m : Runner.Moves runner s e s') :
    s'.hooks = s.hooks ∨ ∃ conn, e = .dial (.ok conn) ∧ s'.hooks = conn :: s.hooks := by
  cases m
  case connected =>
    cases hh : runner.hooked
    case false => exact .inl (by simp [Runner.connected, hh])
    case true  => exact .inr ⟨_, rfl, by simp [Runner.connected, hh]⟩
  all_goals exact .inl rfl

namespace Filled

theorem init : Filled (init runner) where
  distinct := .nil
  latest   := nofun

-- The connections of different dials differ.
theorem dialed_inj (f : Filled s) (hm : m < s.loop.hooks.length) (h : s.loop.dialed m = s.loop.dialed n) : m = n := by
  have hd : s.loop.hooks.reverse.Nodup := List.nodup_reverse.mpr (.of_map _ f.distinct)
  exact (List.getElem?_inj (by simpa using hm) hd).mp h

theorem newest (f : Filled s) : s.Newest := by
  intro n hn m hm h
  have ⟨k, hk, hl, hs⟩ := f.latest n hn
  have := f.dialed_inj hl (hs.symm.trans h)
  omega

theorem loop {e : Runner.Event} {loop : Runner.State} (f : Filled s) (hf : s.fresh e) (m : Runner.Moves runner s.loop e loop) :
    Filled { s with loop } := by
  cases hooks_cases m
  case inl hh =>
    refine ⟨by simpa [hh] using f.distinct, fun n hn => ?_⟩
    simpa [Runner.State.dialed, hh] using f.latest n hn
  case inr h =>
    obtain ⟨conn, rfl, hh⟩ := h
    refine ⟨?_, fun n hn => ?_⟩
    · simpa [hh] using ⟨by simpa [State.fresh] using hf, f.distinct⟩
    · have ⟨m, hm, hl, hs⟩ := f.latest n hn
      refine ⟨m, hm, by simp [hh]; omega, ?_⟩
      simp only [Runner.State.dialed, hh, List.reverse_cons] at hs ⊢
      rw [hs, List.getElem?_append_left (by simpa using hl)]

theorem hook (f : Filled s) (hc : s.loop.dialed n = some conn) (ho : ∀ m ∈ s.stored, m ≤ n) :
    Filled (s.hook n conn) where
  distinct := f.distinct
  latest m hm := by
    have hn : n < s.loop.hooks.length := by simpa using (List.getElem?_eq_some_iff.mp hc).1
    refine ⟨n, ?_, hn, hc.symm⟩
    cases hm
    case head    => exact le_refl _
    case tail hm => exact ho m hm

theorem step (f : Filled s) (g : Guard (Fires <| step runner) InOrder s e s') : Filled s' := by
  have ⟨h, ho⟩ := g
  cases e
  case loop =>
    have ⟨hf, _, m, he⟩ := step_loop h
    exact he ▸ f.loop hf m
  case hook =>
    have ⟨_, hc, he⟩ := step_hook h
    exact he ▸ f.hook hc ho

end Filled

-- A hook that runs after the one of a later connection puts an earlier one into the slot.
theorem newest_inOrder (h : Fires (step runner) s e s') (hn : s'.Newest) : InOrder s e s' := by
  cases e
  case loop   => trivial
  case hook n =>
    intro m hm
    by_contra hlt
    have ⟨conn, hc, he⟩ := step_hook h
    subst he
    exact hn m (.tail _ hm) n (by omega) hc.symm

-- In every run, the slot is never set back to an earlier connection if and only if the hooks run in
-- the order of the dials.
theorem newest_iff_inOrder :
    Run (Guard (Fires <| step runner) fun _ _ s' => s'.Newest) (init runner) es s ↔
    Run (Guard (Fires <| step runner) InOrder) (init runner) es s := by
  constructor
  case mp  => exact fun r => r.mono fun g => ⟨g.fires, newest_inOrder g.fires g.meets⟩
  case mpr =>
    intro r
    refine r.snoc_induction .refl fun _ _ _ _ r g ih => ih.snoc ⟨g.fires, ?_⟩
    have f := (r.preserves Filled.init fun _ _ _ f g => f.step g).step g
    exact f.newest

-- The first connection drops before its hook gets to run, and the hook of the second one is faster.
def overtaken : List Event :=
  [.loop (.bearer (.ok "t")), .loop (.dial (.ok { id := 0 })), .loop (.closed 0), .loop (.slept 0),
    .loop (.bearer (.ok "t")), .loop (.dial (.ok { id := 1 })), .hook 1, .hook 0]

theorem slot_not_newest :
    ¬∀ (runner : Runner) (es : List Event) (s : State), Run (Fires <| step runner) (init runner) es s → s.Newest := by
  intro h
  let runner : Runner := ⟨⟨"", "", "", [], false, 1, 8, 5⟩, true, true⟩
  have ⟨s, hs⟩ : ∃ s, replay (step runner) (init runner) overtaken = some s ∧
      1 ∈ s.stored ∧ s.slot.get = s.loop.dialed 0 := ⟨_, rfl, by decide, rfl⟩
  exact h runner overtaken s (Run.iff_replay.mpr hs.1) 1 hs.2.1 0 Nat.zero_lt_one hs.2.2

end ConnSlot
