import ZyrisDocker.Runtime.Runner

open Transition

namespace Runner

-- Everything the dial loop can do between two suspensions.
inductive Moves (runner : Runner) : State → Event → State → Prop
  | panicked (at_bearer : s.at = .bearer) : Moves runner s (.bearer (.ok bearer)) { s with «at» := .panicked }
  | connecting (at_bearer : s.at = .bearer) : Moves runner s (.bearer (.ok bearer)) { s with «at» := .dial bearer }
  | unavailable (at_bearer : s.at = .bearer) :
    Moves runner s (.bearer (.error (.unavailable msg))) { s with «at» := .sleep }
  | hopeless (at_bearer : s.at = .bearer) (final : ∀ msg, err ≠ .unavailable msg) :
    Moves runner s (.bearer (.error err)) { s with «at» := .returned (.credentials err) }
  | connected (at_dial : s.at = .dial bearer) : Moves runner s (.dial (.ok conn)) (connected runner s conn)
  | unreachable (at_dial : s.at = .dial bearer) (backoff : Refusal.of x = .backoff) :
    Moves runner s (.dial (.error x)) { s with «at» := .sleep }
  | fatal (at_dial : s.at = .dial bearer) (fatal : Refusal.of x = .fatal) :
    Moves runner s (.dial (.error x)) { s with «at» := .returned (.refused x) }
  | refused (at_dial : s.at = .dial bearer) (reenroll : Refusal.of x = .reenroll) (unspent : s.reenrolled = false) :
    Moves runner s (.dial (.error x)) { s with reenrolled := true, «at» := .forget x }
  | spent (at_dial : s.at = .dial bearer) (reenroll : Refusal.of x = .reenroll) (spent : s.reenrolled = true) :
    Moves runner s (.dial (.error x)) { s with «at» := .returned (.refused x) }
  | forgotten (at_forget : s.at = .forget x) : Moves runner s (.forget (.ok true)) { s with «at» := .bearer }
  | unforgotten (at_forget : s.at = .forget x) :
    Moves runner s (.forget (.ok false)) { s with «at» := .returned (.refused x) }
  | postponed (at_forget : s.at = .forget x) :
    Moves runner s (.forget (.error (.unavailable msg))) { s with reenrolled := false, «at» := .sleep }
  | stuck (at_forget : s.at = .forget x) (final : ∀ msg, err ≠ .unavailable msg) :
    Moves runner s (.forget (.error err)) { s with «at» := .returned (.credentials err) }
  | dropped (at_closed : s.at = .closed conn) : Moves runner s (.closed lifetime) (disconnected runner s lifetime)
  | slept {hash : Nat} (at_sleep : s.at = .sleep) :
    Moves runner s (.slept hash) { s with backoff := widen runner s.backoff, «at» := .bearer }

namespace Event

-- The answers after which the loop tries again.
inductive Transient : Event → Prop
  | bearer                                          : Transient (.bearer (.ok b))
  | unavailable                                     : Transient (.bearer (.error (.unavailable msg)))
  | connected                                       : Transient (.dial (.ok conn))
  | unreachable                                     : Transient (.dial (.error (.unreachable msg)))
  | refused (reenroll : Refusal.of x = .reenroll)   : Transient (.dial (.error x))
  | closed                                          : Transient (.closed lifetime)
  | postponed                                       : Transient (.forget (.error (.unavailable msg)))
  | slept {hash : Nat}                              : Transient (.slept hash)

-- A successful dial.
def connects : Event → Bool
  | .dial (.ok _) => true
  | _             => false

-- A credential that was forgotten.
def forgets : Event → Bool
  | .forget (.ok true) => true
  | _                  => false

end Event

-- The credentials that were forgotten since the last successful dial.
def attempts : List Event → Nat :=
  List.foldl (fun n e => if e.connects then 0 else if e.forgets then n + 1 else n) 0

-- What ends the dial loop, and with which error.
inductive Ends : List Event → RunError → Prop
  | bearer (final : ∀ msg, err ≠ .unavailable msg) : Ends (pre ++ [.bearer (.error err)]) (.credentials err)
  | forget (final : ∀ msg, err ≠ .unavailable msg) : Ends (pre ++ [.forget (.error err)]) (.credentials err)
  | fatal (fatal : Refusal.of x = .fatal) : Ends (pre ++ [.dial (.error x)]) (.refused x)
  | unforgotten (reenroll : Refusal.of x = .reenroll) :
    Ends (pre ++ [.dial (.error x), .forget (.ok false)]) (.refused x)
  | spent (reenroll : Refusal.of x = .reenroll) (down : ∀ e ∈ mid, e.connects = false) :
    Ends (pre ++ .forget (.ok true) :: mid ++ [.dial (.error x)]) (.refused x)

-- How the refusals so far show in a state of the dial loop.
structure Tracks (es : List Event) (s : State) : Prop where
  bound   : attempts es ≤ 1
  unspent : s.reenrolled = false → attempts es = 0
  spent   : s.reenrolled = true → attempts es = 1 ∨ (∃ x, s.at = .forget x) ∨ ∃ err, s.at = .returned err
  asking  : s.at = .forget x →
    s.reenrolled = true ∧ attempts es = 0 ∧ Refusal.of x = .reenroll ∧ ∃ pre, es = pre ++ [.dial (.error x)]

variable {runner : Runner} {s s' : State} {e : Event} {es pre mid : List Event}

theorem connecting_cases (runner : Runner) (s : State) (bearer : String) :
    (connecting runner s bearer = { s with «at» := .panicked }) ∨
    (connecting runner s bearer = { s with «at» := .dial bearer }) := by
  simp only [connecting]
  split
  case isTrue  => exact .inl rfl
  case isFalse => exact .inr rfl

theorem refused_moves (h : s.at = .dial bearer) : Moves runner s (.dial (.error x)) (refused s x) := by
  simp only [refused]
  split
  case h_1 hx =>
    split
    case isTrue hs  => exact .spent h hx hs
    case isFalse hs => exact .refused h hx (by simpa using hs)
  case h_2 hx => exact .fatal h hx
  case h_3 hx => exact .unreachable h hx

theorem forgotten_moves (h : s.at = .forget x) : Moves runner s (.forget r) (forgotten s x r) := by
  match r with
  | .ok true                   => exact .forgotten h
  | .ok false                  => exact .unforgotten h
  | .error (.unavailable _)    => exact .postponed h
  | .error (.needsOperator _)  => exact .stuck h nofun
  | .error (.fatal _)          => exact .stuck h nofun

theorem step_moves (h : step runner s e = some s') : Moves runner s e s' := by
  simp only [step] at h
  split at h <;> cases h
  case h_1 ha =>
    cases connecting_cases runner s ‹_›
    case inl hc => exact hc ▸ .panicked ha
    case inr hc => exact hc ▸ .connecting ha
  case h_2 ha    => exact .unavailable ha
  case h_3 hu ha => exact .hopeless ha hu
  case h_4 ha    => exact .connected ha
  case h_5 ha    => exact refused_moves ha
  case h_6 ha    => exact .dropped ha
  case h_7 ha    => exact forgotten_moves ha
  case h_8 ha    => exact .slept ha

@[simp]
theorem attempts_nil : attempts [] = 0 := rfl

theorem attempts_snoc :
    attempts (es ++ [e]) = if e.connects then 0 else if e.forgets then attempts es + 1 else attempts es :=
  countSince_snoc

theorem attempts_append (h : ∀ e ∈ mid, e.connects = false) :
    attempts (pre ++ mid) = attempts pre + mid.countP Event.forgets :=
  countSince_append h

theorem attempts_split (h : 0 < attempts es) :
    ∃ pre mid, es = pre ++ .forget (.ok true) :: mid ∧ ∀ e ∈ mid, e.connects = false := by
  induction es using List.reverseRecOn
  case nil => simp at h
  case append_singleton es e ih =>
    rw [attempts_snoc] at h
    cases hc : e.connects <;> simp [hc] at h
    cases hf : e.forgets <;> simp [hf] at h
    case false =>
      have ⟨pre, mid, he, hm⟩ := ih h
      refine ⟨pre, mid ++ [e], by simp [he], ?_⟩
      intro e' he'
      cases List.mem_append.mp he'
      case inl he' => exact hm e' he'
      case inr he' => simp_all
    case true =>
      match e with
      | .forget (.ok true) => exact ⟨es, [], rfl, nofun⟩

namespace Tracks

theorem init : Tracks [] (init runner) where
  bound       := by simp
  unspent _   := rfl
  spent h     := by cases h
  asking h    := by cases h

-- A step that neither connects nor forgets, and stays clear of a pending `forget_refused`.
theorem steady (t : Tracks es s) (hc : e.connects = false) (hf : e.forgets = false)
    (hr : s'.reenrolled = s.reenrolled) (hs : ∀ x, s.at ≠ .forget x) (hs' : ∀ x, s'.at ≠ .forget x)
    (ha : ∀ err, s.at ≠ .returned err) : Tracks (es ++ [e]) s' where
  bound       := by simpa [attempts_snoc, hc, hf] using t.bound
  unspent h   := by simpa [attempts_snoc, hc, hf] using t.unspent (hr ▸ h)
  spent h     := by
    cases t.spent (hr ▸ h)
    case inl h' => simp [attempts_snoc, hc, hf, h']
    case inr h' =>
      cases h'
      case inl h' => exact absurd h'.choose_spec (hs _)
      case inr h' => exact absurd h'.choose_spec (ha _)
  asking h    := absurd h (hs' _)

theorem step (t : Tracks es s) (m : Moves runner s e s') : Tracks (es ++ [e]) s' := by
  cases m
  case connected =>
    constructor <;> simp [attempts_snoc, Event.connects, Runner.connected]
  case refused hr ha hu =>
    have hn := t.unspent hu
    refine ⟨?_, nofun, fun _ => .inr <| .inl ⟨_, rfl⟩, fun h => ?_⟩
    · simp [attempts_snoc, Event.connects, Event.forgets, hn]
    · cases h
      exact ⟨rfl, by simp [attempts_snoc, Event.connects, Event.forgets, hn], hr, es, rfl⟩
  case forgotten ha =>
    have ⟨hr, hn, _⟩ := t.asking ha
    constructor <;> simp [attempts_snoc, Event.connects, Event.forgets, hn, hr]
  case postponed ha =>
    have ⟨_, hn, _⟩ := t.asking ha
    constructor <;> simp [attempts_snoc, Event.connects, Event.forgets, hn]
  case unforgotten ha | stuck _ ha =>
    have ⟨hr, hn, _⟩ := t.asking ha
    constructor <;> simp [attempts_snoc, Event.connects, Event.forgets, hn, hr]
  all_goals
    refine t.steady rfl rfl ?_ ?_ ?_ ?_ <;> simp_all [disconnected]

theorem of_run (r : Run (Fires (Runner.step runner)) (Runner.init runner) es s) : Tracks es s :=
  r.snoc_induction init fun _ _ _ _ _ h t => t.step (step_moves h)

end Tracks

namespace Ends

-- The last answer before the end, or the one that spent the attempt, is not one to try again after.
theorem not_transient (h : Ends es err) : ∃ e ∈ es, ¬e.Transient := by
  cases h
  case bearer err pre hf | forget err pre hf =>
    refine ⟨_, List.mem_append_right _ (List.mem_singleton_self _), fun t => ?_⟩
    cases t
    exact hf _ rfl
  case fatal x pre hf =>
    refine ⟨_, List.mem_append_right _ (List.mem_singleton_self _), fun t => ?_⟩
    cases t
    case unreachable => cases hf
    case refused hr  => simp [hf] at hr
  case unforgotten => exact ⟨.forget (.ok false), by simp, nofun⟩
  case spent       => exact ⟨.forget (.ok true), by simp, nofun⟩

theorem exitCode_iff : Ends es err → (err.exitCode = 2 ↔ ∃ msg, err = .credentials (.needsOperator msg))
  | bearer _ | forget _                => by cases ‹CredentialsError› <;> simp [RunError.exitCode]
  | fatal _ | unforgotten _ | spent .. => by simp [RunError.exitCode]

theorem exitCode_cases : Ends es err → err.exitCode = 2 ∨ err.exitCode = 1
  | bearer _ | forget _                => by cases ‹CredentialsError› <;> simp [RunError.exitCode]
  | fatal _ | unforgotten _ | spent .. => by simp [RunError.exitCode]

theorem of_moves (t : Tracks es s) (m : Moves runner s e s') (h : s'.at = .returned err) :
    Ends (es ++ [e]) err := by
  cases m
  case hopeless hf _ => cases h; exact .bearer hf
  case fatal hf _    => cases h; exact .fatal hf
  case stuck hf _    => cases h; exact .forget hf
  case unforgotten ha =>
    cases h
    have ⟨_, _, hr, pre, he⟩ := t.asking ha
    subst he
    simpa using (.unforgotten hr : Ends (pre ++ _) _)
  case spent hr ha hs =>
    cases h
    have hn : attempts es = 1 := by simpa [ha] using t.spent hs
    have ⟨pre, mid, he, hm⟩ := attempts_split (show 0 < attempts es by simp [hn])
    exact he ▸ .spent hr hm
  all_goals simp_all [Runner.connected, disconnected]

theorem of_run (r : Run (Fires (step runner)) (init runner) es s) (h : s.at = .returned err) : Ends es err := by
  induction es using List.reverseRecOn
  case nil => cases r.nil_eq; cases h
  case append_singleton =>
    have ⟨_, r', h'⟩ := r.snoc_inv
    exact of_moves (.of_run r') (step_moves h') h

end Ends

-- A refusal after the one attempt was spent is the end.
theorem spent_refusal
    (r : Run (Fires (step runner)) (init runner) (pre ++ .forget (.ok true) :: mid ++ [.dial (.error x)]) s)
    (hm : ∀ e ∈ mid, e.connects = false) (hx : Refusal.of x = .reenroll) : s.at = .returned (.refused x) := by
  have ⟨s', r', h⟩ := r.snoc_inv
  have hn : attempts (pre ++ .forget (.ok true) :: mid) ≠ 0 := by
    rw [attempts_append (by simpa [Event.connects] using hm)]
    simp [Event.forgets]
  cases step_moves h
  case spent                    => rfl
  case refused hu _             => exact absurd (Tracks.of_run r' |>.unspent hu) hn
  case unreachable | fatal      => simp_all

theorem forgets_le_one (r : Run (Fires (step runner)) (init runner) (pre ++ mid ++ post) s)
    (hm : ∀ e ∈ mid, e.connects = false) : mid.countP Event.forgets ≤ 1 := by
  have ⟨s', r', _⟩ := r.split
  have hb := Tracks.of_run r' |>.bound
  rw [attempts_append hm] at hb
  exact le_trans (Nat.le_add_left ..) hb

theorem dial_loop_returns (r : Run (Fires (step runner)) (init runner) es s) :
    ((∀ e ∈ es, e.Transient) → ∀ err, s.at ≠ .returned err) ∧
    (∀ pre mid post, es = pre ++ mid ++ post → (∀ e ∈ mid, e.connects = false) → mid.countP Event.forgets ≤ 1) ∧
    (∀ pre mid x, es = pre ++ .forget (.ok true) :: mid ++ [.dial (.error x)] → (∀ e ∈ mid, e.connects = false) →
      Refusal.of x = .reenroll → s.at = .returned (.refused x)) ∧
    (∀ err, s.at = .returned err →
      Ends es err ∧ (err.exitCode = 2 ↔ ∃ msg, err = .credentials (.needsOperator msg)) ∧
      (err.exitCode = 2 ∨ err.exitCode = 1)) := by
  refine ⟨?_, ?_, ?_, ?_⟩
  case refine_1 =>
    intro ht err h
    have ⟨e, he, hn⟩ := Ends.of_run r h |>.not_transient
    exact hn (ht e he)
  case refine_2 =>
    intro pre mid post he hm
    exact forgets_le_one (he ▸ r) hm
  case refine_3 =>
    intro pre mid x he hm hx
    exact spent_refusal (he ▸ r) hm hx
  case refine_4 =>
    intro err h
    have he := Ends.of_run r h
    exact ⟨he, he.exitCode_iff, he.exitCode_cases⟩

-- The token `t` is refused, forgotten, and its successor `u` is refused as well.
theorem dial_loop_returns_refused :
    let runner : Runner := ⟨⟨"", "", "", [], false, 1, 8, 5⟩, false, true⟩
    let es : List Event :=
      [.bearer (.ok "t"), .dial (.error .unauthorized), .forget (.ok true), .bearer (.ok "u"), .dial (.error .revoked)]
    ∃ s, Run (Fires (step runner)) (init runner) es s ∧ s.at = .returned (.refused .revoked) := by
  intro runner es
  have ⟨s, r⟩ : ∃ s, Run (Fires (step runner)) (init runner) es s := ⟨_, Run.iff_replay.mpr rfl⟩
  have ⟨_, _, spent, _⟩ := dial_loop_returns r
  exact ⟨s, r, spent [.bearer (.ok "t"), .dial (.error .unauthorized)] [.bearer (.ok "u")] .revoked rfl (by decide) rfl⟩

end Runner
