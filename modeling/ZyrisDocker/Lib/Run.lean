import Mathlib.Data.List.Induction

namespace Transition

-- The executions of a labelled transition relation `R`, with the events that drive them. All rules
-- about whole executions used by this development are collected here: invariants (over the state,
-- or over the state and the events so far) and executions all of whose steps meet a condition.
inductive Run (R : σ → ε → σ → Prop) : σ → List ε → σ → Prop
  | refl : Run R s [] s
  | step : (R s e s') → (Run R s' es s'') → Run R s (e :: es) s''

-- The steps of a (deterministic, partial) step function as a transition relation.
def Fires (f : σ → ε → Option σ) (s : σ) (e : ε) (s' : σ) : Prop :=
  f s e = some s'

-- The steps of `R` which meet the condition `P`.
structure Guard (R : σ → ε → σ → Prop) (P : σ → ε → σ → Prop) (s : σ) (e : ε) (s' : σ) : Prop where
  fires : R s e s'
  meets : P s e s'

namespace Run

variable {R R' P : σ → ε → σ → Prop} {s s₀ s₁ s₂ s₃ : σ} {e : ε} {es es₁ es₂ : List ε}

theorem single (h : R s₁ e s₂) : Run R s₁ [e] s₂ :=
  .step h .refl

-- A first step, to a state that is named.
theorem through (s₂ : σ) (h : R s₁ e s₂) (r : Run R s₂ es s₃) : Run R s₁ (e :: es) s₃ :=
  .step h r

theorem append (r₁ : Run R s₁ es₁ s₂) (r₂ : Run R s₂ es₂ s₃) : Run R s₁ (es₁ ++ es₂) s₃ := by
  induction r₁
  case refl         => exact r₂
  case step h _ ih  => exact .step h (ih r₂)

theorem snoc (r : Run R s₁ es s₂) (h : R s₂ e s₃) : Run R s₁ (es ++ [e]) s₃ :=
  r.append (.single h)

theorem split (r : Run R s₁ (es₁ ++ es₂) s₃) : ∃ s₂, Run R s₁ es₁ s₂ ∧ Run R s₂ es₂ s₃ := by
  induction es₁ generalizing s₁
  case nil          => exact ⟨s₁, .refl, r⟩
  case cons e es ih =>
    cases r
    case step h r =>
      have ⟨s₂, r₁, r₂⟩ := ih r
      exact ⟨s₂, .step h r₁, r₂⟩

theorem nil_eq (r : Run R s₁ [] s₂) : s₁ = s₂ := by
  cases r; rfl

theorem cons_inv (r : Run R s₁ (e :: es) s₃) : ∃ s₂, R s₁ e s₂ ∧ Run R s₂ es s₃ := by
  cases r
  case step h r => exact ⟨_, h, r⟩

theorem snoc_inv (r : Run R s₁ (es ++ [e]) s₃) : ∃ s₂, Run R s₁ es s₂ ∧ R s₂ e s₃ := by
  have ⟨s₂, r₁, r₂⟩ := r.split
  have ⟨s₂', h, r₂⟩ := r₂.cons_inv
  exact ⟨s₂, r₁, r₂.nil_eq ▸ h⟩

-- The run induction rule: a run is empty, or a shorter run followed by one step.
theorem snoc_induction {motive : List ε → σ → Prop} (r : Run R s₀ es s) (refl : motive [] s₀)
    (snoc : ∀ es s e s', Run R s₀ es s → R s e s' → motive es s → motive (es ++ [e]) s') :
    motive es s := by
  induction es using List.reverseRecOn generalizing s
  case nil              => exact r.nil_eq ▸ refl
  case append_singleton =>
    rename_i ih
    have ⟨s', r', h⟩ := r.snoc_inv
    exact snoc _ _ _ _ r' h (ih r')

-- What holds initially and is preserved by every step, holds in every reached state.
theorem preserves {I : σ → Prop} (r : Run R s₁ es s₂) (init : I s₁)
    (step : ∀ s e s', I s → R s e s' → I s') : I s₂ := by
  induction r
  case refl         => exact init
  case step h _ ih  => exact ih (step _ _ _ init h)

theorem mono (h : ∀ {s e s'}, R s e s' → R' s e s') (r : Run R s₁ es s₂) : Run R' s₁ es s₂ := by
  induction r
  case refl         => exact .refl
  case step h' _ ih => exact .step (h h') ih

theorem unguard (r : Run (Guard R P) s₁ es s₂) : Run R s₁ es s₂ :=
  r.mono Guard.fires

-- A run of allowed events only.
theorem guard {P : ε → Prop} (r : Run R s₁ es s₂) (h : ∀ e ∈ es, P e) :
    Run (Guard R fun _ e _ => P e) s₁ es s₂ := by
  induction r
  case refl         => exact .refl
  case step h' _ ih => exact .step ⟨h', h _ (by simp)⟩ <| ih fun e he => h e (by simp [he])

-- Two conditions that agree on the steps from all reachable states guard the same runs.
theorem guard_congr {P Q : σ → ε → σ → Prop}
    (h : ∀ {es s e s'}, Run R s₀ es s → R s e s' → (P s e s' ↔ Q s e s')) :
    Run (Guard R P) s₀ es s ↔ Run (Guard R Q) s₀ es s := by
  constructor
  case' mp  => have h {es s e s'} := fun r g => @h es s e s' r g |>.mp
  case' mpr => have h {es s e s'} := fun r g => @h es s e s' r g |>.mpr
  all_goals
    refine fun r => r.snoc_induction .refl fun _ _ _ _ r' g ih => ih.snoc ⟨g.fires, ?_⟩
    exact h r'.unguard g.fires g.meets

end Run

-- Replays a list of events.
def replay (f : σ → ε → Option σ) : σ → List ε → Option σ
  | s, []      => some s
  | s, e :: es => (f s e).bind (replay f · es)

theorem Run.iff_replay {f : σ → ε → Option σ} : Run (Fires f) s₁ es s₂ ↔ replay f s₁ es = some s₂ := by
  constructor
  case mp =>
    intro r
    induction r
    case refl        => rfl
    case step h _ ih => simpa [replay, show f _ _ = some _ from h] using ih
  case mpr =>
    intro h
    induction es generalizing s₁
    case nil     => cases h; exact .refl
    case cons ih =>
      simp only [replay, Option.bind_eq_some_iff] at h
      have ⟨_, h₁, h₂⟩ := h
      exact .step h₁ (ih h₂)

theorem Run.deterministic {f : σ → ε → Option σ} (r₁ : Run (Fires f) s es s₁) (r₂ : Run (Fires f) s es s₂) : s₁ = s₂ :=
  Option.some.inj <| (Run.iff_replay.mp r₁).symm.trans (Run.iff_replay.mp r₂)

section Count

variable {ε : Type} {resets counts : ε → Bool} {e : ε} {pre mid : List ε}

-- How many events of one kind there were since the latest one of another kind.
def countSince (resets counts : ε → Bool) : List ε → Nat :=
  List.foldl (fun n e => if resets e then 0 else if counts e then n + 1 else n) 0

@[simp]
theorem countSince_nil : countSince resets counts [] = 0 := rfl

theorem countSince_snoc : countSince resets counts (pre ++ [e]) =
    if resets e then 0 else if counts e then countSince resets counts pre + 1 else countSince resets counts pre := by
  simp [countSince]

theorem countSince_append (h : ∀ e ∈ mid, resets e = false) :
    countSince resets counts (pre ++ mid) = countSince resets counts pre + mid.countP counts := by
  induction mid using List.reverseRecOn
  case nil => simp
  case append_singleton mid e ih =>
    have he := h e (by simp)
    have ih := ih fun e' he' => h e' (by simp [he'])
    rw [← List.append_assoc, countSince_snoc, ih, List.countP_append, List.countP_singleton]
    cases hc : counts e <;> simp [he]; omega

end Count

end Transition
