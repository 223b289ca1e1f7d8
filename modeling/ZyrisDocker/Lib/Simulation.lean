import ZyrisDocker.Lib.Run

namespace Transition

-- The executions of a labelled transition relation `R` by what is seen of their steps. All rules that
-- carry executions of one relation over to another one are collected here.
inductive Trace (R : σ → ε → σ → Prop) (O : σ → ε → σ → List ω) : σ → List ω → σ → Prop
  | refl : Trace R O s [] s
  | step : (R s e s') → (Trace R O s' os s'') → Trace R O s (O s e s' ++ os) s''

variable {σ τ ε δ ω : Type*}
variable {R : σ → ε → σ → Prop} {R' : τ → δ → τ → Prop} {I : σ → Prop} {s s₁ s₂ s₃ : σ} {e : ε} {es : List ε}

namespace Trace

variable {O : σ → ε → σ → List ω} {O' : τ → δ → τ → List ω} {os os₁ os₂ : List ω}

theorem single (h : R s₁ e s₂) : Trace R O s₁ (O s₁ e s₂) s₂ := by
  have t := Trace.step (O := O) h .refl
  rwa [List.append_nil] at t

theorem append (t₁ : Trace R O s₁ os₁ s₂) (t₂ : Trace R O s₂ os₂ s₃) : Trace R O s₁ (os₁ ++ os₂) s₃ := by
  induction t₁
  case refl        => exact t₂
  case step h _ ih => rw [List.append_assoc]; exact .step h (ih t₂)

theorem run (t : Trace R O s₁ os s₂) : ∃ es, Run R s₁ es s₂ := by
  induction t
  case refl        => exact ⟨[], .refl⟩
  case step h _ ih => exact ih.imp' _ fun _ => .step h

theorem of_run (r : Run R s₁ es s₂) : ∃ os, Trace R O s₁ os s₂ := by
  induction r
  case refl        => exact ⟨[], .refl⟩
  case step h _ ih => exact ih.imp' _ fun _ => .step h

-- What holds initially of nothing, and is preserved by every step along with what is seen of it.
theorem gathers (P : List ω → σ → Prop) (t : Trace R O s₁ os s₂) (init : P [] s₁)
    (step : ∀ {os s e s'}, P os s → R s e s' → P (os ++ O s e s') s') : P os s₂ := by
  suffices h : ∀ os₀, P os₀ s₁ → P (os₀ ++ os) s₂ by simpa using h [] init
  clear init
  induction t
  case refl        => intro os₀ h; rwa [List.append_nil]
  case step h _ ih => intro os₀ h₀; rw [← List.append_assoc]; exact ih _ (step h₀ h)

-- A refinement: from the states that are reached, every step is one or more steps of `R'` or none at all, and
-- the same is seen of them. Then all that is ever seen of `R` can be seen of `R'`, too.
theorem refines (abs : σ → τ) (t : Trace R O s₁ os s₂) (init : I s₁) (inv : ∀ s e s', I s → R s e s' → I s')
    (sim : ∀ s e s', I s → R s e s' → Trace R' O' (abs s) (O s e s') (abs s')) :
    Trace R' O' (abs s₁) os (abs s₂) := by
  induction t
  case refl        => exact .refl
  case step h _ ih => exact (sim _ _ _ init h).append <| ih (inv _ _ _ init h)

end Trace

section Observe

variable {f : σ → ε → Option σ} {g : τ → δ → Option τ} {O : σ → ε → σ → List ω} {O' : τ → δ → τ → List ω}

-- All that is seen of a list of events, up to the first one that cannot happen.
def observe (f : σ → ε → Option σ) (O : σ → ε → σ → List ω) : σ → List ε → List ω
  | _, []      => []
  | s, e :: es =>
    match f s e with
    | some s' => O s e s' ++ observe f O s' es
    | none    => []

theorem Run.observed (hf : ∀ {s e s'}, R s e s' → f s e = some s') (r : Run R s₁ es s₂) :
    Trace R O s₁ (observe f O s₁ es) s₂ := by
  induction r
  case refl        => exact .refl
  case step h _ ih => rw [observe, hf h]; exact .step h ih

theorem Trace.observed (h : replay f s₁ es = some s₂) : Trace (Fires f) O s₁ (observe f O s₁ es) s₂ :=
  Run.observed id <| Run.iff_replay.mpr h

-- A symmetry: what is mapped along makes no difference, and is not seen.
theorem replay_map (a : σ → τ) (b : ε → δ) (hf : ∀ s e, g (a s) (b e) = (f s e).map a) (s : σ) (es : List ε) :
    replay g (a s) (es.map b) = (replay f s es).map a := by
  induction es generalizing s
  case nil          => rfl
  case cons e es ih =>
    rw [List.map_cons, replay, replay, hf, Option.bind_map, Option.map_bind]
    exact congrArg _ (funext ih)

theorem observe_map (a : σ → τ) (b : ε → δ) (hf : ∀ s e, g (a s) (b e) = (f s e).map a)
    (hO : ∀ s e s', f s e = some s' → O' (a s) (b e) (a s') = O s e s') (s : σ) (es : List ε) :
    observe g O' (a s) (es.map b) = observe f O s es := by
  induction es generalizing s
  case nil          => rfl
  case cons e es ih =>
    rw [List.map_cons, observe, observe, hf]
    cases h : f s e
    case none    => rfl
    case some s' => exact congrArg₂ _ (hO _ _ _ h) (ih s')

end Observe

namespace Run

-- A projection: every step is one step of `R'`, or it is not a step of `R'` and changes nothing there.
theorem project (f : σ → τ) (g : ε → Option δ) (r : Run R s₁ es s₂) (init : I s₁)
    (inv : ∀ s e s', I s → R s e s' → I s')
    (steps : ∀ s e s' d, I s → R s e s' → g e = some d → R' (f s) d (f s'))
    (rests : ∀ s e s', I s → R s e s' → g e = none → f s' = f s) : Run R' (f s₁) (es.filterMap g) (f s₂) := by
  induction r
  case refl => exact .refl
  case step s e s' es s'' h r ih =>
    have ih := ih (inv _ _ _ init h)
    cases hg : g e
    case none   => rw [List.filterMap_cons_none hg]; exact rests _ _ _ init h hg ▸ ih
    case some d => rw [List.filterMap_cons_some hg]; exact .step (steps _ _ _ _ init h hg) ih

end Run

end Transition
