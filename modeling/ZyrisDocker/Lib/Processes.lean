import Mathlib.Data.List.Basic

-- The processes of a system, as far as signals to process groups concern them.

namespace Unix

-- What is recorded of a process stays with it and is handed on to all that it forks.
structure Process (τ : Type) where
  pid      : Nat
  group    : Nat
  session  : Nat
  alive    : Bool := true
  -- Whether those whose signals are considered may send it any.
  owned    : Bool := true
  recorded : τ
  deriving DecidableEq

inductive Action
  | fork (pid : Nat)
  | setGroup (group : Nat)
  | setSession
  | setUser (owned : Bool)
  | exit
  | reap
  deriving DecidableEq

variable {τ : Type}

-- No process, group or session has the id. The first process is always there.
def Free (table : List (Process τ)) (pid : Nat) : Prop :=
  1 < pid ∧ ∀ q ∈ table, q.pid ≠ pid ∧ q.group ≠ pid ∧ q.session ≠ pid

-- Only a group of the same session can be joined, and what leads a session stays where it is. Who leads a
-- group cannot lead a session.
def May (table : List (Process τ)) (p : Process τ) : Action → Prop
  | .fork pid       => p.alive ∧ Free table pid
  | .setGroup group => p.alive ∧ p.session ≠ p.pid ∧ (group = p.pid ∨ ∃ q ∈ table, q.group = group ∧ q.session = p.session)
  | .setSession     => p.alive ∧ ∀ q ∈ table, q.group ≠ p.pid
  | .setUser _      => p.alive
  | .exit           => p.alive
  | .reap           => p.alive = false

instance {table : List (Process τ)} : Decidable (Free table pid) :=
  inferInstanceAs <| Decidable (_ ∧ _)

instance {table : List (Process τ)} {p : Process τ} : {a : Action} → Decidable (May table p a)
  | .fork _ | .setGroup _ | .setSession => inferInstanceAs <| Decidable (_ ∧ _)
  | .setUser _ | .exit | .reap          => inferInstanceAs <| Decidable (_ = _)

-- What there is in the place of a process after its action.
def turn (p : Process τ) : Action → List (Process τ)
  | .fork pid       => [p, { p with pid }]
  | .setGroup group => [{ p with group }]
  | .setSession     => [{ p with group := p.pid, session := p.pid }]
  | .setUser owned  => [{ p with owned }]
  | .exit           => [{ p with alive := false }]
  | .reap           => []

-- What is recorded changes as `note` says.
def act [DecidableEq τ] (note : Process τ → Action → τ) (table : List (Process τ)) (p : Process τ) (a : Action) :
    Option (List (Process τ)) :=
  if p ∈ table ∧ May table p a then some <| (turn { p with recorded := note p a } a) ++ table.erase p else none

-- What a signal to a group reaches.
def reached (group : Nat) (q : Process τ) : Bool :=
  q.alive && q.owned && q.group = group

def members (table : List (Process τ)) (group : Nat) : List (Process τ) :=
  table.filter (reached group)

-- A signal which no process can ignore.
def slay (group : Nat) (q : Process τ) : Process τ :=
  { q with alive := q.alive && !reached group q }

section Rules

variable {table table' : List (Process τ)} {p q : Process τ} {a : Action} {group : Nat}

theorem slay_dead (ho : q.owned) (hg : q.group = group) : (slay group q).alive = false := by
  cases h : q.alive <;> simp [slay, reached, h, ho, hg]

theorem mem_members : q ∈ members table group ↔ q ∈ table ∧ q.alive ∧ q.owned ∧ q.group = group := by
  simp [members, reached, and_assoc]

variable [DecidableEq τ] {note : Process τ → Action → τ}

theorem act_eq (h : act note table p a = some table') :
    p ∈ table ∧ May table p a ∧ table' = turn { p with recorded := note p a } a ++ table.erase p := by
  rw [act] at h
  split at h
  case isFalse   => cases h
  case isTrue hm => cases h; exact ⟨hm.1, hm.2, rfl⟩

-- The rule for what holds of every single process.
theorem act_forall {P : Process τ → Prop} (h : act note table p a = some table') (hp : ∀ q ∈ table, P q)
    (ht : May table p a → P p → ∀ q ∈ turn { p with recorded := note p a } a, P q) : ∀ q ∈ table', P q := by
  obtain ⟨hm, may, rfl⟩ := act_eq h
  intro q hq
  rcases List.mem_append.mp hq with hq | hq
  · exact ht may (hp p hm) q hq
  · exact hp q (List.mem_of_mem_erase hq)

-- An id is held by its process until this one is reaped.
theorem act_holds (h : act note table p a = some table') (hr : a = .reap → p.pid ≠ pid) (hp : ∃ q ∈ table, q.pid = pid) :
    ∃ q ∈ table', q.pid = pid := by
  obtain ⟨_, _, rfl⟩ := act_eq h
  obtain ⟨q, hq, rfl⟩ := hp
  by_cases he : q = p
  case neg => exact ⟨q, List.mem_append_right _ <| (List.mem_erase_of_ne he).mpr hq, rfl⟩
  case pos =>
    subst he
    cases a
    case reap => exact absurd rfl <| hr rfl
    all_goals exact ⟨_, List.mem_append_left _ <| .head _, rfl⟩

end Rules

end Unix
