import Mathlib.Logic.Equiv.Basic
import ZyrisDocker.Enroll.Log

open Transition

variable {ρ : Renaming}

theorem Renaming.rename_inj {secret secret' : String} : ρ.rename secret = ρ.rename secret' ↔ secret = secret' :=
  ρ.injective.eq_iff

namespace Runner

variable {runner : Runner} {s s' : State} {e : Event}

theorem connecting_rename (runner : Runner) (s : State) (bearer : String) :
    connecting runner (s.rename ρ) (ρ.rename bearer) = (connecting runner s bearer).rename ρ := by
  simp only [connecting, ρ.shown]
  split <;> rfl

theorem refused_rename (s : State) (error : ConnectError) : refused (s.rename ρ) error = (refused s error).rename ρ := by
  obtain ⟨_, reenrolled, _, _, _⟩ := s
  simp only [refused]
  cases Refusal.of error
  case reenroll => cases reenrolled <;> rfl
  all_goals rfl

theorem forgotten_rename (s : State) (error : ConnectError) (r : Except CredentialsError Bool) :
    forgotten (s.rename ρ) error r = (forgotten s error r).rename ρ := by
  cases r
  case ok r    => cases r <;> rfl
  case error e => cases e <;> rfl

-- The dial loop makes no difference between secrets.
theorem step_rename (runner : Runner) (ρ : Renaming) (s : State) (e : Event) :
    step runner (s.rename ρ) (e.rename ρ) = (step runner s e).map (·.rename ρ) := by
  obtain ⟨backoff, reenrolled, live, hooks, p⟩ := s
  cases p <;> cases e
  case bearer.bearer r =>
    cases r
    case ok r    => exact congrArg some (connecting_rename runner _ r)
    case error e => cases e <;> rfl
  case dial.dial r =>
    cases r
    case ok    => rfl
    case error => exact congrArg some (refused_rename _ _)
  case forget.forget => exact congrArg some (forgotten_rename _ _ _)
  all_goals rfl

theorem printsTo_rename (ρ : Renaming) (s : State) (e : Event) (s' : State) :
    printsTo (s.rename ρ) (e.rename ρ) (s'.rename ρ) = printsTo s e s' := by
  have stops : stops (s'.rename ρ).at = stops s'.at := by
    obtain ⟨_, _, _, _, p⟩ := s'
    cases p <;> rfl
  rw [printsTo, printsTo, stops]
  congr 1
  cases e
  case bearer r =>
    cases r
    case ok bearer => simp only [Event.rename, Except.map, prints, ρ.shown]
    case error e   => cases e <;> rfl
  all_goals rfl

end Runner

namespace DeviceGrant

variable {grant : DeviceGrant} {s s' : State} {e : Event}

-- How the results of a step are mapped.
def Outcome.rename (ρ : Renaming) (o : State × Option Answer) : State × Option Answer :=
  (o.1.rename ρ, o.2.map (·.rename ρ))

theorem fail_rename (call : Call) (error : CredentialsError) : (call.rename ρ).fail error = (call.fail error).rename ρ := by
  cases call <;> rfl

theorem stored_rename (grant : DeviceGrant) (s : State) (call : Call) (c : Option Credential) :
    stored grant (s.rename ρ) (call.rename ρ) (c.map (·.rename ρ)) = Outcome.rename ρ (stored grant s call c) := by
  cases call <;> cases c
  case forgetRefused.some refused c =>
    have h : (refused.map (·.rename ρ)).all (·.secret ≠ (c.rename ρ).secret) = refused.all (·.secret ≠ c.secret) := by
      cases refused <;> simp [Credential.rename, ρ.rename_inj]
    simp only [Call.rename, Option.map_some, stored, h]
    split <;> rfl
  all_goals rfl

theorem poll_rename (s : State) (n : Nat) (progress : Progress) :
    poll (s.rename ρ) n (progress.rename ρ) = Outcome.rename ρ (poll s n progress) := by
  cases progress
  case lapsed => simp only [Progress.rename, poll]; split <;> rfl
  all_goals rfl

theorem step_rename (grant : DeviceGrant) (ρ : Renaming) (s : State) (e : Event) :
    step grant (s.rename ρ) (e.rename ρ) = (step grant s e).map (Outcome.rename ρ) := by
  obtain ⟨held, log, p⟩ := s
  cases p <;> cases e
  case idle.bearer => cases held <;> rfl
  case load.loaded call r =>
    cases r
    case ok c    => exact congrArg some (stored_rename grant _ call c)
    case error x =>
      simp only [step, State.rename, Suspension.rename, Event.rename, Except.map]
      split
      case isTrue  => rfl
      case isFalse => simp [Outcome.rename, State.answer, State.rename, Suspension.rename, fail_rename]
  case discard.cleared call _ r =>
    cases r
    case ok u    => exact congrArg some (stored_rename grant _ call none)
    case error x => simp [step, State.rename, Suspension.rename, Event.rename, Outcome.rename, State.answer, fail_rename]
  case poll.polled n r =>
    cases r
    case ok progress => exact congrArg some (poll_rename _ n progress)
    case error x     => rfl
  case enroll.enrolled r | renew.renewed r | save.saved r | clear.cleared r => cases r <;> rfl
  all_goals rfl

theorem prints_rename (ρ : Renaming) (s : State) (e : Event) (s' : State) :
    prints (s.rename ρ) (e.rename ρ) (s'.rename ρ) = prints s e s' := by
  obtain ⟨_, _, p⟩ := s
  obtain ⟨_, _, p'⟩ := s'
  cases p' <;> try rfl
  all_goals
    cases p <;> try rfl
    cases e <;> try rfl
    case loaded r => cases r <;> rfl

end DeviceGrant

namespace Node

variable {node : Node} {s s' : State} {e : Event}

theorem answered_rename (a : DeviceGrant.Answer) : answered (a.rename ρ) = (answered a).rename ρ := by
  cases a <;> rfl

theorem resume_rename (node : Node) (s : State) (o : DeviceGrant.State × Option DeviceGrant.Answer) :
    resume node (s.rename ρ) (DeviceGrant.Outcome.rename ρ o) = (resume node s o).map (·.rename ρ) := by
  obtain ⟨grant, a⟩ := o
  cases a
  case none   => rfl
  case some a =>
    simp only [resume, DeviceGrant.Outcome.rename, Option.map_some, answered_rename, State.rename, Runner.step_rename, Option.map_map]
    rfl

theorem admits_rename (p : Runner.Suspension) (e : Event) : admits (p.rename ρ) (e.rename ρ) = admits p e := by
  cases p <;> cases e <;> rename_i e <;> cases e <;> rfl

theorem step_rename (node : Node) (ρ : Renaming) (s : State) (e : Event) :
    step node (s.rename ρ) (e.rename ρ) = (step node s e).map (·.rename ρ) := by
  have ha : admits (s.rename ρ).runner.at (e.rename ρ) = admits s.runner.at e := admits_rename s.runner.at e
  simp only [step, ha]
  split
  case isFalse => rfl
  case isTrue  =>
    cases e
    case loop e =>
      simp only [Event.rename, State.rename, Runner.step_rename, Option.map_map]
      rfl
    case grant e =>
      simp only [Event.rename, State.rename, DeviceGrant.step_rename, Option.bind_map, Option.map_bind]
      exact congrArg _ (funext fun o => resume_rename node s o)

theorem prints_rename (node : Node) (ρ : Renaming) (s : State) (e : Event) (s' : State) :
    node.prints (s.rename ρ) (e.rename ρ) (s'.rename ρ) = node.prints s e s' := by
  cases e
  case loop e  => exact Runner.printsTo_rename ρ s.runner e s'.runner
  case grant e =>
    simp only [prints, Event.rename, State.rename, DeviceGrant.prints_rename, DeviceGrant.step_rename]
    congr 1
    cases DeviceGrant.step node.grant s.grant e
    case none   => rfl
    case some o =>
      obtain ⟨_, a⟩ := o
      cases a
      case none   => rfl
      case some a =>
        simp only [Option.map_some, DeviceGrant.Outcome.rename, answered_rename]
        exact Runner.printsTo_rename ρ s.runner (answered a) s'.runner

-- Two secrets with the same leading part change places.
def swapped : Renaming where
  rename    := Equiv.swap "zc_0123456789" "zc_012345678x"
  injective := (Equiv.swap _ _).injective
  shown s   := by
    have h : Credentials.tokenPrefix "zc_0123456789" = Credentials.tokenPrefix "zc_012345678x" := by decide
    rw [Equiv.swap_apply_def]
    split
    case isTrue hs => rw [hs, h]
    case isFalse =>
      split
      case isTrue hs => rw [hs, h]
      case isFalse   => rfl

-- A node loads its credential and dials with it.
def dials (secret : String) : List Event :=
  [.grant .bearer, .grant (.loaded (.ok (some ⟨credentialVersion, secret, ⟨"", "", ""⟩, ⟨"", "", ""⟩, [], ""⟩))),
    .loop (.dial (.ok { id := 0 }))]

end Node
