import ZyrisDocker.Docker.Engine

namespace Docker.Engine

-- The lookups of a selector find the container which has it as its name or id, and no other one.
structure Answers (engine : Engine) (selector : String) : Prop where
  found   : ∀ c ∈ engine.containers, c.name = selector ∨ c.id = selector →
    containerInfo (engine.ps selector) selector = .ok c
  missing : (∀ c ∈ engine.containers, c.name ≠ selector ∧ c.id ≠ selector) →
    ∃ e, containerInfo (engine.ps selector) selector = .error e
  running : containerRunning (engine.ps selector) selector ↔
    ∃ c ∈ engine.containers, c.name = selector ∧ c.running

-- The newest container whose name contains the selector is the only one that has it as its name or
-- id. If it has it as its id, it does not run.
def Unmasked (engine : Engine) (selector : String) : Prop :=
  match engine.containers.find? (named selector) with
  | some c => (c.name = selector ∨ c.id = selector ∧ ¬c.running) ∧
    ∀ d ∈ engine.containers, d.name = selector ∨ d.id = selector → d = c
  | none   => ∀ c ∈ engine.containers, c.id ≠ selector

variable {engine : Engine} {selector : String} {c : ContainerInfo}

theorem parse_row (h : c ∈ engine.containers) : parseContainerLine (some (row c)) = some c := by
  have hn : c.name.toList.splitOn ',' = [c.name.toList] := by
    rw [List.splitOn_eq_splitOnP]
    refine List.splitOnP_eq_singleton fun x hx => ?_
    simpa using fun he : x = ',' => engine.plain c h (he ▸ hx)
  have hr : decide (c.state = "running") = c.running := by
    simp [← engine.running c h]
  simp [parseContainerLine, row, Json.get, Json.asStr, hn, hr, bind, Option.bind]

-- The first row that parses is the one of the newest container whose name contains the selector.
theorem findSome_ps : (engine.containers.filter (named selector) |>.map fun c => some (row c)).findSome? parseContainerLine =
    engine.containers.find? (named selector) := by
  rw [← List.head?_filter, List.findSome?_map]
  cases h : engine.containers.filter (named selector)
  case nil => rfl
  case cons c cs =>
    have hc : c ∈ engine.containers.filter (named selector) := by simp [h]
    simp [parse_row (List.mem_filter.mp hc).1]

theorem containerInfo_some (h : engine.containers.find? (named selector) = some c) :
    containerInfo (engine.ps selector) selector = .ok c := by
  simp [containerInfo, ps, runDocker, findSome_ps, h, bind, Except.bind, pure, Except.pure]

theorem containerInfo_none (h : engine.containers.find? (named selector) = none) :
    containerInfo (engine.ps selector) selector = .error s!"no container {selector}" := by
  simp [containerInfo, ps, runDocker, findSome_ps, h, bind, Except.bind, throw, throwThe, MonadExceptOf.throw]

theorem containerRunning_some (h : engine.containers.find? (named selector) = some c) :
    containerRunning (engine.ps selector) selector = c.running := by
  simp [containerRunning, containerInfo_some h]

theorem containerRunning_none (h : engine.containers.find? (named selector) = none) :
    containerRunning (engine.ps selector) selector = false := by
  simp [containerRunning, containerInfo_none h]

theorem named_self : named c.name c := by
  simp [named]

theorem answers_some (h : engine.containers.find? (named selector) = some c) :
    engine.Answers selector ↔ (c.name = selector ∨ c.id = selector ∧ ¬c.running) ∧
      ∀ d ∈ engine.containers, d.name = selector ∨ d.id = selector → d = c := by
  have hc : c ∈ engine.containers := List.mem_of_find?_eq_some h
  have hi := containerInfo_some h
  have hr := containerRunning_some h
  constructor
  case mp =>
    intro a
    have unique : ∀ d ∈ engine.containers, d.name = selector ∨ d.id = selector → d = c :=
      fun d hd hs => Except.ok.inj ((a.found d hd hs).symm.trans hi)
    have ⟨d, hd, hs⟩ : ∃ d ∈ engine.containers, d.name = selector ∨ d.id = selector := by
      by_contra hn
      have ⟨e, he⟩ := a.missing (by grind)
      cases hi.symm.trans he
    cases unique d hd hs
    refine ⟨?_, unique⟩
    by_cases hn : c.name = selector
    case pos => exact .inl hn
    case neg =>
      refine .inr ⟨hs.resolve_left hn, fun hrun => ?_⟩
      have ⟨d, hd, hs, _⟩ := a.running.mp (hr ▸ hrun)
      exact hn (unique d hd (.inl hs) ▸ hs)
  case mpr =>
    rintro ⟨hs, unique⟩
    refine ⟨fun d hd hs => unique d hd hs ▸ hi, fun hm => ?_, ?_⟩
    case refine_1 => exact absurd hs (by simp [hm c hc])
    case refine_2 =>
      rw [hr]
      constructor
      case mp  => exact fun hrun => ⟨c, hc, hs.resolve_right (·.2 hrun), hrun⟩
      case mpr =>
        rintro ⟨d, hd, hn, hrun⟩
        exact unique d hd (.inl hn) ▸ hrun

theorem answers_none (h : engine.containers.find? (named selector) = none) :
    engine.Answers selector ↔ ∀ c ∈ engine.containers, c.id ≠ selector := by
  have hi := containerInfo_none h
  have hn : ∀ c ∈ engine.containers, c.name ≠ selector := by
    rintro c hc rfl
    exact List.find?_eq_none.mp h c hc named_self
  constructor
  case mp =>
    intro a c hc hs
    cases (a.found c hc (.inr hs)).symm.trans hi
  case mpr =>
    intro hm
    refine ⟨fun c hc hs => ?_, fun _ => ⟨_, hi⟩, ?_⟩
    case refine_1 => exact absurd hs (by simp [hn c hc, hm c hc])
    case refine_2 =>
      rw [containerRunning_none h, Bool.false_eq_true, false_iff]
      exact fun ⟨c, hc, hs, _⟩ => hn c hc hs

theorem answers_iff (engine : Engine) (selector : String) : engine.Answers selector ↔ engine.Unmasked selector := by
  simp only [Unmasked]
  split
  case h_1 h => exact answers_some h
  case h_2 h => exact answers_none h

-- The container `web` has exited, and the newer one `web-2` runs.
def masking : Engine where
  containers := [⟨"2f", "web-2", "nginx", "running", true, "Up"⟩, ⟨"1a", "web", "nginx", "exited", false, "Exited"⟩]
  names      := by decide
  ids        := by decide
  plain      := by decide
  running    := by decide

theorem not_answers : ¬∀ (engine : Engine) (selector : String), engine.Answers selector := by
  intro h
  have hr := (h masking "web").running.mp (by decide)
  simp [masking] at hr

end Docker.Engine
