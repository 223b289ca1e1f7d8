import Mathlib.Data.List.Destutter
import ZyrisDocker.Heal.Watch
import ZyrisDocker.Heal.Theorems.Rearm

open Transition

namespace Incident

-- What an incident is about.
def target (i : Incident) : String × String :=
  (i.kind, i.name)

-- The kinds of the incidents in a sample.
def kinds : List String :=
  ["process", "container", "k8s", "k8s_pod", "k8s_node"]

theorem key_eq_iff {i j : Incident} (hi : i.kind ∈ kinds) (hj : j.kind ∈ kinds) :
    i.key = j.key ↔ i.target = j.target := by
  have hc {k : String} (h : k ∈ kinds) : ':' ∉ k.toList := by
    simp only [kinds, List.mem_cons, List.not_mem_nil, or_false] at h
    rcases h with h | h | h | h | h <;> simp [h]
  rw [target, target, Prod.mk.injEq]
  exact Target.key_inj (hc hi) (hc hj)

end Incident

namespace SelfHealer

section Episodes

-- The number of maximal runs of `true`.
def episodes (downs : List Bool) : Nat :=
  downs.destutter (· ≠ ·) |>.count true

theorem count_destutter'_snoc {a b : Bool} {l : List Bool} : ((l ++ [b]).destutter' (· ≠ ·) a).count true =
    (l.destutter' (· ≠ ·) a).count true + if b ∧ l.getLastD a = false then 1 else 0 := by
  induction l generalizing a
  case nil => cases a <;> cases b <;> rfl
  case cons c l ih =>
    rw [List.cons_append, List.destutter'_cons, List.destutter'_cons, List.getLastD_cons]
    split
    case isTrue       => rw [List.count_cons, List.count_cons, ih]; omega
    case isFalse hac  => rw [ih, not_not.mp hac]

-- An episode begins when something is down which was not down before.
theorem episodes_snoc {b : Bool} {l : List Bool} :
    episodes (l ++ [b]) = episodes l + if b ∧ l.getLastD false = false then 1 else 0 := by
  cases l
  case nil  => cases b <;> rfl
  case cons => rw [List.getLastD_cons]; exact count_destutter'_snoc

end Episodes

namespace State

variable {s : State} {is : List Incident} {key : String}

theorem mem_rounds_reported : key ∈ (s.rounds is).reported ↔ key ∈ s.reported ∨ key ∈ is.map Incident.key := by
  induction is generalizing s
  case nil       => simp [rounds]
  case cons i _ ih => rw [rounds, ih, mem_next_reported, List.map_cons, List.mem_cons, or_assoc]

theorem mem_tick_rounds : key ∈ ((s.tick is).rounds is).reported ↔ key ∈ is.map Incident.key := by
  rw [mem_rounds_reported, mem_tick_reported]
  exact ⟨(·.elim And.right id), .inr⟩

theorem reports_subset : s.reports is ⊆ is := by
  induction is generalizing s
  case nil => exact List.nil_subset _
  case cons i is ih =>
    rw [reports]
    split
    case isTrue  => exact List.Subset.trans ih (List.subset_cons_self _ _)
    case isFalse => exact List.cons_subset_cons _ ih

-- Of the incidents with one key, the first one is passed on, unless the key is in the map already.
theorem count_reports : ((s.reports is).map Incident.key).count key =
    if key ∈ is.map Incident.key ∧ key ∉ s.reported then 1 else 0 := by
  induction is generalizing s
  case nil => rfl
  case cons i is ih =>
    rw [reports]
    split
    case isTrue hr =>
      rw [ih]
      refine if_congr ?_ rfl rfl
      grind [mem_next_reported]
    case isFalse hr =>
      rw [List.map_cons, List.count_cons, ih]
      grind [mem_next_reported]

theorem count_tick_reports : (((s.tick is).reports is).map Incident.key).count key =
    if key ∈ is.map Incident.key ∧ key ∉ s.reported then 1 else 0 := by
  rw [count_reports]
  refine if_congr ?_ rfl rfl
  grind [mem_tick_reported]

@[simp]
theorem next_slot : (s.next incident rest).slot = s.slot := by
  simp only [next]
  split
  case isTrue  => rfl
  case isFalse => split <;> rfl

-- With a connection in the slot, every incident that is passed on gets its report task.
theorem rounds_tasks (hs : s.slot = some conn) :
    (s.rounds is).tasks.map Report.incident = s.tasks.map Report.incident ++ s.reports is := by
  induction is generalizing s
  case nil => simp [rounds, reports]
  case cons i is ih =>
    rw [rounds, ih (by simpa using hs), reports]
    split
    case isTrue hr  => simp [next, hr]
    case isFalse hr => simp [next, hr, hs, spawn]

theorem tick_rounds_tasks (hs : s.slot = some conn) :
    ((s.tick is).rounds is).tasks.map Report.incident = s.tasks.map Report.incident ++ (s.tick is).reports is :=
  rounds_tasks (s := s.tick is) hs

@[simp]
theorem rounds_slot : (s.rounds is).slot = s.slot := by
  induction is generalizing s
  case nil         => rfl
  case cons _ _ ih => simp [rounds, ih]

section Watch

variable {samples : List (List Incident)}

@[simp]
theorem watch_nil : s.watch [] = s := rfl

theorem watch_snoc : s.watch (samples ++ [is]) = ((s.watch samples).tick is).rounds is := by
  simp [watch]

theorem watch_slot : (s.watch samples).slot = s.slot := by
  induction samples using List.reverseRecOn
  case nil                 => rfl
  case append_singleton ih => rw [watch_snoc, rounds_slot]; exact ih

-- The map holds what was down at the latest tick.
theorem mem_watch_reported {held : Option Connection} :
    key ∈ (watch { slot := held } samples).reported ↔ key ∈ (samples.getLastD []).map Incident.key := by
  cases samples using List.reverseRecOn
  case nil              => simp
  case append_singleton => rw [watch_snoc, mem_tick_rounds, List.getLastD_concat]

end Watch

section Run

variable {cfg : Config} {probe : Probe} {probes : List Probe}

-- The events of one tick in the watcher's loop.
def tickEvents (cfg : Config) (probe : Probe) : List Event :=
  .tick probe :: (sample cfg probe).map fun _ => .next

theorem rounds_run (cfg : Config) (h : s.pending = is) :
    Run (Fires <| step cfg) s (is.map fun _ => .next) (s.rounds is) ∧ (s.rounds is).pending = [] := by
  induction is generalizing s
  case nil => exact ⟨.refl, h⟩
  case cons i is ih =>
    have ⟨r, hp⟩ := ih (s := s.next i is) next_pending
    exact ⟨.step (show step cfg s .next = _ by simp [step, h]) r, hp⟩

-- The ticks are a run of the watcher.
theorem watch_run (h : s.pending = []) : Run (Fires <| step cfg) s (probes.flatMap <| tickEvents cfg)
    (s.watch <| probes.map <| sample cfg) := by
  induction probes generalizing s
  case nil => exact .refl
  case cons probe probes ih =>
    have ⟨r, hp⟩ := rounds_run cfg (s := s.tick <| sample cfg probe) rfl
    exact (Run.step (show step cfg s (.tick probe) = _ by simp [step, h]) r).append (ih hp)

end Run

end State

section Targets

variable {i : Incident} {is : List Incident} {samples : List (List Incident)} {t : String × String}
variable {held : Option Connection}

-- What counts for a key counts for the target.
theorem count_target (hi : i.kind ∈ Incident.kinds) (hk : ∀ i ∈ is, i.kind ∈ Incident.kinds) :
    (is.map Incident.target).count i.target = (is.map Incident.key).count i.key := by
  simp only [List.count, List.countP_map]
  refine List.countP_congr fun j hj => ?_
  simp [Incident.key_eq_iff (hk j hj) hi]

theorem mem_target_iff (hi : i.kind ∈ Incident.kinds) (hk : ∀ i ∈ is, i.kind ∈ Incident.kinds) :
    i.target ∈ is.map Incident.target ↔ i.key ∈ is.map Incident.key := by
  simp only [List.mem_map]
  refine exists_congr fun j => and_congr_right fun hj => ?_
  exact (Incident.key_eq_iff (hk j hj) hi).symm

-- The incidents passed on at a tick: one for each target that is newly down.
theorem count_watch_reports (hi : ∀ i ∈ is, i.kind ∈ Incident.kinds)
    (hs : ∀ i ∈ samples.getLastD [], i.kind ∈ Incident.kinds) :
    ((((State.watch { slot := held } samples).tick is).reports is).map Incident.target).count t =
      if t ∈ is.map Incident.target ∧ t ∉ (samples.getLastD []).map Incident.target then 1 else 0 := by
  by_cases ht : t ∈ is.map Incident.target
  case pos =>
    have ⟨i, hm, he⟩ := List.mem_map.mp ht
    subst he
    rw [count_target (hi i hm) fun j hj => hi j (State.reports_subset hj), State.count_tick_reports]
    refine if_congr (and_congr ?_ <| not_congr ?_) rfl rfl
    · exact (mem_target_iff (hi i hm) hi).symm
    · exact State.mem_watch_reported.trans (mem_target_iff (hi i hm) hs).symm
  case neg =>
    have hn : t ∉ (((State.watch { slot := held } samples).tick is).reports is).map Incident.target :=
      fun h => ht (List.map_subset _ State.reports_subset h)
    rw [List.count_eq_zero.mpr hn, if_neg (ht ·.1)]

theorem getLastD_map_down : (samples.map fun is => decide (t ∈ is.map Incident.target)).getLastD false =
    decide (t ∈ (samples.getLastD []).map Incident.target) := by
  cases samples using List.reverseRecOn
  case nil              => simp
  case append_singleton => simp

theorem getLastD_kinds (hp : ∀ is ∈ samples, ∀ i ∈ is, i.kind ∈ Incident.kinds) :
    ∀ i ∈ samples.getLastD [], i.kind ∈ Incident.kinds := by
  cases samples using List.reverseRecOn
  case nil              => nofun
  case append_singleton => simpa using hp _ (by simp)

-- The report tasks for a target: one for each time that it goes down.
theorem count_watch_tasks (hk : ∀ is ∈ samples, ∀ i ∈ is, i.kind ∈ Incident.kinds) (hc : held = some conn) :
    ((State.watch { slot := held } samples).tasks.map Report.incident |>.map Incident.target).count t =
      episodes (samples.map fun is => decide (t ∈ is.map Incident.target)) := by
  induction samples using List.reverseRecOn
  case nil => rfl
  case append_singleton samples is ih =>
    have hs : ∀ is ∈ samples, ∀ i ∈ is, i.kind ∈ Incident.kinds := fun is h => hk is (by simp [h])
    rw [State.watch_snoc, State.tick_rounds_tasks (State.watch_slot.trans hc), List.map_append, List.count_append]
    rw [ih hs, count_watch_reports (hk is (by simp)) (getLastD_kinds hs)]
    rw [List.map_append, List.map_singleton, episodes_snoc, getLastD_map_down]
    simp

end Targets

theorem watch_reports (held : Option Connection) (samples : List (List Incident)) :
    (∀ pre is post, samples = pre ++ is :: post →
      let s := State.watch { slot := held } pre
      (∀ key, key ∈ ((s.tick is).rounds is).reported ↔ key ∈ is.map Incident.key) ∧
      (∀ key, (((s.tick is).reports is).map Incident.key).count key =
        if key ∈ is.map Incident.key ∧ key ∉ (pre.getLastD []).map Incident.key then 1 else 0)) ∧
    ((∀ is ∈ samples, ∀ i ∈ is, i.kind ∈ Incident.kinds) →
      (∀ pre is post, samples = pre ++ is :: post → ∀ t,
        ((((State.watch { slot := held } pre).tick is).reports is).map Incident.target).count t =
          if t ∈ is.map Incident.target ∧ t ∉ (pre.getLastD []).map Incident.target then 1 else 0) ∧
      (∀ conn, held = some conn → ∀ t,
        ((State.watch { slot := held } samples).tasks.map Report.incident |>.map Incident.target).count t =
          episodes (samples.map fun is => decide (t ∈ is.map Incident.target)))) ∧
    (∀ i j : Incident, i.kind ∈ Incident.kinds → j.kind ∈ Incident.kinds → (i.key = j.key ↔ i.target = j.target)) ∧
    (∀ cfg probe, ∀ i ∈ sample cfg probe, i.kind ∈ Incident.kinds) := by
  refine ⟨fun pre is post _ => ⟨fun key => State.mem_tick_rounds, fun key => ?_⟩, fun hk => ⟨?_, ?_⟩, ?_, ?_⟩
  case refine_1 =>
    rw [State.count_tick_reports]
    exact if_congr (and_congr_right fun _ => not_congr State.mem_watch_reported) rfl rfl
  case refine_2 =>
    rintro pre is post rfl t
    exact count_watch_reports (hk is (by simp)) (getLastD_kinds fun is h => hk is (by simp [h]))
  case refine_3 => exact fun conn hc t => count_watch_tasks hk hc
  case refine_4 => exact fun i j => Incident.key_eq_iff
  case refine_5 => exact fun cfg probe i => Target.sample_kind

-- A process that goes down twice, and is watched twice.
theorem watch_reports_flapping :
    let nginx : Incident := ⟨"process", "nginx", ""⟩
    ((State.watch { slot := some { id := 0 } } [[nginx, nginx], [nginx], [], [nginx]]).tasks.map Report.incident
      |>.map Incident.target).count ("process", "nginx") = 2 := by
  intro nginx
  have ⟨_, targets, _⟩ := watch_reports (some { id := 0 }) [[nginx, nginx], [nginx], [], [nginx]]
  have ⟨_, tasks⟩ := targets (by simp [nginx, Incident.kinds])
  exact tasks _ rfl ("process", "nginx")

end SelfHealer
