import ZyrisDocker.Heal.Theorems.Watch

namespace SelfHealer

variable {known known' : Connection → Prop} {cfg : Config} {s s' : State} {task : Report} {r : Reply}

-- A session as the configuration asks for it. An agent that is configured is the one it is opened against.
structure Opened (cfg : Config) (task : Report) (new : NewSession) : Prop where
  asked : ∃ agentId, new = task.newSession cfg agentId
  agent : ∀ {agentId}, cfg.healAgentId = some agentId → new.agentId = agentId

-- What a task has prepared for its next call. Only without a configured agent, the agents are asked for.
def Stage.Prepared (cfg : Config) (task : Report) : Stage → Prop
  | .capability         => True
  | .agents             => cfg.healAgentId = none
  | .session new        => Opened cfg task new
  | .message new _ body => Opened cfg task new ∧ body = incidentBody task.incident.detail task.conn.node

structure Report.Named (known : Connection → Prop) (cfg : Config) (task : Report) : Prop where
  known    : known task.conn
  prepared : task.stage.Prepared cfg task

-- The message names the node by the address that it has over a known connection.
structure Delivery.Named (known : Connection → Prop) (cfg : Config) (d : Delivery) : Prop where
  opened    : ∃ task : Report, task.incident = d.incident ∧ Opened cfg task d.new
  addressed : ∃ conn, known conn ∧ d.body = incidentBody d.incident.detail conn.node

def Report.Progress.Named (known : Connection → Prop) (cfg : Config) : Report.Progress → Prop
  | .await task     => task.Named known cfg
  | .failed         => True
  | .sent delivery  => delivery.Named known cfg

-- Whatever is sent to the server, it is sent over known connections, and as the configuration asks for it.
structure Named (known : Connection → Prop) (cfg : Config) (s : State) : Prop where
  slot      : ∀ {conn}, s.slot = some conn → known conn
  tasks     : ∀ task ∈ s.tasks, task.Named known cfg
  delivered : ∀ d ∈ s.delivered, d.Named known cfg

namespace Report.Named

theorem openSession (n : task.Named known cfg) (h : ∀ {agent'}, cfg.healAgentId = some agent' → agent = agent') :
    (task.openSession cfg agent).Named known cfg where
  known    := n.known
  prepared := ⟨⟨agent, rfl⟩, h⟩

theorem resume (n : task.Named known cfg) (h : task.resume cfg task.stage r = some p) : p.Named known cfg := by
  have hp := n.prepared
  unfold Report.resume at h
  split at h
  case h_1 =>
    split at h <;> cases h
    case h_1 hi => exact n.openSession fun h => Option.some.inj <| hi.symm.trans h
    case h_2 hi => exact ⟨n.known, hi⟩
  case h_2 hs =>
    cases h
    rw [hs] at hp
    exact n.openSession fun h => nomatch hp.symm.trans h
  case h_3 hs =>
    cases h
    rw [hs] at hp
    exact ⟨n.known, ⟨hp.asked, hp.agent⟩, rfl⟩
  case h_4 hs =>
    cases h
    rw [hs] at hp
    exact ⟨⟨task, rfl, hp.1⟩, task.conn, n.known, hp.2⟩
  case h_10 => cases h
  all_goals cases h; trivial

end Report.Named

namespace Named

theorem init : Named known cfg {} where
  slot      := nofun
  tasks     := nofun
  delivered := nofun

theorem mono (n : Named known cfg s) (h : ∀ {conn}, known conn → known' conn) : Named known' cfg s where
  slot hs          := h (n.slot hs)
  tasks task hm    := ⟨h (n.tasks task hm).known, (n.tasks task hm).prepared⟩
  delivered d hm   := ⟨(n.delivered d hm).opened, (n.delivered d hm).addressed.imp fun _ => .imp_left h⟩

theorem next (n : Named known cfg s) : Named known cfg (s.next incident rest) := by
  constructor
  case slot      => exact fun h => n.slot <| State.next_slot (s := s) ▸ h
  case delivered => exact State.next_delivered (s := s) ▸ n.delivered
  case tasks     =>
    simp only [State.next]
    split
    case isTrue => exact n.tasks
    case isFalse =>
      split
      case h_2    => exact n.tasks
      case h_1 hs => exact List.forall_mem_append.mpr ⟨n.tasks, List.forall_mem_singleton.mpr ⟨n.slot hs, trivial⟩⟩

theorem progress (n : Named known cfg s) (h : p.Named known cfg) : Named known cfg (s.progress i p) := by
  cases p
  case await =>
    exact ⟨n.slot, fun task hm => (List.mem_or_eq_of_mem_set hm).elim (n.tasks task) (· ▸ h), n.delivered⟩
  case failed => exact ⟨n.slot, fun task hm => n.tasks task <| List.mem_of_mem_eraseIdx hm, n.delivered⟩
  case sent   =>
    exact ⟨n.slot, fun task hm => n.tasks task <| List.mem_of_mem_eraseIdx hm, List.forall_mem_cons.mpr ⟨h, n.delivered⟩⟩

theorem step (n : Named known cfg s) (h : step cfg s e = some s') (put : ∀ {conn}, e = .put conn → known conn) :
    Named known cfg s' := by
  cases e
  case put   => exact step_put h ▸ ⟨fun hs => Option.some.inj hs ▸ put rfl, n.tasks, n.delivered⟩
  case close => exact step_close h ▸ ⟨n.slot, n.tasks, n.delivered⟩
  case tick  => exact (step_tick h).2 ▸ ⟨n.slot, n.tasks, n.delivered⟩
  case next  =>
    obtain ⟨_, _, _, rfl⟩ := step_next h
    exact n.next
  case reply =>
    obtain ⟨task, _, ht, _, hr, rfl⟩ := step_reply h
    exact n.progress <| (n.tasks task <| List.mem_of_getElem? ht).resume hr

end Named

end SelfHealer
