import ZyrisDocker.Config

open Text

namespace Config

-- A time that a variable can be set to.
def WholeSecs (d : Duration) : Prop :=
  ∃ n, n < UInt64.size ∧ d = .fromSecs n

-- The configurations that an environment can ask for.
structure Representable (cfg : Config) : Prop where
  interval   : WholeSecs cfg.monitorInterval
  processes  : ∀ s ∈ cfg.watchProcesses, IsEntry s ∧ Settable s
  containers : ∀ s ∈ cfg.watchContainers, IsEntry s ∧ Settable s
  agent      : ∀ id ∈ cfg.healAgentId, trim id ≠ "" ∧ Settable id
  project    : ∀ id ∈ cfg.healProjectId, trim id ≠ "" ∧ Settable id
  preamble   : trim cfg.healPreamble ≠ "" ∧ Settable cfg.healPreamble
  roots      : ∀ s ∈ cfg.fileRoots, IsEntry s ∧ Settable s
  timeout    : WholeSecs cfg.execTimeout

def secs (d : Duration) : String :=
  .ofList <| decimal (d / 1000000000 : Nat)

-- The variables that ask for a configuration.
def settings (cfg : Config) : String → Option String
  | "ZYRISD_MONITOR_INTERVAL_SECS" => secs cfg.monitorInterval
  | "ZYRISD_WATCH_PROCESSES"       => ",".intercalate cfg.watchProcesses
  | "ZYRISD_WATCH_CONTAINERS"      => ",".intercalate cfg.watchContainers
  | "ZYRISD_WATCH_K8S"             => if cfg.watchK8s then "true" else "false"
  | "ZYRISD_HEAL_AGENT_ID"         => cfg.healAgentId
  | "ZYRISD_HEAL_PROJECT_ID"       => cfg.healProjectId
  | "ZYRISD_HEAL_PREAMBLE"         => cfg.healPreamble
  | "ZYRISD_FILE_ROOTS"            => ",".intercalate cfg.fileRoots
  | "ZYRISD_EXEC_TIMEOUT_SECS"     => secs cfg.execTimeout
  | _                              => none

variable {env : Env} {key : String} {cfg : Config}

theorem Settable.append (hs : Settable s) (ht : Settable t) : Settable (s ++ t) := by
  simpa [Settable] using ⟨hs, ht⟩

theorem settable_intercalate (h : ∀ s ∈ l, IsEntry s ∧ Settable s) : Settable (",".intercalate l) := by
  rw [Settable, String.toList_intercalate]
  refine not_mem_intercalate (by decide) fun cs hc => ?_
  obtain ⟨s, hs, rfl⟩ := List.mem_map.mp hc
  exact (h s hs).2

theorem settable_secs (d : Duration) : Settable (secs d) := by
  rw [Settable, secs, String.toList_ofList]
  exact not_mem_decimal (by decide) (by decide)

-- The variables can be set so.
theorem settings_settable (h : cfg.Representable) (hv : cfg.settings key = some v) : Settable v := by
  simp only [settings] at hv
  split at hv
  case h_1  => exact Option.some.inj hv ▸ settable_secs _
  case h_2  => exact Option.some.inj hv ▸ settable_intercalate h.processes
  case h_3  => exact Option.some.inj hv ▸ settable_intercalate h.containers
  case h_4  => split at hv <;> cases hv <;> decide
  case h_5  => exact (h.agent v hv).2
  case h_6  => exact (h.project v hv).2
  case h_7  => exact Option.some.inj hv ▸ h.preamble.2
  case h_8  => exact Option.some.inj hv ▸ settable_intercalate h.roots
  case h_9  => exact Option.some.inj hv ▸ settable_secs _
  case h_10 => cases hv

def render (cfg : Config) (h : cfg.Representable) : Env where
  value    := cfg.settings
  settable := settings_settable h

theorem envStr_eq_some_iff : envStr env key = some v ↔ env key = some v ∧ trim v ≠ "" := by
  rw [envStr, Option.filter_eq_some_iff]
  simp

theorem envStr_of_text (hv : env key = some v) (hn : trim v ≠ "") : envStr env key = some v :=
  envStr_eq_some_iff.mpr ⟨hv, hn⟩

theorem envCsv_eq (hv : env key = some raw) : envCsv env key = csv raw := by
  by_cases hb : trim raw = ""
  case pos => rw [envCsv, envStr, hv, Option.filter_some, if_neg (by simpa using hb), csv_blank hb]
  case neg => rw [envCsv, envStr_of_text hv hb]

theorem envCsv_intercalate (hv : env key = some (",".intercalate l)) (h : ∀ s ∈ l, IsEntry s ∧ Settable s) :
    envCsv env key = l := by
  rw [envCsv_eq hv, csv_intercalate fun s hs => (h s hs).1]

theorem envStr_settable (h : envStr env key = some v) : trim v ≠ "" ∧ Settable v :=
  have ⟨hv, ht⟩ := envStr_eq_some_iff.mp h
  ⟨ht, env.settable hv⟩

theorem envCsv_entries : ∀ s ∈ envCsv env key, IsEntry s ∧ Settable s := by
  intro s hs
  simp only [envCsv] at hs
  split at hs
  case h_1 hr => exact ⟨isEntry_of_mem_csv hs, fun hc => (envStr_settable hr).2 <| mem_of_mem_csv hs hc⟩
  case h_2    => cases hs

theorem envDurationSecs_secs (default : Nat) (hv : env key = some (secs d)) (h : WholeSecs d) :
    envDurationSecs env key default = d := by
  obtain ⟨n, hn, rfl⟩ := h
  have hd : (Duration.fromSecs n / 1000000000 : Nat) = n := Nat.mul_div_cancel n (by decide)
  refine envDurationSecs_of_parse default hv ?_
  rw [secs, hd, String.toList_ofList, parseU64_decimal]
  simp [hn]

theorem envDurationSecs_whole (env : Env) (key : String) {default : Nat} (h : default < UInt64.size) :
    WholeSecs (envDurationSecs env key default) := by
  rcases envDurationSecs_cases env key default with he | ⟨v, n, _, hn, he⟩
  case inl => exact ⟨default, h, he⟩
  case inr =>
    obtain ⟨_, hl⟩ := Option.filter_eq_some_iff.mp hn
    exact ⟨n, by simpa using hl, he⟩

theorem trim_defaultHealPreamble : trim defaultHealPreamble ≠ "" := by
  have append {s t : String} (h : 'Y' ∈ s.toList) : 'Y' ∈ (s ++ t).toList :=
    String.toList_append ▸ List.mem_append_left _ h
  have hm : 'Y' ∈ defaultHealPreamble.toList := append <| append <| append <| append <| by decide
  exact fun h => absurd (isWhitespace_of_trim h _ hm) (by decide)

theorem settable_defaultHealPreamble : Settable defaultHealPreamble := by
  refine .append (.append (.append (.append ?_ ?_) ?_) ?_) ?_ <;> decide

-- Every environment asks for such a configuration.
theorem fromEnv_representable (env : Env) : (fromEnv env).Representable where
  interval   := envDurationSecs_whole env _ (by decide)
  processes  := envCsv_entries
  containers := envCsv_entries
  agent _    := envStr_settable
  project _  := envStr_settable
  preamble   := by
    simp only [fromEnv]
    cases h : envStr env "ZYRISD_HEAL_PREAMBLE"
    case none => exact ⟨trim_defaultHealPreamble, settable_defaultHealPreamble⟩
    case some => exact envStr_settable h
  roots      := envCsv_entries
  timeout    := envDurationSecs_whole env _ (by decide)

theorem envStr_option (hv : env key = id?) (h : ∀ id ∈ id?, trim id ≠ "" ∧ Settable id) :
    envStr env key = id? := by
  cases id?
  case none    => simp [envStr, hv]
  case some id => exact envStr_of_text hv (h id rfl).1

theorem envBool_render (h : cfg.Representable) : envBool (cfg.render h) "ZYRISD_WATCH_K8S" = cfg.watchK8s := by
  have hv : cfg.render h "ZYRISD_WATCH_K8S" = if cfg.watchK8s then some "true" else some "false" := rfl
  rw [envBool, envStr, hv]
  cases cfg.watchK8s <;> decide

-- And every such configuration can be asked for.
theorem fromEnv_render (h : cfg.Representable) : fromEnv (cfg.render h) = cfg := by
  have k8s := envBool_render h
  have preamble : envStr (cfg.render h) "ZYRISD_HEAL_PREAMBLE" = some cfg.healPreamble :=
    envStr_of_text rfl h.preamble.1
  cases cfg
  simp only [fromEnv, preamble, Config.mk.injEq]
  exact ⟨envDurationSecs_secs 30 rfl h.interval, envCsv_intercalate rfl h.processes, envCsv_intercalate rfl h.containers,
    k8s, envStr_option rfl h.agent, envStr_option rfl h.project, rfl, envCsv_intercalate rfl h.roots,
    envDurationSecs_secs 120 rfl h.timeout⟩

-- The configurations that are asked for are exactly these.
theorem fromEnv_range (cfg : Config) : (∃ env, fromEnv env = cfg) ↔ cfg.Representable :=
  ⟨fun ⟨env, h⟩ => h ▸ fromEnv_representable env, fun h => ⟨cfg.render h, fromEnv_render h⟩⟩

end Config
