import ZyrisDocker.Lib.Csv

-- Durations are counted in nanoseconds.
abbrev Duration := Nat

namespace Duration

def fromSecs (n : Nat) : Duration :=
  n * 1000000000

def fromMillis (n : Nat) : Duration :=
  n * 1000000

def asMillis (d : Duration) : Nat :=
  d / 1000000

theorem asMillis_fromSecs (n : Nat) : (fromSecs n).asMillis = n * 1000 := by
  change n * 1000000000 / 1000000 = n * 1000
  omega

theorem fromSecs_eq_fromMillis (n : Nat) : fromSecs n = fromMillis (n * 1000) := by
  change n * 1000000000 = n * 1000 * 1000000
  omega

theorem fromMillis_asMillis_le (d : Duration) : fromMillis d.asMillis ≤ d :=
  Nat.div_mul_le_self ..

theorem fromMillis_le_iff : fromMillis m ≤ fromMillis n ↔ m ≤ n :=
  Nat.mul_le_mul_right_iff (by decide)

theorem fromMillis_inj : fromMillis m = fromMillis n ↔ m = n :=
  Nat.mul_left_inj (by decide)

theorem fromMillis_min (m n : Nat) : min (fromMillis m) (fromMillis n) = fromMillis (min m n) :=
  Nat.mul_min_mul_right ..

theorem fromSecs_eq_zero_iff : fromSecs n = 0 ↔ n = 0 :=
  Nat.mul_eq_zero.trans (by simp)

end Duration

structure Config where
  monitorInterval : Duration
  watchProcesses  : List String
  watchContainers : List String
  watchK8s        : Bool
  healAgentId     : Option String
  healProjectId   : Option String
  healPreamble    : String
  fileRoots       : List String
  execTimeout     : Duration

namespace Config

-- What is set ends at the first character with the number zero, so that a variable cannot contain it.
def Settable (v : String) : Prop :=
  .ofNat 0 ∉ v.toList

instance : DecidablePred Settable :=
  fun v => inferInstanceAs <| Decidable (.ofNat 0 ∉ v.toList)

theorem settable_of_ite {p : Prop} [Decidable p] (h : (if p ∧ Settable v then some v else none) = some v') :
    Settable v' := by
  obtain ⟨hc, he⟩ := Option.ite_none_right_eq_some.mp h
  exact Option.some.inj he ▸ hc.2

-- The variables that are set, and to what. A variable that is not Unicode counts as one that is not set.
structure Env where
  value : String → Option String
  settable {key v : String} : value key = some v → Settable v

namespace Env

instance : CoeFun Env fun _ => String → Option String := ⟨value⟩

-- Only one variable is set, to a text that it can be set to.
def only (key value : String) : Env where
  value k  := if k = key ∧ Settable value then some value else none
  settable := settable_of_ite

end Env

section Env

variable (env : Env) (key : String)

def envStr : Option String :=
  (env key).filter fun v => Text.trim v ≠ ""

def envBool : Bool :=
  (envStr env key).any (· ∈ ["1", "true", "yes", "on"])

def envCsv : List String :=
  match envStr env key with
  | some raw => Text.csv raw
  | none     => []

def envDurationSecs (default : Nat) : Duration :=
  match (envStr env key).bind fun v => Text.parseU64 v.toList with
  | some n => .fromSecs n
  | none   => .fromSecs default

end Env

def defaultHealPreamble : String :=
  "You are the self-healing incident responder for this container node. An incident " ++
  "was detected on the node's system, Docker or Kubernetes state. Diagnose the root " ++
  "cause with the node's `monitor` and `exec` capabilities, resolve it if you can " ++
  "(restart a stopped service or container, recover a pod), and then report back " ++
  "concisely: what broke, what you found, what you did, and what remains."

def fromEnv (env : Env) : Config where
  monitorInterval := envDurationSecs env "ZYRISD_MONITOR_INTERVAL_SECS" 30
  watchProcesses  := envCsv env "ZYRISD_WATCH_PROCESSES"
  watchContainers := envCsv env "ZYRISD_WATCH_CONTAINERS"
  watchK8s        := envBool env "ZYRISD_WATCH_K8S"
  healAgentId     := envStr env "ZYRISD_HEAL_AGENT_ID"
  healProjectId   := envStr env "ZYRISD_HEAL_PROJECT_ID"
  healPreamble    := (envStr env "ZYRISD_HEAL_PREAMBLE").getD defaultHealPreamble
  fileRoots       := envCsv env "ZYRISD_FILE_ROOTS"
  execTimeout     := envDurationSecs env "ZYRISD_EXEC_TIMEOUT_SECS" 120

def defaultMaxOutputBytes : Nat := 256 * 1024

-- Cap for a single `exec` output stream. Here zero is not accepted.
def maxOutputBytes (env : Env) : Nat :=
  (envStr env "ZYRISD_MAX_OUTPUT_BYTES").bind (fun v => Text.parseU64 v.toList) |>.filter (· > 0)
    |>.getD defaultMaxOutputBytes

section Env

variable {env : Env} {key : String}

theorem envStr_of_parse (hv : env key = some v) (hn : Text.parseU64 v.toList = some n) : envStr env key = some v := by
  rw [envStr, hv, Option.filter_some, if_pos]
  simpa using Text.trim_ne_of_parseU64 hn

-- A number is taken as it is, and everything else is as if the variable were not set.
theorem envDurationSecs_of_parse (default : Nat) (hv : env key = some v) (hn : Text.parseU64 v.toList = some n) :
    envDurationSecs env key default = .fromSecs n := by
  simp only [envDurationSecs, envStr_of_parse hv hn, Option.bind_some, hn]

theorem envDurationSecs_cases (env : Env) (key : String) (default : Nat) :
    envDurationSecs env key default = .fromSecs default ∨
    ∃ v n, env key = some v ∧ Text.parseU64 v.toList = some n ∧ envDurationSecs env key default = .fromSecs n := by
  simp only [envDurationSecs]
  split
  case h_2      => exact .inl rfl
  case h_1 n hn =>
    have ⟨v, hv, hn⟩ := Option.bind_eq_some_iff.mp hn
    exact .inr ⟨v, n, (Option.filter_eq_some_iff.mp hv).1, hn, rfl⟩

theorem envDurationSecs_eq_zero_iff {default : Nat} (hd : default ≠ 0) :
    envDurationSecs env key default = 0 ↔ ∃ v, env key = some v ∧ Text.parseU64 v.toList = some 0 := by
  constructor
  case mpr => exact fun ⟨_, hv, hn⟩ => envDurationSecs_of_parse default hv hn
  case mp  =>
    intro h
    rcases envDurationSecs_cases env key default with he | ⟨v, n, hv, hn, he⟩
    case inl => exact absurd (Duration.fromSecs_eq_zero_iff.mp <| he ▸ h) hd
    case inr =>
      obtain rfl := Duration.fromSecs_eq_zero_iff.mp <| he ▸ h
      exact ⟨v, hv, hn⟩

end Env

theorem maxOutputBytes_pos (env : Env) : 0 < maxOutputBytes env := by
  rw [maxOutputBytes]
  cases h : Option.filter _ _
  case none   => decide
  case some n => simpa using (Option.filter_eq_some_iff.mp h).2

end Config
