import Mathlib.Order.MinMax
import ZyrisDocker.Terminal.Basic

namespace Duration

-- The milliseconds of a duration, or the largest number that 64 bits hold.
def saturatingMillis (d : Duration) : Nat :=
  min d.asMillis (UInt64.size - 1)

theorem saturatingMillis_mono {d d' : Duration} (h : d ≤ d') : d.saturatingMillis ≤ d'.saturatingMillis :=
  min_le_min_right _ <| Nat.div_le_div_right h

theorem fromMillis_saturatingMillis_le (d : Duration) : fromMillis d.saturatingMillis ≤ d :=
  (fromMillis_le_iff.mpr <| min_le_left ..).trans d.fromMillis_asMillis_le

-- The conversion to 64 bits only ever loses something.
theorem asMillis_mod_le (d : Duration) : d.asMillis % UInt64.size ≤ d.saturatingMillis :=
  le_min (Nat.mod_le ..) (Nat.le_sub_one_of_lt <| Nat.mod_lt _ (by decide))

end Duration

namespace GatedTerminal

open Duration

variable {gate : PathGate} {terminal : GatedTerminal} {env : Config.Env} {callerMs : Option Nat} {n : Nat}

-- The smaller of what the caller asked for and the configured duration, or this duration alone.
def intendedTimeout (execTimeout : Duration) (callerMs : Option Nat) : Duration :=
  match callerMs with
  | some ms => min (.fromMillis ms) execTimeout
  | none    => .fromMillis execTimeout.saturatingMillis

theorem intendedTimeout_mono {d d' : Duration} (h : d ≤ d') :
    intendedTimeout d callerMs ≤ intendedTimeout d' callerMs := by
  cases callerMs
  case some => exact min_le_min_left _ h
  case none => exact fromMillis_le_iff.mpr <| saturatingMillis_mono h

-- The effective timeout is never too long.
theorem effectiveTimeout_le (terminal : GatedTerminal) (callerMs : Option Nat) :
    terminal.effectiveTimeout callerMs ≤ intendedTimeout terminal.execTimeout callerMs := by
  have hc := fromMillis_le_iff.mpr terminal.execTimeout.asMillis_mod_le
  cases callerMs
  case none => exact hc
  case some =>
    refine le_min (fromMillis_le_iff.mpr <| min_le_left ..) ?_
    exact (fromMillis_le_iff.mpr <| min_le_right ..).trans <| hc.trans <| fromMillis_saturatingMillis_le _

-- The configuration acts as the cap of what the caller asks for.
structure Caps (gate : PathGate) (env : Config.Env) (callerMs : Option Nat) : Prop where
  exact      : (ofEnv gate env).effectiveTimeout callerMs = intendedTimeout (Config.fromEnv env).execTimeout callerMs
  notShorter : (∃ ms ∈ callerMs, fromMillis ms ≤ (ofEnv gate env).effectiveTimeout callerMs) ∨
    fromMillis (Config.fromEnv env).execTimeout.saturatingMillis ≤ (ofEnv gate env).effectiveTimeout callerMs
  notLonger  : (∀ ms ∈ callerMs, (ofEnv gate env).effectiveTimeout callerMs ≤ fromMillis ms) ∧
    (ofEnv gate env).effectiveTimeout callerMs ≤ (Config.fromEnv env).execTimeout
  -- A larger limit never yields a shorter timeout.
  mono       : ∀ env', (Config.fromEnv env').execTimeout ≤ (Config.fromEnv env).execTimeout →
    (ofEnv gate env').effectiveTimeout callerMs ≤ (ofEnv gate env).effectiveTimeout callerMs

theorem Caps.of_exact
    (h : (ofEnv gate env).effectiveTimeout callerMs = intendedTimeout (Config.fromEnv env).execTimeout callerMs) :
    Caps gate env callerMs where
  exact      := h
  notShorter := by
    rw [h]
    cases callerMs
    case none    => exact .inr le_rfl
    case some ms =>
      rcases min_choice (fromMillis ms) (Config.fromEnv env).execTimeout with hm | hm
      · exact .inl ⟨ms, rfl, hm.ge⟩
      · exact .inr <| (fromMillis_saturatingMillis_le _).trans hm.ge
  notLonger  := by
    rw [h]
    cases callerMs
    case none    => exact ⟨by simp, fromMillis_saturatingMillis_le _⟩
    case some ms =>
      refine ⟨?_, min_le_right ..⟩
      rintro _ ⟨⟩
      exact min_le_left ..
  mono       := by
    intro env' hd
    exact (effectiveTimeout_le _ _).trans <| (intendedTimeout_mono hd).trans h.ge

-- A number of whole seconds is converted correctly exactly if 64 bits suffice. Too large a number has another
-- remainder than the largest one, because it is even.
theorem millis_eq_iff : n * 1000 % UInt64.size = min (n * 1000) (UInt64.size - 1) ↔ n * 1000 < UInt64.size := by
  simp only [UInt64.size]
  omega

theorem min_millis_eq_iff (hm : m < UInt64.size) :
    min m (n * 1000 % UInt64.size) = min m (n * 1000) ↔ n * 1000 < UInt64.size ∨ m ≤ n * 1000 % UInt64.size := by
  simp only [UInt64.size] at hm ⊢
  omega

theorem exact_iff (ht : terminal.execTimeout = .fromSecs n) (hc : ∀ ms ∈ callerMs, ms < UInt64.size) :
    terminal.effectiveTimeout callerMs = intendedTimeout terminal.execTimeout callerMs ↔
      n * 1000 < UInt64.size ∨ ∃ ms ∈ callerMs, ms ≤ n * 1000 % UInt64.size := by
  simp only [effectiveTimeout, ht, asMillis_fromSecs]
  cases callerMs
  case none    => simpa [intendedTimeout, saturatingMillis, asMillis_fromSecs, fromMillis_inj] using millis_eq_iff
  case some ms =>
    simpa [intendedTimeout, fromSecs_eq_fromMillis, fromMillis_min, fromMillis_inj] using min_millis_eq_iff (hc ms rfl)

theorem caps_iff (hv : env "ZYRISD_EXEC_TIMEOUT_SECS" = some v) (hn : Text.parseU64 v.toList = some n)
    (hc : ∀ ms ∈ callerMs, ms < UInt64.size) :
    Caps gate env callerMs ↔ n * 1000 < UInt64.size ∨ ∃ ms ∈ callerMs, ms ≤ n * 1000 % UInt64.size := by
  have ht : (ofEnv gate env).execTimeout = .fromSecs n := Config.envDurationSecs_of_parse _ hv hn
  rw [← exact_iff ht hc]
  exact ⟨Caps.exact, Caps.of_exact⟩

-- With so many seconds, 384 milliseconds are left of the limit.
theorem not_caps :
    ¬∀ (gate : PathGate) (env : Config.Env) v n (callerMs : Option Nat),
      env "ZYRISD_EXEC_TIMEOUT_SECS" = some v → Text.parseU64 v.toList = some n →
      (∀ ms ∈ callerMs, ms < UInt64.size) → Caps gate env callerMs := by
  intro h
  have caps := h ⟨[], []⟩ (.only "ZYRISD_EXEC_TIMEOUT_SECS" "18446744073709552") "18446744073709552"
    18446744073709552 none rfl (by decide) (by simp)
  exact absurd caps.exact (by decide)

theorem caps_iff_two_minutes :
    Caps ⟨[], []⟩ (.only "ZYRISD_EXEC_TIMEOUT_SECS" "120") (some 5000) ↔
      120 * 1000 < UInt64.size ∨ ∃ ms ∈ some 5000, ms ≤ 120 * 1000 % UInt64.size := by
  refine caps_iff (v := "120") (n := 120) rfl (by decide) ?_
  rintro _ ⟨⟩
  decide

end GatedTerminal
