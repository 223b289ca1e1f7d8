import ZyrisDocker.Heal.Basic
import ZyrisDocker.Lib.Mutex

-- What the watcher uses of the runtime it is spawned in: timers, and the spawning of tasks. An operation that
-- panics has no result.
structure Tokio (ι : Type) where
  interval : Duration → Option ι
  tick     : ι → Option ι
  spawn    : Option Unit

-- No timer has the period zero. Inside of the runtime, nothing else panics.
structure Tokio.Documented (tokio : Tokio ι) : Prop where
  interval : (tokio.interval period).isSome ↔ period ≠ 0
  tick     : (tokio.tick timer).isSome
  spawn    : tokio.spawn.isSome

-- The task that runs the watcher. Nothing waits for it, so nobody gets to know that it panicked.
namespace Watcher

inductive Phase (ι : Type)
  | spawned
  -- The immediate first tick is skipped.
  | settling (timer : ι)
  | looping (timer : ι)
  | panicked

structure State (ι : Type) where
  phase    : Phase ι := .spawned
  healer   : SelfHealer.State := {}
  poisoned : Bool := false

inductive Event
  | start
  | settle
  | healer (e : SelfHealer.Event)

section Slot

abbrev Slot := Mutex (Option Connection)

def Slot.put (slot : Slot) (conn : Connection) : Slot × Option Unit :=
  slot.access fun _ => some (some conn, ())

def Slot.get (slot : Slot) : Slot × Option (Option Connection) :=
  slot.access fun conn => some (conn, conn)

end Slot

variable (tokio : Tokio ι) (cfg : Config)

namespace State

variable (s : State ι)

def slot : Slot where
  value    := s.healer.slot
  poisoned := s.poisoned

-- An incident that was not reported before is reported over the connection in the slot.
def report : Slot × Option Unit :=
  match s.slot.get with
  | (slot, some (some _)) => (slot, tokio.spawn)
  | (slot, some none)     => (slot, some ())
  | (slot, none)          => (slot, none)

-- Beside its bookkeeping, this is all that a round of the loop does.
def round : Slot × Option Unit :=
  match s.healer.pending with
  | []            => (s.slot, some ())
  | incident :: _ => if incident.key ∈ s.healer.reported then (s.slot, some ()) else s.report tokio

end State

-- `SelfHealer::run` as a task, interleaved with what happens around it.
def step (s : State ι) : Event → Option (State ι)
  | .start =>
    match s.phase with
    | .spawned => some { s with phase := (tokio.interval cfg.monitorInterval).elim .panicked .settling }
    | _        => none
  | .settle =>
    match s.phase with
    | .settling timer => some { s with phase := (tokio.tick timer).elim .panicked .looping }
    | _               => none
  | .healer (.tick probe) =>
    match s.phase with
    | .looping timer => (SelfHealer.step cfg s.healer (.tick probe)).map fun healer =>
      match tokio.tick timer with
      | some timer => { s with phase := .looping timer, healer }
      | none       => { s with phase := .panicked }
    | _ => none
  | .healer .next =>
    match s.phase with
    | .looping _ => (SelfHealer.step cfg s.healer .next).map fun healer =>
      match s.round tokio with
      | (slot, some _) => { s with healer, poisoned := slot.poisoned }
      | (slot, none)   => { s with phase := .panicked, poisoned := slot.poisoned }
    | _ => none
  | .healer (.put conn) =>
    let (slot, _) := s.slot.put conn
    some { s with healer := { s.healer with slot := slot.value }, poisoned := slot.poisoned }
  | .healer (.close conn) => (SelfHealer.step cfg s.healer (.close conn)).map ({ s with healer := · })
  | .healer (.reply i r)  => (SelfHealer.step cfg s.healer (.reply i r)).map ({ s with healer := · })

end Watcher
