import ZyrisDocker.Enroll.Basic
import ZyrisDocker.Runtime.Store.Disk

-- A device grant over a credential file which nobody else writes.
namespace Solo

open FileCredentialStore

structure State where
  disk     : Disk
  grant    : DeviceGrant.State
  -- The `load` or `save` which the grant awaits.
  call     : Option Suspension
  -- What a call of the grant returned in the latest step.
  returned : Option DeviceGrant.Answer

-- Calls of the grant and answers of the enrollment layer, steps on the file system, and the end of
-- the process with its restart.
inductive Event
  | grant (e : DeviceGrant.Event)
  | io (short : Nat) (fault : Option IoError)
  | kill

variable (process : Process) (codec : Codec) (store : FileCredentialStore) (grant : DeviceGrant)

def start (disk : Disk) : State where
  disk     := disk
  grant    := DeviceGrant.init
  call     := none
  returned := none

-- The answers that come from the store.
def isStored : DeviceGrant.Event → Bool
  | .loaded _ | .cleared _ | .saved _ => true
  | _                                 => false

def convert : Except StoreError α → Except CredentialStoreError α :=
  Except.mapError .ofStoreError

-- What the grant awaits next.
def request : DeviceGrant.Suspension → Option Suspension
  | .load _          => load
  | .save credential => save codec store credential
  | _                => none

def enter (disk : Disk) : DeviceGrant.State × Option DeviceGrant.Answer → State
  | (grant, returned) => { disk, grant, call := request codec store grant.at, returned }

-- Goes on with a `load` or `save`, and with the grant if that is through.
def resume (s : State) (disk : Disk) : Suspension → Option State
  | .loaded r => (DeviceGrant.step grant s.grant (.loaded (convert r))).map (enter codec store disk)
  | .saved r  => (DeviceGrant.step grant s.grant (.saved (convert r))).map (enter codec store disk)
  | p         => some { s with disk, call := p, returned := none }

def io (s : State) (short : Nat) (fault : Option IoError) (p : Suspension) : Option State :=
  let (disk, answer) := s.disk.perform process store short fault p
  (FileCredentialStore.resume codec store p answer).bind (resume codec store grant s disk)

-- A `clear` is a single step.
def remove (s : State) (fault : Option IoError) : Option State :=
  let (disk, r) := s.disk.remove process store fault
  (DeviceGrant.step grant s.grant (.cleared (convert (clear r)))).map (enter codec store disk)

def step (s : State) : Event → Option State
  | .kill    => some <| start s.disk
  | .grant e => if isStored e then none else (DeviceGrant.step grant s.grant e).map (enter codec store s.disk)
  | .io short fault =>
    match s.call, s.grant.at with
    | some p, _                      => io process codec store grant s short fault p
    | none,   .discard .. | none, .clear _ => remove process codec store grant s fault
    | none,   _                      => none

-- The steps of a load.
def isLoad : Suspension → Bool
  | .read | .metadata _ => true
  | _                   => false

-- No step of a load fails, unless the file or its directory is in its way.
def Reliable (s : State) : Event → Prop
  | .io _ (some _) => ∀ p ∈ s.call, ¬isLoad p
  | _              => True

-- No file is found missing that is there, when it is read or removed.
def Present (s : State) : Event → Prop
  | .io _ (some e) => s.call = none ∨ s.call = some .read → e.kind ≠ .notFound
  | _              => True

end Solo
