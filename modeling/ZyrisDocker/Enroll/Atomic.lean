import ZyrisDocker.Enroll.Shared
import ZyrisDocker.Enroll.Solo

-- What a credential file is for: a device grant over a store whose operations are atomic, fail without an
-- effect, and outlive the process.
namespace Atomic

inductive Event
  | grant (e : DeviceGrant.Event)
  | kill

variable (grant : DeviceGrant)

def start (store : Stored) : Shared.State where
  store    := store
  grant    := DeviceGrant.init
  returned := none

-- A load answers what is stored, or it fails.
def answers (stored : Stored) : DeviceGrant.Event → Bool
  | .loaded (.error (.unusable _)) => true
  | e                              => stored.answers e

def step (s : Shared.State) : Event → Option Shared.State
  | .kill    => some <| start s.store
  | .grant e => if answers s.store e then Shared.turn grant s e else none

-- What is seen of a node from outside: the calls it gets, the answers of the enrollment layer, the end of the
-- process, and what its calls return.
inductive Seen
  | event (e : DeviceGrant.Event)
  | killed
  | answer (a : DeviceGrant.Answer)

def returns (returned : Option DeviceGrant.Answer) : List Seen :=
  returned.toList.map .answer

def sees (_ : Shared.State) (e : Event) (s' : Shared.State) : List Seen :=
  match e with
  | .kill    => [.killed]
  | .grant e => if Solo.isStored e then returns s'.returned else .event e :: returns s'.returned

end Atomic

-- What a disk is as a store.
def Disk.stored (process : Process) (codec : Codec) (store : FileCredentialStore) (disk : Disk) : Stored :=
  match disk.load process codec store with
  | .ok none     => .empty
  | .ok (some c) => .credential c
  | .error e     => .broken e.text (.ofStoreError e)

-- What stays at the path of the credential file when it is to be removed is not missing.
def Disk.Stays (disk : Disk) : Prop :=
  ∀ folder ∈ disk, ∀ x ∈ folder.foreign, ∀ e ∈ x.stays, e.kind ≠ .notFound

-- A disk on which a node finds its credential again.
structure Disk.Usable (process : Process) (disk : Disk) : Prop where
  stays      : disk.Stays
  accessible : disk.Accessible process

namespace Solo

def sees (_ : State) (e : Event) (s' : State) : List Atomic.Seen :=
  match e with
  | .kill    => [.killed]
  | .grant e => .event e :: Atomic.returns s'.returned
  | .io ..   => Atomic.returns s'.returned

-- The node over the file, as a node over the store that the file implements.
def atomic (process : Process) (codec : Codec) (store : FileCredentialStore) (s : State) : Shared.State where
  store    := s.disk.stored process codec store
  grant    := s.grant
  returned := s.returned

end Solo
