import Mathlib.Logic.Function.Basic
import ZyrisDocker.Enroll.Basic

-- What a credential store holds: nothing, a credential, or something else that a load answers with
-- an error.
inductive Stored
  | empty
  | credential (credential : Credential)
  | broken (text : String) (error : CredentialStoreError)
  deriving DecidableEq

namespace Stored

def load : Stored → Except CredentialStoreError (Option Credential)
  | empty        => .ok none
  | credential c => .ok c
  | broken _ e   => .error e

-- A load answers what is stored.
def answers (stored : Stored) : DeviceGrant.Event → Bool
  | .loaded r => r = stored.load
  | _         => true

-- The effect of an operation of a node on the store. One that fails has none.
def after (stored : Stored) : DeviceGrant.Suspension → DeviceGrant.Event → Stored
  | _,       .cleared (.ok ()) => empty
  | .save c, .saved (.ok ())   => credential c
  | _,       _                 => stored

end Stored

-- The nodes `ι` over one credential store.
namespace Siblings

structure State (ι : Type) where
  store    : Stored
  nodes    : ι → DeviceGrant.State
  -- What the latest load of a node found.
  seen     : ι → Stored
  -- The credentials that nodes were refused with.
  refusals : List Credential
  -- The credentials that nodes have saved.
  saved    : List Credential

structure Event (ι : Type) where
  node  : ι
  event : DeviceGrant.Event

def init (store : Stored) : State ι where
  store    := store
  nodes _  := DeviceGrant.init
  seen _   := .empty
  refusals := []
  saved    := []

-- A node calls `forgetRefused` when a dial with the credential it holds was refused.
def refused (node : DeviceGrant.State) : DeviceGrant.Event → List Credential
  | .forgetRefused => node.held.toList
  | _              => []

def saves : DeviceGrant.Suspension → DeviceGrant.Event → List Credential
  | .save credential, .saved (.ok ()) => [credential]
  | _,                _               => []

def sees (store seen : Stored) : DeviceGrant.Event → Stored
  | .loaded _ => store
  | _         => seen

variable [DecidableEq ι] (grant : ι → DeviceGrant)

-- One step of one node, in which an operation of the store is atomic.
def step (s : State ι) (e : Event ι) : Option (State ι) :=
  let node := s.nodes e.node
  if s.store.answers e.event then
    (DeviceGrant.step (grant e.node) node e.event).map fun (node', _) => {
      store    := s.store.after node.at e.event
      nodes    := Function.update s.nodes e.node node'
      seen     := Function.update s.seen e.node (sees s.store (s.seen e.node) e.event)
      refusals := refused node e.event ++ s.refusals
      saved    := saves node.at e.event ++ s.saved
    }
  else none

end Siblings
