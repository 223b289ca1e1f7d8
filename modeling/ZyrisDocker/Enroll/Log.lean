import ZyrisDocker.Enroll.Dial
import ZyrisDocker.Lib.Simulation

open Transition

-- A line in the log of a node, with the fields it shows.
inductive LogLine
  | starting (config : RunConfig) (credentials : String)
  | sourceUnavailable (error : CredentialsError)
  | connecting (token : String)
  | connectedTo (conn : Connection)
  | disconnected
  | refused (error : ConnectError)
  | notForgotten (error : CredentialsError)
  | connectFailed (error : ConnectError)
  | reconnecting (seconds : Rat)
  | stopped (error : RunError)
  | discarding (error : CredentialStoreError)
  | forgetting
  | enroll (line : LogEnroll)

-- Lines at the level `info`. A code is printed, and all others are at the level `warn` or `error`.
def LogLine.isInfo : LogLine → Bool
  | starting .. | connecting _ | connectedTo _ | reconnecting _ | enroll .authorized => true
  | _                                                                               => false

namespace Runner

-- What the dial loop writes in one of its steps. The line about a wait is written when it begins.
def prints (s : State) : Event → List LogLine
  | .bearer (.ok bearer)              => (Credentials.tokenPrefix bearer).toList.map .connecting
  | .bearer (.error (.unavailable m)) => [.sourceUnavailable (.unavailable m)]
  | .dial (.ok conn)                  => [.connectedTo conn]
  | .dial (.error error)              =>
    match Refusal.of error with
    | .reenroll => if s.reenrolled then [] else [.refused error]
    | .fatal    => []
    | .backoff  => [.connectFailed error]
  | .closed _                         => [.disconnected]
  | .forget (.error (.unavailable m)) => [.notForgotten (.unavailable m)]
  | .slept hash                       => [.reconnecting (jitter s.backoff hash)]
  | _                                 => []

-- What `run` writes about the end of the loop.
def stops : Suspension → List LogLine
  | .returned error => [.stopped error]
  | _               => []

def printsTo (s : State) (e : Event) (s' : State) : List LogLine :=
  prints s e ++ stops s'.at

end Runner

namespace DeviceGrant

-- The lines of an enrollment that a step adds to those before.
def enrollLines (s s' : State) : List LogLine :=
  s'.log.take (s'.log.length - s.log.length) |>.map .enroll

def prints (s : State) (e : Event) (s' : State) : List LogLine :=
  match s.at, e, s'.at with
  | .load _, .loaded (.error error), .discard .. => [.discarding error]
  | _,       _,                      .clear _    => [.forgetting]
  | _,       _,                      _           => enrollLines s s'

end DeviceGrant

namespace Node

variable (node : Node)

def prints (s : State) (e : Event) (s' : State) : List LogLine :=
  match e with
  | .loop e  => Runner.printsTo s.runner e s'.runner
  | .grant e =>
    DeviceGrant.prints s.grant e s'.grant ++
    match DeviceGrant.step node.grant s.grant e with
    | some (_, some a) => Runner.printsTo s.runner (answered a) s'.runner
    | _                => []

-- The log of a node which is driven by a list of events. `credentials` says where its file is.
def log (credentials : String) (es : List Event) : List LogLine :=
  .starting node.runner.config credentials :: observe (step node) node.prints (init node) es
    |>.filter fun line => node.runner.info || !line.isInfo

end Node

-- The secrets of credentials are replaced by others that have the same leading part, and different ones
-- by different ones.
structure Renaming where
  rename    : String → String
  injective : Function.Injective rename
  shown     : ∀ secret, Credentials.tokenPrefix (rename secret) = Credentials.tokenPrefix secret

variable (ρ : Renaming)

def Credential.rename (c : Credential) : Credential :=
  { c with secret := ρ.rename c.secret }

def Progress.rename : Progress → Progress
  | granted credential => granted (credential.rename ρ)
  | p                  => p

namespace DeviceGrant

def Call.rename : Call → Call
  | bearer                => bearer
  | forgetRefused refused => forgetRefused (refused.map (·.rename ρ))

def Suspension.rename : Suspension → Suspension
  | load call          => load (call.rename ρ)
  | discard call error => discard (call.rename ρ) error
  | save credential    => save (credential.rename ρ)
  | clear refused      => clear (refused.map (·.rename ρ))
  | p                  => p

def State.rename (s : State) : State :=
  { s with held := s.held.map (·.rename ρ), «at» := s.at.rename ρ }

def Event.rename : Event → Event
  | loaded r => loaded (r.map (·.map (·.rename ρ)))
  | polled r => polled (r.map (·.rename ρ))
  | e        => e

def Answer.rename : Answer → Answer
  | bearer r        => bearer (r.map ρ.rename)
  | forgetRefused r => forgetRefused r

end DeviceGrant

namespace Runner

def Suspension.rename : Suspension → Suspension
  | dial secret => dial (ρ.rename secret)
  | p           => p

def State.rename (s : State) : State :=
  { s with «at» := s.at.rename ρ }

def Event.rename : Event → Event
  | bearer r => bearer (r.map ρ.rename)
  | e        => e

end Runner

namespace Node

def State.rename (s : State) : State where
  runner := s.runner.rename ρ
  grant  := s.grant.rename ρ

def Event.rename : Event → Event
  | loop e  => loop (e.rename ρ)
  | grant e => grant (e.rename ρ)

end Node
