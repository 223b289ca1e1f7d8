import ZyrisDocker.Lib.Run
import ZyrisDocker.Runtime.Store.Basic

structure EnrollRequest where
  program    : String
  systemHint : String
  platform   : String
  scopes     : List String
  deriving DecidableEq

structure Code where
  userCode        : String
  verificationUri : String
  expiresAt       : Nat
  deriving DecidableEq

inductive EnrollError
  | scopeUnknown (scope : String)
  | denied
  | lapsed
  | unreachable (error : String)
  deriving DecidableEq

inductive Progress
  | waiting
  | granted (credential : Credential)
  | lapsed
  | denied
  deriving DecidableEq

-- What the log shows of an enrollment.
inductive LogEnroll
  | show (code : Code)
  | lapsed
  | denied
  | authorized
  deriving DecidableEq

def maxRenewals : Nat := 3

structure DeviceGrant where
  url     : String
  request : EnrollRequest
  -- The texts which the enrollment layer gives to its errors.
  text    : EnrollError → String

namespace DeviceGrant

-- The call that is executing. `forgetRefused` has taken the credential that was held.
inductive Call
  | bearer
  | forgetRefused (refused : Option Credential)
  deriving DecidableEq

-- Where a call awaits the store or the enrollment layer.
inductive Suspension
  | idle
  | load (call : Call)
  | discard (call : Call) (error : CredentialStoreError)
  | enroll (url : String) (request : EnrollRequest)
  | poll (renewals : Nat)
  | renew (renewals : Nat)
  | save (credential : Credential)
  | clear (refused : Option Credential)
  deriving DecidableEq

structure State where
  held : Option Credential
  log  : List LogEnroll
  «at» : Suspension
  deriving DecidableEq

-- What a call returned.
inductive Answer
  | bearer (r : Except CredentialsError String)
  | forgetRefused (r : Except CredentialsError Bool)

inductive Event
  | bearer
  | forgetRefused
  | loaded (r : Except CredentialStoreError (Option Credential))
  | cleared (r : Except CredentialStoreError Unit)
  | saved (r : Except CredentialStoreError Unit)
  | enrolled (r : Except EnrollError Code)
  | polled (r : Except EnrollError Progress)
  | renewed (r : Except EnrollError Code)

variable (grant : DeviceGrant)

def init : State where
  held := none
  log  := []
  «at» := .idle

def State.suspend (s : State) (p : Suspension) : State × Option Answer :=
  ({ s with «at» := p }, none)

def State.answer (s : State) (a : Answer) : State × Option Answer :=
  ({ s with «at» := .idle }, a)

def State.print (s : State) (line : LogEnroll) : State :=
  { s with log := line :: s.log }

def Call.fail (error : CredentialsError) : Call → Answer
  | bearer          => .bearer (.error error)
  | forgetRefused _ => .forgetRefused (.error error)

def enrollmentTrouble : EnrollError → CredentialsError
  | .scopeUnknown scope    => .needsOperator s!"this server does not know the scope {scope}; it must be removed from the list this build asks for before enrollment can even show a code"
  | .denied                => .needsOperator (grant.text .denied)
  | .lapsed                => .unavailable (grant.text .lapsed)
  | .unreachable error     => .unavailable (grant.text (.unreachable error))

-- `credential`, once there is one.
def hold (s : State) (credential : Credential) : State × Option Answer :=
  { s with held := credential } |>.answer (.bearer (.ok credential.secret))

-- How the two callers of `stored` continue with its result. A refused credential is forgotten,
-- unless a sibling already replaced it.
def stored (s : State) : Call → Option Credential → State × Option Answer
  | .bearer, some credential             => hold s credential
  | .bearer, none                        => s.suspend (.enroll grant.url grant.request)
  | .forgetRefused refused, some stored  =>
    if refused.all (·.secret ≠ stored.secret)
    then { s with held := stored } |>.answer (.forgetRefused (.ok true))
    else s.suspend (.clear refused)
  | .forgetRefused refused, none         => s.suspend (.clear refused)

def poll (s : State) (renewals : Nat) : Progress → State × Option Answer
  | .waiting            => s.suspend (.poll renewals)
  | .granted credential => s.suspend (.save credential)
  | .lapsed             =>
    if renewals + 1 > maxRenewals
    then s.answer (.bearer (.error (.needsOperator s!"no one approved this node after {maxRenewals} codes; start it again when somebody is ready to authorize it")))
    else s.print .lapsed |>.suspend (.renew (renewals + 1))
  | .denied             =>
    s.print .denied |>.answer (.bearer (.error (.needsOperator "the request was declined in the browser")))

-- A call from one suspension to the next, with what it returned if that ended it.
def step (s : State) (e : Event) : Option (State × Option Answer) :=
  match s.at, e with
  | .idle,             .bearer             =>
    match s.held with
    | some credential => s.answer (.bearer (.ok credential.secret))
    | none            => s.suspend (.load .bearer)
  | .idle,             .forgetRefused      => { s with held := none } |>.suspend (.load (.forgetRefused s.held))
  | .load call,        .loaded (.ok c)     => stored grant s call c
  | .load call,        .loaded (.error e)  =>
    if e.isDiscardable
    then s.suspend (.discard call e)
    else s.answer (call.fail (storeTrouble e))
  | .discard call _,   .cleared (.ok ())   => stored grant s call none
  | .discard call _,   .cleared (.error e) => s.answer (call.fail (storeTrouble e))
  | .enroll ..,        .enrolled (.ok code)  => s.print (.show code) |>.suspend (.poll 0)
  | .enroll ..,        .enrolled (.error e)  => s.answer (.bearer (.error (enrollmentTrouble grant e)))
  | .poll renewals,    .polled (.ok progress) => poll s renewals progress
  | .poll _,           .polled (.error e)    => s.answer (.bearer (.error (enrollmentTrouble grant e)))
  | .renew renewals,   .renewed (.ok code)   => s.print (.show code) |>.suspend (.poll renewals)
  | .renew _,          .renewed (.error e)   => s.answer (.bearer (.error (enrollmentTrouble grant e)))
  | .save credential,  .saved (.ok ())       => hold (s.print .authorized) credential
  | .save _,           .saved (.error e)     => s.answer (.bearer (.error (storeTrouble e)))
  | .clear _,          .cleared (.ok ())     => s.answer (.forgetRefused (.ok true))
  | .clear _,          .cleared (.error e)   => s.answer (.forgetRefused (.error (storeTrouble e)))
  | _,                 _                     => none

end DeviceGrant
