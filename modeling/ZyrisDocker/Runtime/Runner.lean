import ZyrisDocker.Lib.Run
import ZyrisDocker.Config
import ZyrisDocker.Connection
import ZyrisDocker.Runtime.Credentials

structure RunConfig where
  url          : String
  nodeName     : String
  profile      : String
  scopes       : List String
  scopesPinned : Bool
  backoffMin   : Duration
  backoffMax   : Duration
  stableAfter  : Duration

inductive ConnectError
  | unauthorized
  | revoked
  | versionMismatch (ours : String) (theirs : Option String)
  | noTlsProvider
  | unreachable (error : String)
  deriving DecidableEq

-- The source keeps only the text of the error that made the server refuse the node.
inductive RunError
  | credentials (error : CredentialsError)
  | build (error : String)
  | refused (error : ConnectError)
  deriving DecidableEq

-- Exit 2 when a human has to do something, 1 otherwise.
def RunError.exitCode : RunError → Nat
  | credentials (.needsOperator _) | build _ => 2
  | _                                        => 1

-- What a refused dial means to the loop.
inductive Refusal
  | reenroll
  | fatal
  | backoff
  deriving DecidableEq

def Refusal.of : ConnectError → Refusal
  | .unauthorized | .revoked             => reenroll
  | .versionMismatch .. | .noTlsProvider => fatal
  | .unreachable _                       => backoff

structure Runner where
  config : RunConfig
  -- Whether there is an `on_connect` hook.
  hooked : Bool
  -- Whether the log lines at the level `info` are written (and their fields evaluated).
  info   : Bool

namespace Runner

-- Where the dial loop is suspended, or how it ended.
inductive Suspension
  | bearer
  | dial (bearer : String)
  | closed (conn : Connection)
  | forget (error : ConnectError)
  | sleep
  | returned (error : RunError)
  | panicked
  deriving DecidableEq

structure State where
  backoff    : Duration
  -- Whether a refusal has already been answered with a re-enrollment.
  reenrolled : Bool
  -- The connection parked where the shutdown branch can reach it.
  live       : Option Connection
  -- The connections whose hook was spawned, the latest one first.
  hooks      : List Connection
  «at»       : Suspension
  deriving DecidableEq

-- The connection of the n-th successful dial.
def State.dialed (s : State) (n : Nat) : Option Connection :=
  s.hooks.reverse[n]?

-- What the loop is resumed with: the answers to the calls it awaits, the lifetime of a connection
-- that closed, and the hash that a wait was jittered with.
inductive Event
  | bearer (r : Except CredentialsError String)
  | dial (r : Except ConnectError Connection)
  | closed (lifetime : Duration)
  | forget (r : Except CredentialsError Bool)
  | slept (hash : Nat)

variable (runner : Runner)

def init : State where
  backoff    := runner.config.backoffMin
  reenrolled := false
  live       := none
  hooks      := []
  «at»       := .bearer

-- ±20%, in exact arithmetic.
def jitter (base : Duration) (hash : Nat) : Rat :=
  base * (800 + hash % 400 : Nat) / 1000

-- The second half of `wait_then_widen`. The first half is to sleep for `jitter s.backoff hash`.
def widen (backoff : Duration) : Duration :=
  min (backoff * 2) runner.config.backoffMax

-- The log line before a dial shows the prefix of the token.
def connecting (s : State) (bearer : String) : State :=
  if runner.info ∧ Credentials.tokenPrefix bearer = none
  then { s with «at» := .panicked }
  else { s with «at» := .dial bearer }

def connected (s : State) (conn : Connection) : State :=
  { s with
    reenrolled := false
    hooks      := if runner.hooked then conn :: s.hooks else s.hooks
    live       := conn
    «at»       := .closed conn }

def disconnected (s : State) (lifetime : Duration) : State :=
  { s with
    live    := none
    backoff := if runner.config.stableAfter ≤ lifetime then runner.config.backoffMin else s.backoff
    «at»    := .sleep }

def refused (s : State) (error : ConnectError) : State :=
  match Refusal.of error with
  | .reenroll =>
    if s.reenrolled
    then { s with «at» := .returned (.refused error) }
    else { s with reenrolled := true, «at» := .forget error }
  | .fatal   => { s with «at» := .returned (.refused error) }
  | .backoff => { s with «at» := .sleep }

def forgotten (s : State) (error : ConnectError) : Except CredentialsError Bool → State
  | .ok true                    => { s with «at» := .bearer }
  | .ok false                   => { s with «at» := .returned (.refused error) }
  -- Nothing was forgotten, so the one attempt is not spent.
  | .error (.unavailable _)     => { s with reenrolled := false, «at» := .sleep }
  | .error e                    => { s with «at» := .returned (.credentials e) }

-- The dial loop from one suspension to the next. Events other than the awaited one do not occur.
def step (s : State) (e : Event) : Option State :=
  match s.at, e with
  | .bearer,       .bearer (.ok bearer)              => connecting runner s bearer
  | .bearer,       .bearer (.error (.unavailable _)) => some { s with «at» := .sleep }
  | .bearer,       .bearer (.error e)                => some { s with «at» := .returned (.credentials e) }
  | .dial _,       .dial (.ok conn)                  => connected runner s conn
  | .dial _,       .dial (.error error)              => refused s error
  | .closed _,     .closed lifetime                  => disconnected runner s lifetime
  | .forget error, .forget r                         => forgotten s error r
  | .sleep,        .slept _                          => some { s with backoff := widen runner s.backoff, «at» := .bearer }
  | _,             _                                 => none

end Runner
