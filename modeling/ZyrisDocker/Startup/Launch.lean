import Mathlib.Logic.Function.Basic
import ZyrisDocker.Enroll.Basic
import ZyrisDocker.Lib.Csv
import ZyrisDocker.Runtime.Runner
import ZyrisDocker.Startup.Basic

open Text

-- The variables of the process, and the bytes that they are set to.
abbrev OsEnv := String → Option Bytes

namespace OsEnv

-- A variable as text.
def var (env : OsEnv) (key : String) : Option String :=
  (env key).bind fromUtf8 |>.map String.ofList

def setVar (env : OsEnv) (key value : String) : OsEnv :=
  Function.update env key (utf8 value.toList)

end OsEnv

-- What the library and the platform tell a node of its surroundings.
structure Machine where
  serverUrl : String
  name      : Option String
  os        : String

namespace RunConfig

def default (machine : Machine) : RunConfig where
  url          := machine.serverUrl
  nodeName     := machine.name.getD "zyris-node"
  profile      := "default"
  scopes       := []
  scopesPinned := false
  backoffMin   := .fromSecs 1
  backoffMax   := .fromSecs 30
  stableAfter  := .fromSecs 30

def envOr (env : OsEnv) (key fallback : String) : String :=
  (env.var key).filter (trim · ≠ "") |>.getD fallback

def fromEnv (machine : Machine) (env : OsEnv) : RunConfig :=
  let default := RunConfig.default machine
  let scopes := (env.var "ZYRIS_SCOPES").map csv
  { default with
    url          := envOr env "ZYRIS_SERVER_URL" default.url
    nodeName     := envOr env "ZYRIS_NODE_NAME" default.nodeName
    profile      := envOr env "ZYRIS_PROFILE" default.profile
    scopesPinned := scopes.isSome
    scopes       := scopes.getD default.scopes }

def platform (machine : Machine) : String :=
  if machine.os ∈ ["linux", "macos", "windows"] then machine.os else "other"

end RunConfig

def TokenFile.fromEnv (env : OsEnv) : Option TokenFile :=
  (env "ZYRIS_CREDENTIAL_FILE").filter (· ≠ []) |>.map fun path => { path := .parse path }

-- A credential which an operator gave.
inductive Mounted
  | token (token : StaticToken)
  | file (file : TokenFile)

inductive Source
  | mounted (mounted : Mounted)
  | grant (store : FileCredentialStore) (url : String) (request : EnrollRequest)

namespace Enroll

def program : String := "zyris-docker"

-- The variable an earlier image read, if one is still set.
def leftover (isSet : String → Bool) : Option String :=
  ["ZYRIS_NODE_TOKEN", "ZYRIS_NODE_TOKEN_FILE"].find? isSet

-- What an operator gives wins, and the source that has to ask a person comes last.
def source (machine : Machine) (env : OsEnv) (config : RunConfig) : Except CredentialsError Source := do
  if let some token ← StaticToken.fromEnv (env "ZYRIS_CREDENTIAL") then return .mounted (.token token)
  if let some file := TokenFile.fromEnv env then return .mounted (.file file)
  if let some name := leftover fun name => (env name).any (· ≠ []) then
    throw <| .needsOperator <| s!"{name} is no longer read: node tokens are gone. Remove it and either let this node " ++
      "enroll itself (approve the printed code at /settings/zyris → Enter a code in Attacca) " ++
      "or pass an existing credential as ZYRIS_CREDENTIAL_FILE or ZYRIS_CREDENTIAL"
  return .grant (.ofServer (credentialDir (env "ZYRIS_CONFIG_DIR")) config.url config.profile) config.url {
    program
    systemHint := machine.name.getD ""
    platform   := RunConfig.platform machine
    scopes     := config.scopes
  }

end Enroll

namespace Main

-- What this node asks to be granted.
def scopes : List String :=
  ["agents:read", "sessions:write", "sessions:read", "projects:read", "jobs:write"]

def settleScopes (env : OsEnv) : OsEnv :=
  if (env "ZYRIS_SCOPES").isNone then env.setVar "ZYRIS_SCOPES" (",".intercalate scopes) else env

-- The part of `main` that decides what credential to present. An error ends the process with its exit code.
def launch (machine : Machine) (env : OsEnv) : Except RunError (RunConfig × Source) :=
  let env := settleScopes env
  let config := RunConfig.fromEnv machine env
  match Enroll.source machine env config with
  | .ok source => .ok (config, source)
  | .error e   => .error (.credentials e)

end Main

-- The dial loop over a credential that an operator gave.
namespace Mounted

-- The answer of a bearer, given what a read of the file returns.
def bearer (read : Except String (Except ReadError Bytes)) : Mounted → Except CredentialsError String
  | .token t => t.bearer
  | .file f  => f.bearer read

inductive Event
  | loop (e : Runner.Event)
  | bearer (read : Except String (Except ReadError Bytes))
  | forgetRefused

-- What the loop is resumed with. What an operator mounted is not this node's to forget.
def answer (mounted : Mounted) : Event → Option Runner.Event
  | .loop (.bearer _) => none
  | .loop (.forget _) => none
  | .loop e           => e
  | .bearer read      => some <| .bearer <| mounted.bearer read
  | .forgetRefused    => some <| .forget <| .ok false

def step (mounted : Mounted) (runner : Runner) (s : Runner.State) (e : Event) : Option Runner.State :=
  (mounted.answer e).bind (Runner.step runner s)

end Mounted
