import ZyrisDocker.Lib.Path
import ZyrisDocker.Runtime.Credentials

structure Named where
  id   : String
  name : String
  slug : String
  deriving DecidableEq

structure Credential where
  version    : Nat
  secret     : String
  system     : Named
  program    : Named
  scopes     : List String
  ownerEmail : String
  deriving DecidableEq

def credentialVersion : Nat := 2

-- Whether the credential must not be used, or cannot be used and may be thrown away.
inductive CredentialStoreError
  | refused (message : String)
  | unusable (message : String)
  deriving DecidableEq

namespace CredentialStoreError

def message : CredentialStoreError → String
  | refused m | unusable m => m

def isDiscardable : CredentialStoreError → Bool
  | unusable _ => true
  | refused _  => false

end CredentialStoreError

-- A store failure that reached the caller needs a person.
def storeTrouble (error : CredentialStoreError) : CredentialsError :=
  .needsOperator error.message

inductive IoErrorKind
  | notFound
  | interrupted
  | writeZero
  | other
  deriving DecidableEq

structure IoError where
  kind : IoErrorKind
  text : String
  deriving DecidableEq

inductive StoreError
  | permissive (path : String) (mode : Nat)
  | unknownVersion (found : Nat)
  | corrupt (error : String)
  | io (error : IoError)
  deriving DecidableEq

namespace StoreError

def octal (mode : Nat) : String :=
  .ofList <| List.leftpad 4 '0' (Nat.toDigits 8 mode)

-- Says the fix, not just the fault.
def text : StoreError → String
  | permissive path mode =>
    s!"credential file {path} is readable by other users (mode {octal mode}); run: chmod 600 {path}"
  | unknownVersion found =>
    s!"credential file was written by a newer version ({found}, expected {credentialVersion})"
  | corrupt error => s!"credential file is corrupt: {error}"
  | io error      => error.text

end StoreError

-- An exposed secret is not a reason to quietly enroll again, a file this build cannot read is.
def CredentialStoreError.ofStoreError : StoreError → CredentialStoreError
  | .permissive path mode => refused (StoreError.permissive path mode).text
  | error                 => unusable error.text

-- `prevDash` is whether the last character was replaced by a dash, or skipped after one.
def slugifyLoop (out : List Char) (prevDash : Bool) : List Char → List Char
  | []         => out
  | ch :: rest =>
    let (out, prevDash) :=
      if ch.isAlphanum then (out ++ [ch.toLower], false)
      else if !prevDash && out ≠ [] then (out ++ ['-'], true)
      else (out, prevDash)
    if out.length ≥ 48 then out else slugifyLoop out prevDash rest

-- Reduce a URL or profile name to something safe as a filename component.
def slugify (input : String) : String :=
  match slugifyLoop [] false input.toList |>.dropWhile (· = '-') |>.reverse |>.dropWhile (· = '-') |>.reverse with
  | []      => "default"
  | trimmed => .ofList trimmed

def fileName (serverUrl profile : String) : String :=
  s!"{slugify serverUrl}-{slugify profile}.json"

structure FileCredentialStore where
  path : PathBuf Text.Bytes

namespace FileCredentialStore

def ofServer (credentialDir : PathBuf Text.Bytes) (serverUrl profile : String) : FileCredentialStore where
  path := credentialDir ++ [.name (Text.utf8 (fileName serverUrl profile).toList)]

-- The file that a save writes before it renames it.
def temp (store : FileCredentialStore) : PathBuf Text.Bytes :=
  store.path.withExtension "tmp"

end FileCredentialStore
