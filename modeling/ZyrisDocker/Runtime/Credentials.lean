import ZyrisDocker.Lib.Path

open Text

-- Why a bearer could not be produced: a person has to act, retrying will not help, or the source of
-- the credential could not be reached.
inductive CredentialsError
  | needsOperator (message : String)
  | fatal (message : String)
  | unavailable (message : String)
  deriving DecidableEq

namespace Credentials

def credentialPrefix : String := "zc_"

def tokenDisplayPrefix : Nat := 12

-- The characters that make up exactly the first `n` bytes, if there is a character boundary.
def takeBytes : Nat → List Char → Option (List Char)
  | 0, _       => some []
  | _, []      => none
  | n, c :: cs => if c.utf8Size ≤ n then (takeBytes (n - c.utf8Size) cs).map (c :: ·) else none

-- The leading, non-secret part of a credential. Slicing a text between two character boundaries
-- panics, which is the `none` here.
def tokenPrefix (token : String) : Option String :=
  takeBytes (min (Text.utf8 token.toList).length tokenDisplayPrefix) token.toList |>.map String.ofList

-- Rejects anything that is not a credential, by prefix.
def validateCredential (secret source : String) : Except CredentialsError String :=
  let secret := trim secret
  if secret = "" then .error <| .needsOperator s!"{source} is empty"
  else if !credentialPrefix.toList.isPrefixOf secret.toList then
    .error <| .fatal <| s!"{source} does not look like a credential (expected a `zc_` prefix). API keys " ++
      "(`atk_`) and node tokens (`znt_`) will not work here; issue a credential under " ++
      "Settings → Zyris in Attacca."
  else .ok secret

end Credentials

open Credentials

structure StaticToken where
  token  : String
  source : String

namespace StaticToken

-- Reads `$ZYRIS_CREDENTIAL`. A value that is blank, or not text, counts as unset.
def fromEnv (value : Option Bytes) : Except CredentialsError (Option StaticToken) :=
  match value.bind fromUtf8 |>.map String.ofList |>.filter (trim · ≠ "") with
  | none     => .ok none
  | some raw =>
    validateCredential raw "ZYRIS_CREDENTIAL" |>.map fun token => some { token, source := "$ZYRIS_CREDENTIAL" }

def bearer (token : StaticToken) : Except CredentialsError String :=
  .ok token.token

def describe (token : StaticToken) : Option String :=
  tokenPrefix token.token |>.map fun shown => s!"{token.source} ({shown}…)"

end StaticToken

-- Why a file could not be read.
inductive ReadError
  | notFound
  | permissionDenied (text : String)
  | other (text : String)

-- A read of the whole file, as text.
def readToString (read : Except ReadError Bytes) : Except ReadError String :=
  read.bind fun bytes =>
    match fromUtf8 bytes with
    | some text => .ok (.ofList text)
    | none      => .error <| .other "stream did not contain valid UTF-8"

structure TokenFile where
  path : PathBuf Bytes

namespace TokenFile

variable (file : TokenFile)

-- The credential, given what a read of the file returns. The outer error is that of the task which
-- reads it.
def bearer (task : Except String (Except ReadError Bytes)) : Except CredentialsError String :=
  match task.map readToString with
  | .error e                        => .error <| .unavailable e
  | .ok (.ok contents)              => validateCredential contents s!"the credential in {file.path.display}"
  | .ok (.error .notFound)          => .error <| .unavailable s!"{file.path.display} does not exist yet"
  | .ok (.error (.permissionDenied e)) => .error <| .needsOperator s!"cannot read {file.path.display}: {e}"
  | .ok (.error (.other e))         => .error <| .unavailable s!"cannot read {file.path.display}: {e}"

def describe : String :=
  file.path.display

end TokenFile
