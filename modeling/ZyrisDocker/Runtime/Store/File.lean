import ZyrisDocker.Lib.Directory
import ZyrisDocker.Runtime.Store.Basic

open Text

-- How credentials are written as JSON.
structure Codec where
  encode : Credential → Bytes
  decode : Bytes → Except String Credential

namespace FileCredentialStore

variable (codec : Codec) (store : FileCredentialStore)

-- The step on the file system that a call of `load` or `save` is about to make, or what the call
-- returned.
inductive Suspension
  | createDirAll (bytes : Bytes)
  | restrictDir (bytes : Bytes)
  | create (bytes : Bytes)
  | restrict (file : Nat) (bytes : Bytes)
  | write (file : Nat) (bytes : Bytes) (written : Nat)
  | sync (file : Nat)
  | rename
  | read
  | metadata (bytes : Bytes)
  | saved (r : Except StoreError Unit)
  | loaded (r : Except StoreError (Option Credential))

inductive Answer
  | done
  | opened (file : Nat)
  | wrote (n : Nat)
  | bytes (bytes : Bytes)
  | mode (mode : Nat)
  | failed (error : IoError)

def save (credential : Credential) : Suspension :=
  match store.path.parent with
  | some _ => .createDirAll (codec.encode credential)
  | none   => .create (codec.encode credential)

def load : Suspension := .read

-- The second half of `load`, when the bytes and the mode of the file are known.
def check (bytes : Bytes) (mode : Nat) : Except StoreError (Option Credential) :=
  if mode &&& 0o777 &&& 0o077 ≠ 0 then .error (.permissive store.path.display (mode &&& 0o777))
  else
    match codec.decode bytes with
    | .error e       => .error (.corrupt e)
    | .ok credential =>
      if credential.version ≠ credentialVersion
      then .error (.unknownVersion credential.version)
      else .ok credential

-- `write_all`, before the next piece is written.
def writeAll (file : Nat) (bytes : Bytes) (written : Nat) : Suspension :=
  if written < bytes.length then .write file bytes written else .sync file

def writeZero : IoError := ⟨.writeZero, "failed to write whole buffer"⟩

def resume : Suspension → Answer → Option Suspension
  | .createDirAll b, .done       => some <| .restrictDir b
  | .restrictDir b,  .done       => some <| .create b
  | .create b,       .opened f   => some <| .restrict f b
  | .restrict f b,   .done       => writeAll f b 0
  | .write _ _ _,    .wrote 0    => some <| .saved (.error (.io writeZero))
  | .write f b w,    .wrote n    => writeAll f b (w + n)
  | .write f b w,    .failed e   => if e.kind = .interrupted then some (.write f b w) else some (.saved (.error (.io e)))
  | .sync _,         .done       => some .rename
  | .rename,         .done       => some <| .saved (.ok ())
  | .read,           .bytes b    => some <| .metadata b
  | .read,           .failed e   => if e.kind = .notFound then some (.loaded (.ok none)) else some (.loaded (.error (.io e)))
  | .metadata b,     .mode m     => some <| .loaded (check codec store b m)
  | .metadata _,     .failed e   => some <| .loaded (.error (.io e))
  | .saved _, _ | .loaded _, _   => none
  | _,               .failed e   => some <| .saved (.error (.io e))
  | _,               _           => none

end FileCredentialStore
