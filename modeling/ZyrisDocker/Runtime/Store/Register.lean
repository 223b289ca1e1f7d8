import ZyrisDocker.Lib.Linearizable
import ZyrisDocker.Runtime.Store.Volume

open Text Transition FileCredentialStore

namespace Volume

-- What a call returned.
inductive Result
  | saved (r : Except StoreError Unit)
  | loaded (r : Except StoreError (Option Credential))

-- What a credential file is for: a register which holds a credential, or nothing.
def register : Object (Option Credential) Request Result where
  apply
    | .save credential, _ => (credential, .saved (.ok ()))
    | .load,        value => (value, .loaded (.ok value))

variable (codec : Codec) (store : FileCredentialStore)

-- The credential in the file.
def value (dir : Directory (PathBuf Bytes)) : Option Credential :=
  (dir.find store.path).bind fun x => (codec.decode x.bytes).toOption

-- How far a call has come. A save takes effect when it returns, a load when it reads.
def phase : Suspension → Object.Call Result
  | .createDirAll _ | .read => .waiting
  | .metadata bytes         => .effected (.loaded (.ok (codec.decode bytes).toOption))
  | .saved r                => .returned (.saved r)
  | .loaded r               => .returned (.loaded r)
  | _                       => .invoked

-- The calls on the credential file, as calls on the register that the file implements.
def linear (s : State ι) : Object.State ι (Option Credential) Result where
  value   := value codec store s.dir
  calls i := phase codec (s.calls i)

-- What the callers see of a step: the first one of a call and the last one.
def invocation (i : ι) : Suspension → List (Object.Seen ι Result)
  | .createDirAll _ | .read => [.invoked i]
  | _                       => []

def completion (i : ι) : Suspension → List (Object.Seen ι Result)
  | .saved r  => [.returned i (.saved r)]
  | .loaded r => [.returned i (.loaded r)]
  | _         => []

def sees (s : State ι) (e : Event ι) (s' : State ι) : List (Object.Seen ι Result) :=
  invocation e.call (s.calls e.call) ++ completion e.call (s'.calls e.call)

end Volume
