import ZyrisDocker.Lib.Run
import ZyrisDocker.Runtime.Store.File

open Text

-- Any number of calls `ι` on one credential file, whose steps on the file system interleave.
namespace Volume

open FileCredentialStore

structure State (ι : Type) where
  dir   : Directory (PathBuf Bytes)
  calls : ι → Suspension

-- The call that makes its next step, and by how many bytes the piece falls short of what is left if
-- that is a write.
structure Event (ι : Type) where
  call  : ι
  short : Nat

inductive Request
  | save (credential : Credential)
  | load

def ioNotFound : IoError := ⟨.notFound, "No such file or directory (os error 2)"⟩

variable (codec : Codec) (store : FileCredentialStore) (umask : Nat)

def start : Request → Suspension
  | .save credential => save codec store credential
  | .load            => load

def init (dir : Directory (PathBuf Bytes)) (requests : ι → Request) : State ι where
  dir     := dir
  calls i := start codec store (requests i)

def newFileMode : Nat :=
  0o666 ^^^ (0o666 &&& umask)

-- The effect of a step on the file system, and its answer. The directory itself exists.
def serve (dir : Directory (PathBuf Bytes)) (short : Nat) : Suspension → Directory (PathBuf Bytes) × Answer
  | .createDirAll _  => (dir, .done)
  | .restrictDir _   => (dir, .done)
  | .create _        =>
    let (dir, file) := dir.create store.temp (newFileMode umask)
    (dir, .opened file)
  | .restrict f _    => (dir.chmod f 0o600, .done)
  | .write f b w     =>
    let piece := b.drop w |>.take (max 1 (b.length - w - short))
    (dir.write f w piece, .wrote piece.length)
  | .sync _          => (dir, .done)
  | .rename          =>
    match dir.rename store.temp store.path with
    | some dir => (dir, .done)
    | none     => (dir, .failed ioNotFound)
  | .read            =>
    match dir.find store.path with
    | some x => (dir, .bytes x.bytes)
    | none   => (dir, .failed ioNotFound)
  | .metadata _      =>
    match dir.find store.path with
    | some x => (dir, .mode x.mode)
    | none   => (dir, .failed ioNotFound)
  | .saved _ | .loaded _ => (dir, .done)

variable [DecidableEq ι]

def step (s : State ι) (e : Event ι) : Option (State ι) :=
  let (dir, answer) := serve store umask s.dir e.short (s.calls e.call)
  (resume codec store (s.calls e.call) answer).map fun p => { dir, calls := Function.update s.calls e.call p }

end Volume
