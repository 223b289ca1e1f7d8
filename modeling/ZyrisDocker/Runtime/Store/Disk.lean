import ZyrisDocker.Runtime.Store.Volume

open Text Function

-- The permission bits of a file or directory that apply to a process.
inductive Access
  | owner
  | group
  | other
  deriving DecidableEq

def Access.shift : Access → Nat
  | owner => 6
  | group => 3
  | other => 0

-- A process, as far as the file system is concerned with it.
structure Process where
  root  : Bool
  umask : Nat

namespace Process

variable (process : Process)

def mayRead (access : Access) (mode : Nat) : Bool :=
  process.root || mode >>> access.shift &&& 4 ≠ 0

def mayWrite (access : Access) (mode : Nat) : Bool :=
  process.root || mode >>> access.shift &&& 2 ≠ 0

def maySearch (access : Access) (mode : Nat) : Bool :=
  process.root || mode >>> access.shift &&& 1 ≠ 0

def mayChmod (access : Access) : Bool :=
  process.root || access = .owner

end Process

-- What stands at the path of the credential file if that is not a file of its directory: another
-- directory, or a link that leads elsewhere. A link gives way when it is removed or replaced.
structure Foreign where
  bytes : Except IoError Bytes
  mode  : Except IoError Nat
  stays : Option IoError

-- The directory of the credential file, with its own permission bits, and those that apply to it and to
-- each of its files.
structure Folder where
  files   : Directory (PathBuf Bytes)
  access  : Nat → Access
  mode    : Nat
  whose   : Access
  foreign : Option Foreign

-- The directory, unless it is absent.
abbrev Disk := Option Folder

open FileCredentialStore Volume

def ioDenied : IoError := ⟨.other, "Permission denied (os error 13)"⟩

def ioNotPermitted : IoError := ⟨.other, "Operation not permitted (os error 1)"⟩

namespace FileCredentialStore.Answer

def of (f : α → Answer) : Except IoError α → Answer
  | .ok a    => f a
  | .error e => .failed e

end FileCredentialStore.Answer

variable (process : Process) (codec : Codec) (store : FileCredentialStore)

namespace Folder

-- `create_dir_all` leaves an empty directory, with the rights that the umask does not mask.
def empty : Folder where
  files    := .empty
  access _ := .owner
  mode     := 0o777 ^^^ (0o777 &&& process.umask)
  whose    := .owner
  foreign  := none

variable (folder : Folder)

-- Whether a file of the directory can be reached by its name.
def maySearch : Bool :=
  process.maySearch folder.whose folder.mode

-- Whether an entry can be added, replaced or removed.
def mayChange : Bool :=
  folder.maySearch process && process.mayWrite folder.whose folder.mode

-- The file which the path of the credential file names.
def named : Option (Access × Inode) :=
  (folder.files.entries store.path).map fun i => (folder.access i, folder.files.inodes i)

def readFile : Except IoError Bytes :=
  if !folder.maySearch process then .error ioDenied else
  match folder.foreign, folder.named store with
  | some x, _                => x.bytes
  | none, some (access, x) => if process.mayRead access x.mode then .ok x.bytes else .error ioDenied
  | none, none               => .error ioNotFound

def fileMode : Except IoError Nat :=
  if !folder.maySearch process then .error ioDenied else
  match folder.foreign, folder.named store with
  | some x, _        => x.mode
  | none, some (_, x) => .ok x.mode
  | none, none       => .error ioNotFound

-- Why a step of a save is refused.
def refuses : Suspension → Option IoError
  | .restrictDir _ => if process.mayChmod folder.whose then none else some ioNotPermitted
  | .create _      =>
    match folder.files.entries store.temp with
    | some i =>
      if folder.maySearch process && process.mayWrite (folder.access i) (folder.files.inodes i).mode
      then none else some ioDenied
    | none   => if folder.mayChange process then none else some ioDenied
  | .restrict f _  => if process.mayChmod (folder.access f) then none else some ioNotPermitted
  | .rename        => if folder.mayChange process then folder.foreign.bind Foreign.stays else some ioDenied
  | _              => none

-- The effect of a step that is not refused. A file that is created belongs to the process.
def apply (short : Nat) : Suspension → Folder × Answer
  | .restrictDir _ => ({ folder with mode := 0o700 }, .done)
  | .create _ =>
    let (files, file) := folder.files.create store.temp (newFileMode process.umask)
    ({ folder with
      files, access := if file = folder.files.fresh then update folder.access file .owner else folder.access
    }, .opened file)
  | .rename =>
    match folder.files.rename store.temp store.path with
    | some files => ({ folder with files, foreign := none }, .done)
    | none       => (folder, .failed ioNotFound)
  | .read       => (folder, .of .bytes (folder.readFile process store))
  | .metadata _ => (folder, .of .mode (folder.fileMode process store))
  | p =>
    let (files, answer) := Volume.serve store process.umask folder.files short p
    ({ folder with files }, answer)

def serve (short : Nat) (p : Suspension) : Folder × Answer :=
  match folder.refuses process store p with
  | some e => (folder, .failed e)
  | none   => folder.apply process store short p

-- Why `remove_file` is refused.
def refusesRemoval : Option IoError :=
  if !folder.maySearch process then some ioDenied
  else if folder.foreign.isNone ∧ (folder.files.entries store.path).isNone then some ioNotFound
  else if !folder.mayChange process then some ioDenied
  else folder.foreign.bind Foreign.stays

-- `remove_file`.
def remove : Folder × Except IoError Unit :=
  match folder.refusesRemoval process store with
  | some e => (folder, .error e)
  | none   => ({ folder with files := folder.files.unlink store.path, foreign := none }, .ok ())

end Folder

namespace Disk

variable (disk : Disk)

def readFile : Except IoError Bytes :=
  match disk with
  | some folder => folder.readFile process store
  | none        => .error ioNotFound

def fileMode : Except IoError Nat :=
  match disk with
  | some folder => folder.fileMode process store
  | none        => .error ioNotFound

-- The directory can be searched, now or once it was made.
def Accessible : Prop :=
  match disk with
  | some folder => folder.maySearch process
  | none        => process.root ∨ process.umask &&& 0o100 = 0

-- A load with nothing between its two steps.
def load : Except StoreError (Option Credential) :=
  match disk.readFile process store with
  | .error e  => if e.kind = .notFound then .ok none else .error (.io e)
  | .ok bytes =>
    match disk.fileMode process store with
    | .error e => .error (.io e)
    | .ok mode => check codec store bytes mode

def serve (short : Nat) (p : Suspension) : Disk × Answer :=
  match disk, p with
  | some folder, p            => (folder.serve process store short p).map some id
  | none,        .createDirAll _ => (some <| .empty process, .done)
  | none,        _            => (none, .failed ioNotFound)

-- A step that fails for some other reason has no effect.
def perform (short : Nat) (fault : Option IoError) (p : Suspension) : Disk × Answer :=
  match fault with
  | some e => (disk, .failed e)
  | none   => disk.serve process store short p

def remove (fault : Option IoError) : Disk × Except IoError Unit :=
  match fault, disk with
  | some e, _           => (disk, .error e)
  | none,   some folder => (folder.remove process store).map some id
  | none,   none        => (none, .error ioNotFound)

-- A single `save`. It can be cut off between any two of its steps, and within a write.
namespace Save

structure State where
  disk  : Disk
  call  : Suspension
  -- The files which bytes were put into.
  wrote : List Nat

structure Event where
  short : Nat
  fault : Option IoError

def init (credential : Credential) : State where
  disk  := disk
  call  := save codec store credential
  wrote := []

def puts : Suspension → Answer → List Nat
  | .write f _ _, .wrote (_ + 1) => [f]
  | _,            _              => []

def step (s : State) (e : Event) : Option State :=
  let (disk, answer) := s.disk.perform process store e.short e.fault s.call
  (resume codec store s.call answer).map fun call => { disk, call, wrote := puts s.call answer ++ s.wrote }

end Save
end Disk

namespace FileCredentialStore

-- `clear`, when the file is removed or not.
def clear : Except IoError Unit → Except StoreError Unit
  | .ok ()   => .ok ()
  | .error e => if e.kind = .notFound then .ok () else .error (.io e)

end FileCredentialStore
