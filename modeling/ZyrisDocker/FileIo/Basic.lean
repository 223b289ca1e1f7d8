import ZyrisDocker.Gate.Basic

open Text

-- The types of the contents that are exchanged with callers.
structure FileTypes where
  Datum      : Type
  FileStat   : Type
  DirEntry   : Type
  FileRead   : Type
  FileStream : Type
  FileEdit   : Type

abbrev Io (κ α : Type) := FileSystem Bytes κ → Except WireError α × FileSystem Bytes κ

-- An implementation of the file capability, by the effects of its methods.
structure FileIo (types : FileTypes) (κ : Type) where
  stat       : (path : String) → Io κ types.FileStat
  list       : (path : String) → Io κ (List types.DirEntry)
  read       : (path : String) → (offset len : Option Nat) → Io κ types.FileRead
  readStream : (path : String) → (offset len : Option Nat) → Io κ types.FileStream
  write      : (path : String) → (data : types.Datum) → (overwrite : Bool) → Io κ types.FileStat
  remove     : (path : String) → (recursive : Option Bool) → Io κ Unit
  edit       : (path oldString newString : String) → (replaceAll : Bool) → Io κ types.FileEdit
  mkdir      : (path : String) → Io κ Unit

structure GatedFileIo (types : FileTypes) (κ : Type) where
  gate  : PathGate
  inner : FileIo types κ

namespace GatedFileIo

def new (gate : PathGate) (rooted : PathBuf Bytes → FileIo types κ) : GatedFileIo types κ where
  gate  := gate
  inner := rooted gate.root

variable (io : GatedFileIo types κ)

-- The path that the gate approved, as a string.
def ok (host : Host κ) (path : String) : Except WireError String :=
  io.gate.check host path |>.map PathBuf.display

-- Every method asks the gate first and passes on the approved path.
def gated (cwd : List Bytes) (links : Nat) (path : String) (method : String → Io κ α) : Io κ α :=
  fun fs =>
    match io.ok { fs, cwd, links } path with
    | .error e => (.error e, fs)
    | .ok path => method path fs

def fileIo (cwd : List Bytes) (links : Nat) : FileIo types κ where
  stat path                                 := io.gated cwd links path io.inner.stat
  list path                                 := io.gated cwd links path io.inner.list
  read path offset len                      := io.gated cwd links path (io.inner.read · offset len)
  readStream path offset len                := io.gated cwd links path (io.inner.readStream · offset len)
  write path data overwrite                 := io.gated cwd links path (io.inner.write · data overwrite)
  remove path recursive                     := io.gated cwd links path (io.inner.remove · recursive)
  edit path oldString newString replaceAll  := io.gated cwd links path (io.inner.edit · oldString newString replaceAll)
  mkdir path                                := io.gated cwd links path io.inner.mkdir

end GatedFileIo

namespace FileIo

inductive Method (types : FileTypes)
  | stat
  | list
  | read (offset len : Option Nat)
  | readStream (offset len : Option Nat)
  | write (data : types.Datum) (overwrite : Bool)
  | remove (recursive : Option Bool)
  | edit (oldString newString : String) (replaceAll : Bool)
  | mkdir

structure Call (types : FileTypes) where
  method : Method types
  path   : String

-- What a method answers with when it succeeds.
def Method.Reply : Method types → Type
  | .stat | .write _ _ => types.FileStat
  | .list              => List types.DirEntry
  | .read _ _          => types.FileRead
  | .readStream _ _    => types.FileStream
  | .edit _ _ _        => types.FileEdit
  | .remove _ | .mkdir => Unit

def answer (io : FileIo types κ) : (method : Method types) → (path : String) → Io κ method.Reply
  | .stat,                                path => io.stat path
  | .list,                                path => io.list path
  | .read offset len,                     path => io.read path offset len
  | .readStream offset len,               path => io.readStream path offset len
  | .write data overwrite,                path => io.write path data overwrite
  | .remove recursive,                    path => io.remove path recursive
  | .edit oldString newString replaceAll, path => io.edit path oldString newString replaceAll
  | .mkdir,                               path => io.mkdir path

-- The file system after a call.
def perform (io : FileIo types κ) (call : Call types) (fs : FileSystem Bytes κ) : FileSystem Bytes κ :=
  (io.answer call.method call.path fs).2

def Performs (io : FileIo types κ) (fs : FileSystem Bytes κ) (call : Call types) (fs' : FileSystem Bytes κ) : Prop :=
  io.perform call fs = fs'

-- What a method may change when it is called with an absolute path. Missing directories above a file
-- are created.
def Method.Touches (l : List Bytes) : Method types → List Bytes → Prop
  | .stat | .list | .read _ _ | .readStream _ _ => fun _ => False
  | .write _ _ | .edit _ _ _ | .mkdir           => (· <+: l)
  | .remove (some true)                         => (l <+: ·)
  | .remove _                                   => (· = l)

-- An implementation that acts on exactly the path it is given. Without symlinks around, it makes none.
structure ActsOnPath (io : FileIo types κ) : Prop where
  touches : ∀ {fs : FileSystem Bytes κ} {call : Call types}, fs.NoLinks → PathBuf.ofString call.path = .ofLocation l →
    fs.ChangesOnly (io.perform call fs) (call.method.Touches l)
  noLinks : ∀ {fs : FileSystem Bytes κ} {call : Call types}, fs.NoLinks → (io.perform call fs).NoLinks
  removes : ∀ {fs : FileSystem Bytes κ}, fs.NoLinks → PathBuf.ofString path = .ofLocation l → l ≠ [] → l <+: l' →
    (io.perform ⟨.remove (some true), path⟩ fs).node l' = none

end FileIo

theorem GatedFileIo.answer_eq (io : GatedFileIo types κ) (cwd : List Bytes) (links : Nat) (method : FileIo.Method types)
    (path : String) : (io.fileIo cwd links).answer method path = io.gated cwd links path (io.inner.answer method) := by
  cases method <;> rfl
