import ZyrisDocker.Config
import ZyrisDocker.Gate.Basic
import ZyrisDocker.Runtime.Store.Basic

open Text

def defaultCredentialDir : String := "/var/lib/zyris-docker"

-- The one answer to where this node keeps its credential.
def credentialDir (configDir : Option Bytes) : PathBuf Bytes :=
  match configDir.filter (· ≠ []) with
  | some dir => .parse dir
  | none     => .ofString defaultCredentialDir

-- The directories that are denied whatever the configuration is.
def secretDirs : List (PathBuf Bytes) :=
  [.ofString "/run/secrets", .ofString "/var/run/secrets"]

-- The roots and the deny list.
def resolveRoots (cfg : Config) (configDir : Option Bytes) : List (PathBuf Bytes) × List (PathBuf Bytes) :=
  let roots := if cfg.fileRoots.isEmpty then [.ofString "/"] else cfg.fileRoots.map PathBuf.ofString
  (roots, secretDirs ++ [credentialDir configDir])

-- The gate that is built at startup.
def startupGate (host : Host κ) (cfg : Config) (configDir : Option Bytes) : PathGate :=
  let (roots, deny) := resolveRoots cfg configDir
  .new host roots deny

-- The places of the credential and of its temp file in a directory.
def FileCredentialStore.places (store : FileCredentialStore) (l : List Bytes) : List (List Bytes) :=
  [store.path, store.temp].filterMap PathBuf.fileName |>.map fun n => l ++ [n]

namespace Host

variable (host : Host κ) (store : FileCredentialStore)

-- The first step of `save`.
def createParent : Except FsError (FileSystem Bytes κ) :=
  match store.path.parent with
  | some parent => host.fs.createDirAll host.links parent host.cwd
  | none        => .ok host.fs

end Host

-- The file systems that saves leave, each of them carried out up to any step, with only a part of the data
-- if that is a write. The directory of the store leads to `l` when it is made.
inductive Saved (host : Host κ) (store : FileCredentialStore) : FileSystem Bytes κ → List Bytes → Prop
  | made (creates : host.createParent store = .ok fs)
    (home : fs.realpath host.links store.path.dropLast host.cwd = .ok l) : Saved host store fs l
  | wrote (saved : Saved host store fs l) (write : fs.write host.links store.temp host.cwd part = .ok fs') :
    Saved host store fs' l
  | renamed (saved : Saved host store fs l) (rename : fs.rename host.links store.temp store.path host.cwd = .ok fs') :
    Saved host store fs' l
