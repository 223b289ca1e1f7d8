import ZyrisDocker.Lib.FileSystem

open Text Component

inductive ErrorCode
  | forbiddenScope
  | invalidParams
  | internal
  deriving DecidableEq

structure WireError where
  code    : ErrorCode
  message : String
  deriving DecidableEq

-- How a process sees a file system: from its working directory, and with so many symlinks at most on
-- the way to one file.
structure Host (κ : Type) where
  fs    : FileSystem Bytes κ
  cwd   : List Bytes
  links : Nat

namespace Host

variable (host : Host κ)

def realpath (p : PathBuf Bytes) : Except FsError (List Bytes) :=
  host.fs.realpath host.links p host.cwd

-- The place which an open of the path reaches that creates the file if it is missing.
def openCreate (p : PathBuf Bytes) : Except FsError (List Bytes) :=
  host.fs.openCreate host.links p host.cwd

-- A relative path has no canonical form when the working directory was removed.
def canonicalize (p : PathBuf Bytes) : Option (PathBuf Bytes) :=
  if p = [] ∨ (!p.hasRoot ∧ !host.fs.isDir host.cwd) then none
  else host.realpath p |>.toOption.map PathBuf.ofLocation

end Host

structure PathGate where
  roots : List (PathBuf Bytes)
  deny  : List (PathBuf Bytes)

namespace PathGate

def canon (host : Host κ) (p : PathBuf Bytes) : PathBuf Bytes :=
  host.canonicalize p |>.getD p

def new (host : Host κ) (roots deny : List (PathBuf Bytes)) : PathGate where
  roots := roots.map (canon host)
  deny  := deny.map (canon host)

variable (gate : PathGate)

-- Base for relative paths.
def root : PathBuf Bytes :=
  gate.roots.head?.getD [.root]

-- Puts the allowed roots in the error message.
def refuse (requested why : String) : WireError :=
  let roots := ", ".intercalate <| gate.roots.map PathBuf.display
  { code := .forbiddenScope, message := s!"{requested}: {why}. Paths this node allows: {roots}" }

end PathGate

def joinComponent (out : PathBuf Bytes) : Component Bytes → PathBuf Bytes
  | .root   => [.root]
  | .cur    => out
  | .up     =>
    match out.pop with
    | some out => out
    | none     => if out.hasRoot then out else out ++ [up]
  | .name n => out ++ [name n]

-- Joins by the same rules as the layer below.
def joinLikeUpstream (root : PathBuf Bytes) (path : String) : PathBuf Bytes :=
  let requested := PathBuf.ofString path
  requested.foldl joinComponent (if requested.hasRoot then [] else root)

-- The components of `existing` come from the last one. A path that has a file name also has a parent.
def canonicalizeDeepestLoop (host : Host κ) (path existing : PathBuf Bytes) (tail : List Bytes) : PathBuf Bytes :=
  match host.canonicalize existing.reverse, existing with
  | some real, _                => real ++ tail.map name
  | none,      name n :: parent => canonicalizeDeepestLoop host path parent (n :: tail)
  | none,      _                => path

-- Really resolves the deepest ancestor that exists, then appends the rest logically.
def canonicalizeDeepest (host : Host κ) (path : PathBuf Bytes) : PathBuf Bytes :=
  canonicalizeDeepestLoop host path path.reverse []

def isUnder (path base : PathBuf Bytes) : Bool :=
  path = base || path.startsWith base

namespace PathGate

def check (gate : PathGate) (host : Host κ) (requested : String) : Except WireError (PathBuf Bytes) :=
  let joined   := joinLikeUpstream gate.root requested
  let resolved := canonicalizeDeepest host joined
  if gate.deny.any (isUnder resolved ·) then .error <| gate.refuse requested "is on the deny list"
  else if !gate.roots.any (isUnder resolved ·) then
    .error <| gate.refuse requested "is outside the allowed roots"
  else .ok resolved

-- Under one of the roots, and under nothing that is denied.
def Allows (gate : PathGate) (path : PathBuf Bytes) : Prop :=
  (∃ r ∈ gate.roots, isUnder path r) ∧ ∀ d ∈ gate.deny, ¬isUnder path d

instance {gate : PathGate} {path : PathBuf Bytes} : Decidable (gate.Allows path) :=
  inferInstanceAs (Decidable (_ ∧ _))

end PathGate
