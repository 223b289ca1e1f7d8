import Mathlib.Logic.Function.Basic
import ZyrisDocker.Lib.Text

open Text Function

structure Inode where
  bytes : Bytes
  mode  : Nat

-- The entries of a directory, which name inodes. An open file is the inode it was opened at, so it
-- stays the same file when entries change.
structure Directory (ν : Type) where
  entries  : ν → Option Nat
  inodes   : Nat → Inode
  fresh    : Nat
  bound    : entries n = some i → i < fresh
  -- There are no hard links.
  distinct : entries m = some i → entries n = some i → m = n

-- Writing at an offset past the end fills the gap with zeros.
def Text.Bytes.overwrite (bytes : Bytes) (offset : Nat) (piece : Bytes) : Bytes :=
  bytes.take offset ++ List.replicate (offset - bytes.length) 0 ++ piece ++ bytes.drop (offset + piece.length)

theorem Text.Bytes.overwrite_length (bytes piece : Bytes) :
    Text.Bytes.overwrite bytes bytes.length piece = bytes ++ piece := by
  simp [Text.Bytes.overwrite]

namespace Directory

def empty : Directory ν where
  entries _ := none
  inodes _  := ⟨[], 0⟩
  fresh     := 0
  bound     := nofun
  distinct  := nofun

variable (d : Directory ν)

def find (n : ν) : Option Inode :=
  (d.entries n).map d.inodes

@[simp]
theorem find_empty {n : ν} : (empty : Directory ν).find n = none := rfl

def modify (i : Nat) (f : Inode → Inode) : Directory ν :=
  { d with inodes := update d.inodes i (f (d.inodes i)) }

def chmod (i mode : Nat) : Directory ν :=
  d.modify i ({ · with mode })

def write (i offset : Nat) (piece : Bytes) : Directory ν :=
  d.modify i fun x => { x with bytes := x.bytes.overwrite offset piece }

theorem find_eq_of_entries {d : Directory ν} {n : ν} (h : d.entries n = some i) : d.find n = some (d.inodes i) := by
  simp [find, h]

-- A change to an inode shows only under the name of that inode.
theorem find_modify_of_ne {d : Directory ν} {n : ν} (h : d.entries n ≠ some i) : (d.modify i f).find n = d.find n := by
  cases he : d.entries n
  case none   => simp [find, modify, he]
  case some j =>
    have hj : j ≠ i := fun hj => h (hj ▸ he)
    simp [find, modify, he, update_of_ne hj]

@[simp]
theorem inodes_modify : (d.modify i f).inodes i = f (d.inodes i) := by
  simp [modify]

theorem fresh_unused (m : ν) : d.entries m ≠ some d.fresh :=
  fun h => Nat.lt_irrefl _ (d.bound h)

variable [DecidableEq ν]

-- The invariants of the entries that `update` leaves.
theorem bound_update {e : ν → Option Nat} (hb : ∀ {m j}, e m = some j → j < f) (hi : ∀ i ∈ x, i < f)
    (h : update e n x m = some j) : j < f := by
  by_cases hm : m = n
  · exact hi j (by simpa [hm] using h)
  · exact hb (by rwa [update_of_ne hm] at h)

theorem distinct_update {e : ν → Option Nat} (hd : ∀ {m j k}, e m = some j → e k = some j → m = k)
    (hx : ∀ i ∈ x, ∀ m, e m ≠ some i) (hm : update e n x m = some j) (hk : update e n x k = some j) : m = k := by
  have old {l} (hl : l ≠ n) (h : update e n x l = some j) : e l = some j := by
    rwa [update_of_ne hl] at h
  by_cases hmn : m = n <;> by_cases hkn : k = n
  · rw [hmn, hkn]
  · exact absurd (old hkn hk) (hx j (by simpa [hmn] using hm) k)
  · exact absurd (old hmn hm) (hx j (by simpa [hkn] using hk) m)
  · exact hd (old hmn hm) (old hkn hk)

def add (n : ν) (x : Inode) : Directory ν where
  entries  := update d.entries n d.fresh
  inodes   := update d.inodes d.fresh x
  fresh    := d.fresh + 1
  bound    := bound_update (fun h => Nat.lt_succ_of_lt (d.bound h)) (by simp)
  distinct := distinct_update d.distinct (by simpa using d.fresh_unused)

-- Opens a file for writing: an existing one is truncated, a missing one is created.
def create (n : ν) (mode : Nat) : Directory ν × Nat :=
  match d.entries n with
  | some i => (d.modify i ({ · with bytes := [] }), i)
  | none   => (d.add n ⟨[], mode⟩, d.fresh)

def unlink (n : ν) : Directory ν where
  entries  := update d.entries n none
  inodes   := d.inodes
  fresh    := d.fresh
  bound    := bound_update d.bound nofun
  distinct := distinct_update d.distinct nofun

-- Gives a name to an inode that has none.
def link (n : ν) (i : Nat) (hi : i < d.fresh) (hn : ∀ m, d.entries m ≠ some i) : Directory ν where
  entries  := update d.entries n i
  inodes   := d.inodes
  fresh    := d.fresh
  bound    := bound_update d.bound (by simpa using hi)
  distinct := distinct_update d.distinct (by simpa using hn)

theorem unlink_unused {m : ν} (h : d.entries m = some i) (k : ν) : (d.unlink m).entries k ≠ some i := by
  intro hk
  by_cases hkm : k = m
  · simp [unlink, hkm] at hk
  · exact hkm <| d.distinct (by simpa [unlink, hkm] using hk) h

-- Gives the file a new name, which takes the place of what had that name.
def rename (m n : ν) : Option (Directory ν) :=
  match h : d.entries m with
  | some i => some <| (d.unlink m).link n i (d.bound h) (d.unlink_unused h)
  | none   => none

variable {d} {m n : ν}

theorem create_of_entries (h : d.entries n = some i) : d.create n mode = (d.modify i ({ · with bytes := [] }), i) := by
  unfold create
  split
  case h_1 hi => cases h.symm.trans hi; rfl
  case h_2 hn => simp [h] at hn

theorem create_of_absent (h : d.entries n = none) : d.create n mode = (d.add n ⟨[], mode⟩, d.fresh) := by
  unfold create
  split
  case h_1 hi => simp [h] at hi
  case h_2    => rfl

theorem entries_create : (d.create n mode).1.entries n = some (d.create n mode).2 := by
  unfold create
  split
  case h_1 h => simpa [modify] using h
  case h_2   => simp [add]

theorem bytes_create : ((d.create n mode).1.inodes (d.create n mode).2).bytes = [] := by
  unfold create
  split <;> simp [modify, add]

theorem find_create_of_ne (h : m ≠ n) : (d.create n mode).1.find m = d.find m := by
  unfold create
  split
  case h_1 hi => exact find_modify_of_ne fun hm => h (d.distinct hm hi)
  case h_2    =>
    cases hm : d.entries m
    case none => simp [find, add, update_of_ne h, hm]
    case some => simp [find, add, update_of_ne h, hm, update_of_ne (Nat.ne_of_lt (d.bound hm))]

theorem rename_eq_some (h : d.entries m = some i) : ∃ d', d.rename m n = some d' ∧
    d'.inodes = d.inodes ∧ d'.entries n = some i ∧ (m ≠ n → d'.entries m = none) := by
  unfold rename
  split
  case h_1 j hj =>
    cases h.symm.trans hj
    refine ⟨_, rfl, rfl, by simp [link], fun hmn => ?_⟩
    simp [link, unlink, update_of_ne hmn]
  case h_2 hn => simp [h] at hn

end Directory
