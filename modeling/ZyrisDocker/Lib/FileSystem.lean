import Mathlib.Data.List.Induction
import ZyrisDocker.Lib.Path

inductive FsNode (ν κ : Type)
  | dir
  | file (data : κ)
  | link (target : PathBuf ν)
  deriving DecidableEq

-- A tree of directories, files and symlinks. A location is given by the names that lead to it from
-- the root, without following any symlink.
structure FileSystem (ν κ : Type) where
  node   : List ν → Option (FsNode ν κ)
  root   : node [] = some .dir
  parent : ∀ {l n}, node (l ++ [n]) ≠ none → node l = some .dir

inductive FsError
  | notFound
  | notDir
  | loop
  | exists
  deriving DecidableEq

namespace FileSystem

abbrev Walk (ν : Type) := PathBuf ν → List ν → Except FsError (List ν)

variable {ν κ : Type} (fs : FileSystem ν κ)

-- Resolves a path from a directory. What happens at a name without an entry and at a symlink, in both
-- cases with the rest of the path, is left open.
def go (missing follow : Walk ν) : Walk ν
  | [],           l => .ok l
  | .root :: p,   _ => go missing follow p []
  | .cur :: p,    l => go missing follow p l
  | .up :: p,     l => go missing follow p l.dropLast
  | .name n :: p, l =>
    match fs.node (l ++ [n]) with
    | none           => missing p (l ++ [n])
    | some .dir      => go missing follow p (l ++ [n])
    | some (.file _) => if p.isEmpty then .ok (l ++ [n]) else .error .notDir
    | some (.link t) => follow (t ++ p) l

-- Follows up to so many symlinks in all.
def walk (missing : Walk ν) : Nat → Walk ν
  | 0     => fs.go missing fun _ _ => .error .loop
  | k + 1 => fs.go missing (walk missing k)

def follow (missing : Walk ν) : Nat → Walk ν
  | 0     => fun _ _ => .error .loop
  | k + 1 => fs.walk missing k

theorem walk_eq (missing : Walk ν) (k : Nat) : fs.walk missing k = fs.go missing (fs.follow missing k) := by
  cases k <;> rfl

-- Every component has to exist.
def realpath : Nat → Walk ν :=
  fs.walk fun _ _ => .error .notFound

-- Where a file is opened, or created if only the last component does not exist. Symlinks are followed,
-- a dangling one included.
def openCreate : Nat → Walk ν :=
  fs.walk fun p l => if p.isEmpty then .ok l else .error .notFound

-- A directory or a file.
def Settled (l : List ν) : Prop :=
  fs.node l = some .dir ∨ ∃ d, fs.node l = some (.file d)

def NoLinks : Prop :=
  ∀ l t, fs.node l ≠ some (.link t)

-- What is different in `fs'` is in the given set of locations.
def ChangesOnly (fs fs' : FileSystem ν κ) (touched : List ν → Prop) : Prop :=
  ∀ l, fs'.node l ≠ fs.node l → touched l

-- Everything that is in `fs` is unchanged in `fs'`, and what was added are directories.
structure Grows (fs fs' : FileSystem ν κ) : Prop where
  keeps : fs.node l ≠ none → fs'.node l = fs.node l
  dirs  : fs.node l = none → fs'.node l = none ∨ fs'.node l = some .dir

-- The derivations of `realpath`: a path leads from a directory to `dst` and follows at most so many symlinks.
inductive Resolves (dst : List ν) : Nat → PathBuf ν → List ν → Prop
  | nil : Resolves dst k [] dst
  | root : Resolves dst k p [] → Resolves dst k (.root :: p) l
  | cur : Resolves dst k p l → Resolves dst k (.cur :: p) l
  | up : Resolves dst k p l.dropLast → Resolves dst k (.up :: p) l
  | dir (hn : fs.node (l ++ [n]) = some .dir) :
    Resolves dst k p (l ++ [n]) → Resolves dst k (.name n :: p) l
  | file (hn : fs.node (l ++ [n]) = some (.file d)) (hd : dst = l ++ [n]) (hp : p = []) :
    Resolves dst k (.name n :: p) l
  | link (hn : fs.node (l ++ [n]) = some (.link t)) :
    Resolves dst k (t ++ p) l → Resolves dst (k + 1) (.name n :: p) l

variable {fs} {fs' : FileSystem ν κ} {missing follow : Walk ν} {l l' : List ν} {p : PathBuf ν} {k : Nat}

theorem ne_none (h : fs.node l = some x) : fs.node l ≠ none :=
  h.trans_ne <| Option.some_ne_none _

theorem Settled.ne_none (h : fs.Settled l) : fs.node l ≠ none := by
  cases h
  case inl h => exact FileSystem.ne_none h
  case inr h => exact FileSystem.ne_none h.choose_spec

theorem dir_of_append (h : fs.node (l ++ n :: ns) ≠ none) : fs.node l = some .dir := by
  induction ns using List.reverseRecOn
  case nil                        => exact fs.parent h
  case append_singleton ns m ih   =>
    have hd := fs.parent (l := l ++ n :: ns) (n := m) (by simpa using h)
    exact ih (ne_none hd)

theorem dir_dropLast (h : fs.node l = some .dir) : fs.node l.dropLast = some .dir := by
  induction l using List.reverseRecOn
  case nil              => exact h
  case append_singleton => simpa using fs.parent (ne_none h)

theorem go_dir (h : fs.node (l ++ ns) = some .dir) :
    fs.go missing follow (ns.map .name ++ p) l = fs.go missing follow p (l ++ ns) := by
  induction ns generalizing l
  case nil          => simp
  case cons n ns ih =>
    have h : fs.node ((l ++ [n]) ++ ns) = some .dir := by simpa using h
    have hn : fs.node (l ++ [n]) = some .dir := by
      cases ns
      case nil  => simpa using h
      case cons => exact dir_of_append (ne_none h)
    simpa [go, hn] using ih h

theorem go_file (h : fs.node (l ++ ns ++ [n]) = some (.file d)) :
    fs.go missing follow (ns.map .name ++ .name n :: p) l =
      if p.isEmpty then .ok (l ++ ns ++ [n]) else .error .notDir := by
  rw [go_dir (fs.parent (ne_none h))]
  simp only [go, h]

@[simp]
theorem go_ofLocation :
    fs.go missing follow (PathBuf.ofLocation l ++ p) l' = fs.go missing follow (l.map .name ++ p) [] := rfl

-- A location is where its own path leads.
theorem go_settled (h : fs.Settled l) : fs.go missing follow (PathBuf.ofLocation l) l' = .ok l := by
  rw [← List.append_nil (PathBuf.ofLocation l), go_ofLocation]
  cases h
  case inl h => exact go_dir (l := []) h
  case inr h =>
    have ⟨d, h⟩ := h
    cases l using List.reverseRecOn
    case nil              => exact nomatch fs.root.symm.trans h
    case append_singleton => simpa using go_file (l := []) (p := []) h

theorem walk_settled (h : fs.Settled l) : fs.walk missing k (PathBuf.ofLocation l) l' = .ok l := by
  rw [walk_eq]
  exact go_settled h

-- A name that is missing leads nowhere.
theorem realpath_missing (hs : fs.Settled l) (hn : fs.node (l ++ [n]) = none) :
    fs.realpath k (PathBuf.ofLocation (l ++ [n])) l₀ ≠ .ok l' := by
  rw [realpath, walk_eq, PathBuf.ofLocation_append, go_ofLocation]
  cases hs
  case inl h => rw [go_dir (l := []) h]; simp [go, hn]
  case inr h =>
    have ⟨_, h⟩ := h
    cases l using List.reverseRecOn
    case nil              => exact nomatch fs.root.symm.trans h
    case append_singleton => simp [go_file (l := []) (p := [Component.name n]) h]

theorem Resolves.of_go
    (hf : ∀ {l n t p}, fs.node (l ++ [n]) = some (.link t) → follow (t ++ p) l = .ok l' →
      fs.Resolves l' k (.name n :: p) l)
    (h : fs.go (fun _ _ => .error .notFound) follow p l = .ok l') : fs.Resolves l' k p l := by
  induction p generalizing l
  case nil         => cases h; exact .nil
  case cons c p ih =>
    cases c
    case root => exact .root (ih h)
    case cur  => exact .cur (ih h)
    case up   => exact .up (ih h)
    case name =>
      simp only [go] at h
      split at h
      case h_1    => cases h
      case h_2 hn => exact .dir hn (ih h)
      case h_3 hn =>
        split at h
        case isTrue hp => cases h; exact .file hn rfl (List.isEmpty_iff.mp hp)
        case isFalse   => cases h
      case h_4 hn => exact hf hn h

theorem Resolves.of_realpath (h : fs.realpath k p l = .ok l') : fs.Resolves l' k p l := by
  induction k generalizing p l
  case zero      => exact .of_go (by simp) h
  case succ k ih => exact .of_go (fun hn h => .link hn (ih h)) h

theorem Resolves.realpath (h : fs.Resolves l' k p l) : fs.realpath k p l = .ok l' := by
  rw [FileSystem.realpath]
  induction h
  case nil             => rw [walk_eq]; rfl
  case root | cur | up => rw [walk_eq] at *; assumption
  case dir hn _ h      => simpa only [walk_eq, go, hn] using h
  case file hn hd hp   => simp only [walk_eq, go, hn, hd, hp]; rfl
  case link hn _ h     => simpa only [walk, go, hn] using h

theorem Resolves.settled (h : fs.Resolves l' k p l) (hl : fs.node l = some .dir) : fs.Settled l' := by
  induction h
  case nil              => exact .inl hl
  case root ih          => exact ih fs.root
  case cur ih | link ih => exact ih hl
  case up ih            => exact ih (dir_dropLast hl)
  case dir hn _ ih      => exact ih hn
  case file hn hd _     => exact .inr ⟨_, hd ▸ hn⟩

theorem realpath_settled (hl : fs.node l = some .dir) (h : fs.realpath k p l = .ok l') : fs.Settled l' :=
  (Resolves.of_realpath h).settled hl

-- The part of a path that was resolved to a directory can be replaced by the directory, but the
-- symlinks that were followed for it count.
theorem Resolves.append (missing : Walk ν) (hd : fs.node l' = some .dir) (h : fs.Resolves l' k p l) :
    ∃ j, ∀ q, fs.walk missing k (p ++ q) l = fs.walk missing j q l' := by
  induction h
  case nil k           => exact ⟨k, fun _ => rfl⟩
  case root | cur | up =>
    simp only [List.cons_append, walk_eq, go] at *
    assumption
  case dir hn _ ih     =>
    have ⟨j, hj⟩ := ih
    exact ⟨j, fun q => by simpa only [List.cons_append, walk_eq, go, hn] using hj q⟩
  case file hn he _    => simp [he ▸ hd] at hn
  case link hn _ ih    =>
    have ⟨j, hj⟩ := ih
    exact ⟨j, fun q => by simpa only [List.cons_append, walk, go, hn, List.append_assoc] using hj q⟩

theorem realpath_append (missing : Walk ν) (hd : fs.node l' = some .dir) (h : fs.realpath k p l = .ok l') :
    ∃ j, ∀ q, fs.walk missing k (p ++ q) l = fs.walk missing j q l' :=
  (Resolves.of_realpath h).append missing hd

-- A name in a directory, other than a symlink's, resolves whatever was resolved before it.
theorem realpath_snoc (h : fs.realpath k p l = .ok l') (hs : fs.Settled (l' ++ [n])) :
    fs.realpath k (p ++ [.name n]) l = .ok (l' ++ [n]) := by
  have hd : fs.node l' = some .dir := fs.parent hs.ne_none
  have ⟨j, hj⟩ := realpath_append (fun _ _ => .error .notFound) hd h
  rw [realpath, hj, walk_eq]
  cases hs
  case inl h => simp [go, h]
  case inr h => have ⟨_, h⟩ := h; simp [go, h]

-- Without symlinks, what resolves is where it is named.
theorem Resolves.noLinks (h : fs.NoLinks) (hr : fs.Resolves l' k (ns.map .name) l) : l' = l ++ ns := by
  induction ns generalizing l
  case nil          => cases hr; simp
  case cons n ns ih =>
    cases hr
    case dir hr       => simpa using ih hr
    case file hp _ hd => simp [hd, List.map_eq_nil_iff.mp hp]
    case link hn _    => exact absurd hn (h _ _)

theorem realpath_noLinks (h : fs.NoLinks) (hr : fs.realpath k (PathBuf.ofLocation l) l₀ = .ok l') : l' = l := by
  cases Resolves.of_realpath hr
  case root hr => exact hr.noLinks h

-- The parents of a path that resolves resolve, too.
theorem Resolves.of_append (h : fs.Resolves l' k r l) (hr : p ++ q = r) : ∃ m, fs.Resolves m k p l := by
  induction h generalizing p
  all_goals
    obtain _ | ⟨c, p⟩ := p
    case nil => exact ⟨_, .nil⟩
  case nil  => cases hr
  all_goals obtain ⟨rfl, hq⟩ := List.cons.inj hr
  case root ih      => exact (ih hq).imp fun _ => .root
  case cur ih       => exact (ih hq).imp fun _ => .cur
  case up ih        => exact (ih hq).imp fun _ => .up
  case dir hn _ ih  => exact (ih hq).imp fun _ => .dir hn
  case file hn _ hp => exact ⟨_, .file hn rfl (List.append_eq_nil_iff.mp (hq.trans hp)).left⟩
  case link hn _ ih => exact (ih <| (List.append_assoc ..).trans <| congrArg _ hq).imp fun _ => .link hn

theorem realpath_prefix (h : fs.realpath k (p ++ q) l = .ok l') : ∃ m, fs.realpath k p l = .ok m :=
  ((Resolves.of_realpath h).of_append rfl).imp fun _ => Resolves.realpath

-- What resolves with a name at its end has an entry of that name where the rest leads.
theorem Resolves.of_snoc (h : fs.Resolves l' k r l) (hr : p ++ [.name n] = r) :
    ∃ m, fs.Resolves m k p l ∧ fs.node (m ++ [n]) ≠ none := by
  induction h generalizing p
  all_goals obtain _ | ⟨c, p⟩ := p
  case nil.nil | nil.cons | root.nil | cur.nil | up.nil => cases hr
  case dir.nil hn _ _  => cases hr; exact ⟨_, .nil, ne_none hn⟩
  case file.nil hn _ _ => cases hr; exact ⟨_, .nil, ne_none hn⟩
  case link.nil hn _ _ => cases hr; exact ⟨_, .nil, ne_none hn⟩
  all_goals obtain ⟨rfl, hq⟩ := List.cons.inj hr
  case root.cons ih      => exact (ih hq).imp fun _ => .imp_left .root
  case cur.cons ih       => exact (ih hq).imp fun _ => .imp_left .cur
  case up.cons ih        => exact (ih hq).imp fun _ => .imp_left .up
  case dir.cons hn _ ih  => exact (ih hq).imp fun _ => .imp_left (.dir hn)
  case file.cons hp      => simp [hp] at hq
  case link.cons hn _ ih =>
    exact (ih <| (List.append_assoc ..).trans <| congrArg _ hq).imp fun _ => .imp_left (.link hn)

theorem realpath_snoc_missing (h : fs.realpath k p l = .ok l') (hn : fs.node (l' ++ [n]) = none) (m : List ν) :
    fs.realpath k (p ++ [.name n]) l ≠ .ok m := by
  intro hm
  have ⟨l'', hr, hn'⟩ := (Resolves.of_realpath hm).of_snoc rfl
  cases hr.realpath.symm.trans h
  exact hn' hn

-- What resolves still does after directories were added.
theorem Resolves.grows (hg : fs.Grows fs') (h : fs.Resolves l' k p l) : fs'.Resolves l' k p l := by
  induction h
  case nil           => exact .nil
  case root ih       => exact .root ih
  case cur ih        => exact .cur ih
  case up ih         => exact .up ih
  case dir hn _ ih   => exact .dir (hn ▸ hg.keeps (ne_none hn)) ih
  case file hn hd hp => exact .file (hn ▸ hg.keeps (ne_none hn)) hd hp
  case link hn _ ih  => exact .link (hn ▸ hg.keeps (ne_none hn)) ih

theorem realpath_grows (hg : fs.Grows fs') (h : fs.realpath k p l = .ok l') : fs'.realpath k p l = .ok l' :=
  ((Resolves.of_realpath h).grows hg).realpath

theorem Grows.refl (fs : FileSystem ν κ) : fs.Grows fs where
  keeps _ := rfl
  dirs h  := .inl h

theorem Grows.trans {fs'' : FileSystem ν κ} (h₁ : fs.Grows fs') (h₂ : fs'.Grows fs'') : fs.Grows fs'' where
  keeps h := by
    rw [h₂.keeps (by rwa [h₁.keeps h]), h₁.keeps h]
  dirs h  := by
    cases h₁.dirs h
    case inl h => exact h₂.dirs h
    case inr h => exact .inr <| (h₂.keeps (ne_none h)).trans h

variable (fs)

def isDir (l : List ν) : Bool :=
  fs.node l matches some .dir

variable {fs}

theorem isDir_iff : fs.isDir l ↔ fs.node l = some .dir := by
  simp only [isDir]
  split <;> simp_all

theorem not_isDir (h : (!fs.isDir l) = true) : fs.node l ≠ some .dir := by
  simpa [← isDir_iff] using h

variable [DecidableEq ν] (fs)

def empty : FileSystem ν κ where
  node   := fun l => if l = [] then some .dir else none
  root   := rfl
  parent := by simp

-- An entry is put into a directory, and never in the place of one. There is no effect otherwise.
def put (l : List ν) (n : ν) (x : FsNode ν κ) : FileSystem ν κ :=
  if h : fs.isDir l ∧ !fs.isDir (l ++ [n]) then {
    node   := Function.update fs.node (l ++ [n]) (some x)
    root   := by simp [Function.update, fs.root]
    parent := by
      intro l' m hn
      have hl : fs.node l' = some .dir := by
        by_cases he : l' ++ [m] = l ++ [n]
        case pos => exact (List.append_inj' he rfl).1 ▸ isDir_iff.mp h.1
        case neg => exact fs.parent (by rwa [Function.update_of_ne he] at hn)
      have he : l' ≠ l ++ [n] := fun he => not_isDir h.2 (he ▸ hl)
      rwa [Function.update_of_ne he]
  }
  else fs

-- Removes everything at and below a location other than the root.
def prune (l : List ν) : FileSystem ν κ :=
  if h : l = [] then fs else {
    node   := fun l' => if l <+: l' then none else fs.node l'
    root   := by simp [h, fs.root]
    parent := by
      intro l' m hn
      split at hn
      case isTrue  => exact absurd rfl hn
      case isFalse hp =>
        rw [if_neg fun hp' => hp <| hp'.trans (List.prefix_append _ _)]
        exact fs.parent hn
  }

variable {fs}

theorem put_node (hl : fs.node l = some .dir) (hn : fs.node (l ++ [n]) ≠ some .dir) :
    (fs.put l n x).node = Function.update fs.node (l ++ [n]) (some x) := by
  have h : fs.isDir l ∧ !fs.isDir (l ++ [n]) := by
    simpa [isDir_iff, ← Bool.not_eq_true] using And.intro hl hn
  rw [put, dif_pos h]

theorem prune_node (h : l ≠ []) : (fs.prune l).node l' = if l <+: l' then none else fs.node l' := by
  rw [prune, dif_neg h]

theorem put_changesOnly (fs : FileSystem ν κ) (l : List ν) (n : ν) (x : FsNode ν κ) :
    fs.ChangesOnly (fs.put l n x) (· = l ++ [n]) := by
  intro l' hc
  rw [put] at hc
  split at hc
  case isTrue  => exact Classical.byContradiction fun hl => hc <| Function.update_of_ne hl _ _
  case isFalse => exact absurd rfl hc

theorem prune_changesOnly (fs : FileSystem ν κ) (l : List ν) : fs.ChangesOnly (fs.prune l) (l <+: ·) := by
  intro l' hc
  rw [prune] at hc
  split at hc
  case isTrue  => exact absurd rfl hc
  case isFalse => exact Classical.byContradiction fun hl => hc <| if_neg hl

omit [DecidableEq ν] in
theorem NoLinks.empty : (empty : FileSystem ν κ).NoLinks := by
  intro l t
  simp only [FileSystem.empty]
  split <;> nofun

theorem NoLinks.put (h : fs.NoLinks) (hx : ∀ t, x ≠ .link t) : (fs.put l n x).NoLinks := by
  intro l' t
  rw [FileSystem.put]
  split
  case isFalse => exact h l' t
  case isTrue  =>
    simp only [Function.update_apply]
    split
    case isTrue  => exact fun he => hx t (Option.some.inj he)
    case isFalse => exact h l' t

theorem NoLinks.prune (h : fs.NoLinks) : (fs.prune l).NoLinks := by
  intro l' t
  rw [FileSystem.prune]
  split
  case isTrue  => exact h l' t
  case isFalse =>
    simp only
    split
    case isTrue  => nofun
    case isFalse => exact h l' t

variable (fs)

-- `mkdir` and `create_dir_all`.
def mkdir (k : Nat) (p : PathBuf ν) (cwd : List ν) : Except FsError (FileSystem ν κ) := do
  let l ← fs.realpath k p.dropLast cwd
  match p.fileName with
  | none   => throw .exists
  | some n =>
    match fs.node l, fs.node (l ++ [n]) with
    | some .dir, none   => return fs.put l n .dir
    | some .dir, some _ => throw .exists
    | _,         _      => throw .notDir

def leadsToDir (k : Nat) (p : PathBuf ν) (cwd : List ν) : Bool :=
  match fs.realpath k p cwd with
  | .ok l    => fs.isDir l
  | .error _ => false

-- The components come from the last one.
def createDirs (k : Nat) (cwd : List ν) (fs : FileSystem ν κ) : PathBuf ν → Except FsError (FileSystem ν κ)
  | []       => .ok fs
  | c :: rev =>
    let p := (c :: rev).reverse
    let finish (fs : FileSystem ν κ) (e : FsError) := if fs.leadsToDir k p cwd then .ok fs else .error e
    match fs.mkdir k p cwd with
    | .ok fs           => .ok fs
    | .error .notFound =>
      match createDirs k cwd fs rev with
      | .error e => .error e
      | .ok fs   =>
        match fs.mkdir k p cwd with
        | .ok fs    => .ok fs
        | .error e  => finish fs e
    | .error e         => finish fs e

def createDirAll (k : Nat) (p : PathBuf ν) (cwd : List ν) : Except FsError (FileSystem ν κ) :=
  createDirs k cwd fs p.reverse

-- `File::create`, followed by a write of all the data.
def write (k : Nat) (p : PathBuf ν) (cwd : List ν) (data : κ) : Except FsError (FileSystem ν κ) := do
  let l ← fs.openCreate k p cwd
  match l.getLast? with
  | none   => throw .exists
  | some n => if fs.isDir l then throw .exists else return fs.put l.dropLast n (.file data)

-- A `rename` of something other than a directory, within one directory or to another.
def rename (k : Nat) (p q : PathBuf ν) (cwd : List ν) : Except FsError (FileSystem ν κ) := do
  let l ← fs.realpath k p.dropLast cwd
  let m ← fs.realpath k q.dropLast cwd
  match p.fileName, q.fileName with
  | some n, some n' =>
    match fs.node (l ++ [n]) with
    | none   => throw .notFound
    | some x =>
      if fs.isDir (m ++ [n']) then throw .exists
      else if l ++ [n] = m ++ [n'] then return fs
      else return (fs.prune (l ++ [n])).put m n' x
  | _, _ => throw .exists

variable {fs} {cwd m : List ν} {q : PathBuf ν} {x : FsNode ν κ} {data : κ}

theorem put_grows (hl : fs.node l = some .dir) (hn : fs.node (l ++ [n]) = none) : fs.Grows (fs.put l n .dir) where
  keeps {m} h := by
    have hm : m ≠ l ++ [n] := fun hm => h (hm ▸ hn)
    rw [put_node hl (by simp [hn]), Function.update_of_ne hm]
  dirs {m} h := by
    rw [put_node hl (by simp [hn])]
    by_cases hm : m = l ++ [n]
    case pos => exact .inr (by rw [hm, Function.update_self])
    case neg => exact .inl (by rwa [Function.update_of_ne hm])

theorem mkdir_grows (h : fs.mkdir k p cwd = .ok fs') : fs.Grows fs' := by
  simp only [mkdir, bind, Except.bind] at h
  split at h
  case h_1 => cases h
  case h_2 =>
    split at h
    case h_1 => cases h
    case h_2 =>
      split at h <;> cases h
      exact put_grows ‹_› ‹_›

-- There is no directory to be made at a name that is taken.
theorem mkdir_exists (hd : fs.realpath k p cwd = .ok l) (hl : fs.node (l ++ [n]) ≠ none) :
    fs.mkdir k (p ++ [.name n]) cwd = .error .exists := by
  have ⟨x, hx⟩ := Option.ne_none_iff_exists'.mp hl
  simp only [mkdir, bind, Except.bind, List.dropLast_concat, hd, PathBuf.fileName_snoc, fs.parent hl, hx]
  rfl

theorem createDirs_grows {rev : PathBuf ν} (h : createDirs k cwd fs rev = .ok fs') : fs.Grows fs' := by
  induction rev generalizing fs fs'
  case nil           => cases h; exact .refl _
  case cons c rev ih =>
    simp only [createDirs] at h
    split at h
    case h_1 hm => cases h; exact mkdir_grows hm
    case h_3    => split at h <;> cases h; exact .refl _
    case h_2 =>
      split at h
      case h_1    => cases h
      case h_2 hp =>
        split at h
        case h_1 hm => cases h; exact (ih hp).trans (mkdir_grows hm)
        case h_2    => split at h <;> cases h; exact ih hp

theorem createDirAll_grows (h : fs.createDirAll k p cwd = .ok fs') : fs.Grows fs' :=
  createDirs_grows h

theorem createDirAll_exists (hd : fs.realpath k p cwd = .ok l) (hl : fs.node (l ++ [n]) ≠ none)
    (h : fs.createDirAll k (p ++ [.name n]) cwd = .ok fs') : fs' = fs := by
  simp only [createDirAll, List.reverse_append, List.reverse_cons, List.reverse_nil, List.nil_append,
    List.singleton_append, createDirs, List.reverse_reverse, mkdir_exists hd hl] at h
  split at h <;> cases h
  rfl

-- What the operations do when nothing is in their way.

theorem createDirAll_new (hd : fs.realpath k p cwd = .ok l) (hl : fs.node l = some .dir)
    (hn : fs.node (l ++ [n]) = none) :
    fs.createDirAll k (p ++ [.name n]) cwd = .ok (fs.put l n .dir) := by
  have hm : fs.mkdir k (p ++ [.name n]) cwd = .ok (fs.put l n .dir) := by
    simp only [mkdir, bind, Except.bind, List.dropLast_concat, hd, PathBuf.fileName_snoc, hl, hn]
    rfl
  simp [createDirAll, createDirs, hm]

theorem write_new (ho : fs.openCreate k p cwd = .ok (l ++ [n])) (hn : !fs.isDir (l ++ [n])) :
    fs.write k p cwd data = .ok (fs.put l n (.file data)) := by
  simp only [write, bind, Except.bind, ho, List.getLast?_concat, List.dropLast_concat]
  rw [if_neg (by simpa using hn)]
  rfl

theorem rename_new (hp : fs.realpath k p cwd = .ok l) (hq : fs.realpath k q cwd = .ok m)
    (hx : fs.node (l ++ [n]) = some x) (hd : !fs.isDir (m ++ [n'])) (hne : l ++ [n] ≠ m ++ [n']) :
    fs.rename k (p ++ [.name n]) (q ++ [.name n']) cwd = .ok ((fs.prune (l ++ [n])).put m n' x) := by
  simp only [rename, bind, Except.bind, List.dropLast_concat, hp, hq, PathBuf.fileName_snoc, hx]
  rw [if_neg (by simpa using hd), if_neg hne]
  rfl
end FileSystem
