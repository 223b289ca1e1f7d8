import ZyrisDocker.FileIo.Basic
import ZyrisDocker.Gate.Theorems.Escape
import ZyrisDocker.Lib.Run

open Text Transition FileIo

namespace Host

variable {host : Host κ}

-- Without symlinks, a path is checked as it was joined.
theorem canonicalizeDeepest_noLinks (h : host.fs.NoLinks) (l : List Bytes) :
    canonicalizeDeepest host (.ofLocation l) = .ofLocation l := by
  have ⟨a, t, real, d, hc⟩ := canonicalizeDeepest_spec host l
  have hr := canonicalize_ofLocation_iff.mp d.resolves
  rw [realpath_absolute rfl] at hr
  rw [hc, FileSystem.realpath_noLinks h hr, d.split]

end Host

namespace GatedFileIo

variable {types : FileTypes} {io : GatedFileIo types κ} {host : Host κ} {roots deny : List (PathBuf Bytes)}

def joined (gate : PathGate) (path : String) : PathBuf Bytes :=
  joinLikeUpstream gate.root path

-- A call which the gate lets through passes on the path it was checked for, and does not remove
-- everything below a directory in which something is denied.
structure Spares (gate : PathGate) (call : Call types) : Prop where
  text    : gate.Allows (joined gate call.path) →
    PathBuf.ofString (joined gate call.path).display = joined gate call.path
  subtree : gate.Allows (joined gate call.path) → call.method = .remove (some true) →
    ∀ d ∈ gate.deny, ¬isUnder d (joined gate call.path)

theorem perform_eq (io : GatedFileIo types κ) (cwd : List Bytes) (links : Nat) (call : Call types)
    (fs : FileSystem Bytes κ) :
    (io.fileIo cwd links).perform call fs =
      match io.ok { fs, cwd, links } call.path with
      | .error _ => fs
      | .ok path => io.inner.perform { call with path } fs := by
  rw [perform, answer_eq, gated]
  cases io.ok { fs, cwd, links } call.path <;> rfl

variable {cwd l : List Bytes} {links : Nat} {call : Call types} {fs fs' : FileSystem Bytes κ} {d : PathBuf Bytes}

-- Without symlinks, a call is refused, or carried out on the joined path.
theorem ok_cases (io : GatedFileIo types κ) (cwd : List Bytes) (links : Nat) (path : String)
    (base : io.gate.root = .ofLocation b) (plain : fs.NoLinks) :
    (∃ e, io.ok { fs, cwd, links } path = .error e) ∨
    ∃ l, joined io.gate path = .ofLocation l ∧ io.gate.Allows (.ofLocation l) ∧
      io.ok { fs, cwd, links } path = .ok (PathBuf.ofLocation l).display := by
  cases hc : io.gate.check { fs, cwd, links } path
  case error e => exact .inl ⟨e, by rw [ok, hc]; rfl⟩
  case ok p    =>
    have hl := joinLikeUpstream_ofLocation b path
    have ⟨hp, ha⟩ := PathGate.check_ok_iff.mp hc
    rw [base, hl, Host.canonicalizeDeepest_noLinks plain] at hp
    subst hp
    exact .inr ⟨_, by rw [joined, base, hl], ha, by rw [ok, hc]; rfl⟩

theorem perform_noLinks (acts : io.inner.ActsOnPath) (plain : fs.NoLinks) :
    ((io.fileIo cwd links).perform call fs).NoLinks := by
  rw [perform_eq]
  split
  · exact plain
  · exact acts.noLinks plain

-- What a call touches on an allowed path is not below anything that is denied.
theorem touches_allowed (allowed : io.gate.Allows (.ofLocation p)) (hd : d ∈ io.gate.deny)
    (above : call.method = .remove (some true) → ¬isUnder d (.ofLocation p)) (h : call.method.Touches p l) :
    ¬isUnder (.ofLocation l) d := by
  rw [isUnder_iff]
  intro hl
  have outside : ¬d <+: PathBuf.ofLocation p := fun hp => allowed.2 d hd (isUnder_iff.mpr hp)
  have mono {l l' : List Bytes} (hp : l <+: l') : PathBuf.ofLocation l <+: PathBuf.ofLocation l' := by
    have ⟨t, ht⟩ := hp
    exact ⟨t.map .name, by rw [← ht, PathBuf.ofLocation_append]⟩
  cases hm : call.method <;> simp only [hm, Method.Touches] at h
  case write | edit | mkdir => exact outside <| hl.trans (mono h)
  case remove recursive =>
    match recursive with
    | none | some false => subst h; exact outside hl
    | some true         =>
      cases List.prefix_or_prefix_of_prefix hl (mono h)
      case inl hp => exact outside hp
      case inr hp => exact above hm (isUnder_iff.mpr hp)

theorem perform_spares (base : io.gate.root = .ofLocation b) (acts : io.inner.ActsOnPath) (plain : fs.NoLinks)
    (spares : Spares io.gate call) (hd : d ∈ io.gate.deny) (hl : isUnder (.ofLocation l) d) :
    ((io.fileIo cwd links).perform call fs).node l = fs.node l := by
  rw [perform_eq]
  cases io.ok_cases cwd links call.path base plain
  case inl h => have ⟨_, h⟩ := h; rw [h]
  case inr h =>
    have ⟨p, hj, allowed, h⟩ := h
    rw [h]
    refine Classical.byContradiction fun hc => ?_
    have reads := spares.text (hj ▸ allowed)
    rw [hj] at reads
    let handed : Call types := ⟨call.method, (PathBuf.ofLocation p).display⟩
    have changes : fs.ChangesOnly (io.inner.perform handed fs) (call.method.Touches p) := acts.touches plain reads
    exact touches_allowed allowed hd (fun hm => hj ▸ spares.subtree (hj ▸ allowed) hm d hd) (changes l hc) hl

-- The file system after any calls that meet the condition, compared to the one that the gate was built on.
theorem deny_unchanged {rooted : PathBuf Bytes → FileIo types κ} (exist : ∀ r ∈ roots, (host.canonicalize r).isSome)
    (plain : host.fs.NoLinks) (acts : ∀ root, (rooted root).ActsOnPath)
    (r : Run (Guard ((new (.new host roots deny) rooted).fileIo host.cwd host.links).Performs
      fun _ call _ => Spares (.new host roots deny) call) host.fs calls fs)
    (hd : d ∈ (PathGate.new host roots deny).deny) (hl : isUnder (.ofLocation l) d) :
    fs.node l = host.fs.node l := by
  have ⟨b, base, _⟩ := PathGate.root_ofLocation deny exist
  let Intact (fs : FileSystem Bytes κ) : Prop := fs.NoLinks ∧ fs.node l = host.fs.node l
  have intact : Intact fs := by
    refine r.preserves ⟨plain, rfl⟩ fun fs call fs' ⟨plain, same⟩ ⟨performs, spares⟩ => ?_
    subst performs
    refine ⟨perform_noLinks (acts _) plain, ?_⟩
    exact (perform_spares base (acts _) plain spares hd hl).trans same
  exact intact.2

-- A recursive remove takes along what is denied below the directory it removes.
theorem remove_removes (acts : io.inner.ActsOnPath) (plain : host.fs.NoLinks)
    (checked : io.gate.check host path = .ok (.ofLocation p))
    (reads : PathBuf.ofString (PathBuf.ofLocation p).display = .ofLocation p) (hp : p ≠ []) (hl : p <+: l) :
    ((io.fileIo host.cwd host.links).perform ⟨.remove (some true), path⟩ host.fs).node l = none := by
  have hk : io.ok host path = .ok (PathBuf.ofLocation p).display := by
    rw [ok, checked]; rfl
  rw [perform_eq]
  simp only [hk]
  exact acts.removes plain reads hp hl

def contentless : FileTypes :=
  ⟨Unit, Unit, Unit, Unit, Unit, Unit⟩

-- An implementation for files without contents, in directories that exist.
def bare : FileIo contentless Unit where
  stat _            := fun fs => (.ok (), fs)
  list _            := fun fs => (.ok [], fs)
  read _ _ _        := fun fs => (.ok (), fs)
  readStream _ _ _  := fun fs => (.ok (), fs)
  write path _ _    := fun fs => (.ok (), putAt path (.file ()) fs)
  remove path rec   := fun fs => (.ok (), removeAt path rec fs)
  edit _ _ _ _      := fun fs => (.ok (), fs)
  mkdir path        := fun fs => (.ok (), if (fs.node <| location path).isNone then putAt path .dir fs else fs)
where
  location (path : String) : List Bytes :=
    PathBuf.ofString path |>.filterMap fun | .name n => some n | _ => none
  putAt (path : String) (x : FsNode Bytes Unit) (fs : FileSystem Bytes Unit) : FileSystem Bytes Unit :=
    match (location path).getLast? with
    | none   => fs
    | some n => fs.put (location path).dropLast n x
  removeAt (path : String) (rec : Option Bool) (fs : FileSystem Bytes Unit) : FileSystem Bytes Unit :=
    if rec = some true ∨ !fs.isDir (location path) then fs.prune (location path) else fs

namespace bare

variable {fs : FileSystem Bytes Unit}

theorem location_ofLocation (h : PathBuf.ofString path = .ofLocation l) : location path = l := by
  rw [location, h]
  exact List.filterMap_map.trans List.filterMap_some

theorem putAt_changesOnly (path : String) (x : FsNode Bytes Unit) (fs : FileSystem Bytes Unit) :
    fs.ChangesOnly (putAt path x fs) (· = location path) := by
  intro l h
  rw [putAt] at h
  split at h
  case h_1    => exact absurd rfl h
  case h_2 hn =>
    have ⟨_, he⟩ := List.getLast?_eq_some_iff.mp hn
    simpa [he] using FileSystem.put_changesOnly _ _ _ _ l h

theorem putAt_noLinks (h : fs.NoLinks) (hx : ∀ t, x ≠ .link t) : (putAt path x fs).NoLinks := by
  rw [putAt]
  split
  case h_1 => exact h
  case h_2 => exact h.put hx

theorem removeAt_changesOnly (path : String) (rec : Option Bool) (fs : FileSystem Bytes Unit) :
    fs.ChangesOnly (removeAt path rec fs) ((Method.remove rec : Method contentless).Touches (location path)) := by
  intro l h
  rw [removeAt] at h
  split at h
  case isFalse   => exact absurd rfl h
  case isTrue hr =>
    have below := FileSystem.prune_changesOnly _ _ l h
    match rec with
    | some true         => exact below
    | none | some false =>
      -- Nothing is below what is no directory.
      have hd : ¬fs.isDir (location path) := by simpa using hr
      have ⟨t, ht⟩ := below
      cases t
      case nil  => exact ht.symm.trans (by simp)
      case cons =>
        have hn : fs.node l = none := by
          refine Classical.byContradiction fun hn => hd ?_
          exact FileSystem.isDir_iff.mpr <| FileSystem.dir_of_append (ht ▸ hn)
        rw [FileSystem.prune] at h
        split at h <;> simp_all

theorem actsOnPath : bare.ActsOnPath where
  touches {_ fs call} plain hl := by
    obtain ⟨method, path⟩ := call
    cases location_ofLocation hl
    cases method
    case write => exact fun l h => (putAt_changesOnly _ _ _ l h) ▸ List.prefix_rfl
    case mkdir =>
      intro l h
      simp only [perform, answer, bare] at h
      split at h
      case isTrue  => exact (putAt_changesOnly _ _ _ l h) ▸ List.prefix_rfl
      case isFalse => exact absurd rfl h
    case remove => exact removeAt_changesOnly _ _ _
    all_goals exact fun l h => absurd rfl h
  noLinks {fs call} plain := by
    obtain ⟨method, path⟩ := call
    cases method
    case write  => exact putAt_noLinks plain nofun
    case mkdir  =>
      simp only [perform, answer, bare]
      split
      case isTrue  => exact putAt_noLinks plain nofun
      case isFalse => exact plain
    case remove =>
      simp only [perform, answer, bare, removeAt]
      split
      case isTrue  => exact plain.prune
      case isFalse => exact plain
    all_goals exact plain
  removes {_ _ _ fs} _ hl hn hp := by
    cases location_ofLocation hl
    simp [perform, answer, bare, removeAt, FileSystem.prune_node hn, hp]

end bare

-- A directory `/data` and a directory `/data/keys` that is denied.
def keys : Host Unit where
  fs    := FileSystem.empty |>.put [] (utf8 "data".toList) .dir |>.put [utf8 "data".toList] (utf8 "keys".toList) .dir
  cwd   := []
  links := 40

theorem keys_noLinks : keys.fs.NoLinks := by
  dsimp only [keys]
  apply FileSystem.NoLinks.put
  · exact FileSystem.NoLinks.empty.put nofun
  · nofun

theorem keys_check :
    (PathGate.new keys [.ofString "/data"] [.ofString "/data/keys"]).check keys "/data" =
      .ok (.ofLocation [utf8 "data".toList]) := by
  rw [PathGate.check_ok_iff]
  decide

theorem keys_deny :
    .ofLocation [utf8 "data".toList, utf8 "keys".toList] ∈
      (PathGate.new keys [.ofString "/data"] [.ofString "/data/keys"]).deny := by
  decide

theorem not_deny_unchanged :
    ¬∀ (types : FileTypes) κ (host : Host κ) roots deny (rooted : PathBuf Bytes → FileIo types κ) calls fs d l,
      (∀ r ∈ roots, (host.canonicalize r).isSome) → (∀ d ∈ deny, (host.canonicalize d).isSome) →
      host.fs.NoLinks → (∀ root, (rooted root).ActsOnPath) →
      Run ((new (.new host roots deny) rooted).fileIo host.cwd host.links).Performs host.fs calls fs →
      d ∈ (PathGate.new host roots deny).deny → isUnder (.ofLocation l) d → fs.node l = host.fs.node l := by
  intro h
  have same := h contentless Unit keys [.ofString "/data"] [.ofString "/data/keys"] (fun _ => bare)
    [⟨.remove (some true), "/data"⟩] _ _ _ (by decide) (by decide) keys_noLinks (fun _ => bare.actsOnPath)
    (.single rfl) keys_deny (isUnder_iff.mpr List.prefix_rfl)
  have below : [utf8 "data".toList] <+: [utf8 "data".toList, utf8 "keys".toList] := ⟨[utf8 "keys".toList], rfl⟩
  have dir : keys.fs.isDir [utf8 "data".toList, utf8 "keys".toList] := by decide
  rw [FileSystem.isDir_iff, ← same, remove_removes bare.actsOnPath keys_noLinks keys_check _ _ below] at dir
  · cases dir
  · decide
  · decide

-- A directory is made, filled and removed with all that is in it, and what is denied is asked for in vain.
def tidying : List (Call contentless) :=
  [⟨.mkdir, "new"⟩, ⟨.write () true, "/data/new/a"⟩, ⟨.remove (some true), "/data/keys"⟩,
    ⟨.remove (some true), "/data/new"⟩]

theorem tidying_spares : ∀ call ∈ tidying, Spares (.new keys [.ofString "/data"] [.ofString "/data/keys"]) call := by
  simp only [tidying, List.forall_mem_cons]
  refine ⟨⟨fun _ => by decide, nofun⟩, ⟨fun _ => by decide, nofun⟩, ⟨fun _ => by decide, fun allowed => ?_⟩,
    ⟨fun _ => by decide, fun _ _ => by decide⟩, nofun⟩
  exact absurd allowed (by decide)

theorem deny_unchanged_tidied : ∃ fs,
    Run ((new (.new keys [.ofString "/data"] [.ofString "/data/keys"]) fun _ => bare).fileIo keys.cwd keys.links).Performs
      keys.fs tidying fs ∧
    fs.node [utf8 "data".toList, utf8 "keys".toList] = keys.fs.node [utf8 "data".toList, utf8 "keys".toList] := by
  have r : Run (Guard ((new (.new keys [.ofString "/data"] [.ofString "/data/keys"]) fun _ => bare).fileIo keys.cwd
      keys.links).Performs fun _ call _ => Spares (.new keys [.ofString "/data"] [.ofString "/data/keys"]) call)
      keys.fs tidying _ :=
    .step ⟨rfl, tidying_spares _ (by simp [tidying])⟩ <| .step ⟨rfl, tidying_spares _ (by simp [tidying])⟩ <|
      .step ⟨rfl, tidying_spares _ (by simp [tidying])⟩ <| .single ⟨rfl, tidying_spares _ (by simp [tidying])⟩
  exact ⟨_, r.unguard, deny_unchanged (by decide) keys_noLinks (fun _ => bare.actsOnPath) r keys_deny
    (isUnder_iff.mpr List.prefix_rfl)⟩

end GatedFileIo
