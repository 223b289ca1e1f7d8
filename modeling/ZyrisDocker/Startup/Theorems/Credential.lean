import ZyrisDocker.Gate.Theorems.Complete
import ZyrisDocker.Startup.Basic

open Text

theorem credentialDir_ne_nil (configDir : Option Bytes) : credentialDir configDir ≠ [] := by
  simp only [credentialDir]
  split
  case h_1 h => exact PathBuf.parse_ne_nil <| by simpa using (Option.filter_eq_some_iff.mp h).2
  case h_2   => decide

namespace Host

variable {host : Host κ} {store : FileCredentialStore} {made fs : FileSystem Bytes κ} {l : List Bytes}
variable {dir p q : PathBuf Bytes} {n : Bytes}

theorem realpath_dir (h : host.fs.node l = some .dir) : host.realpath (.ofLocation l) = .ok l :=
  FileSystem.walk_settled (.inl h)

-- A directory that exists is where the store puts its files.
theorem createDirAll_leads (h : host.canonicalize dir = some q)
    (hm : host.fs.createDirAll host.links dir host.cwd = .ok made)
    (hl : made.realpath host.links dir host.cwd = .ok l) : q = .ofLocation l := by
  have ⟨l', hq, _, hr⟩ := canonicalize_settled h
  have hr := FileSystem.realpath_grows (FileSystem.createDirAll_grows hm) hr
  rw [hq, Except.ok.inj <| hr.symm.trans hl]

-- A path whose directory is made by the store is no part of the path to the files, or the path of the
-- directory itself. The one way to be another part would be a symlink below the directory, but such a
-- symlink is not made.
theorem createDirAll_canonical (hd : host.canonicalize dir = none) (hn : dir ≠ [])
    (hm : host.fs.createDirAll host.links dir host.cwd = .ok made)
    (hl : made.realpath host.links dir host.cwd = .ok l) (hp : dir <+: PathBuf.ofLocation (l ++ [n])) :
    dir = .ofLocation l := by
  have ⟨l', he, hb⟩ := PathBuf.prefix_ofLocation hp hn
  subst he
  have grows := FileSystem.createDirAll_grows hm
  let host' : Host κ := { host with fs := made }
  have hr : host'.canonicalize (.ofLocation l') = some (.ofLocation l) := canonicalize_ofLocation_iff.mpr hl
  have settled : made.Settled l := settled_of_canonicalize hr
  have leads (hs : made.Settled l') : l' = l :=
    Except.ok.inj <| (FileSystem.walk_settled hs).symm.trans hl
  cases List.prefix_concat_iff.mp hb
  case inr hb =>
    have ⟨t, ht⟩ := hb
    cases t
    case nil  => rw [← ht, List.append_nil]
    case cons => exact congrArg _ <| leads <| .inl <| FileSystem.dir_of_append (ht.symm ▸ settled.ne_none)
  case inl he =>
    subst he
    have taken : host.fs.node (l ++ [n]) ≠ none := by
      intro hn
      cases grows.dirs hn
      case inl hn => exact FileSystem.realpath_missing settled hn hl
      case inr hn => simpa using leads (.inl hn)
    have hd' : host.realpath (.ofLocation l) = .ok l := realpath_dir (host.fs.parent taken)
    rw [PathBuf.ofLocation_append] at hm
    have same := FileSystem.createDirAll_exists hd' taken hm
    exact nomatch hd.symm.trans <| canonicalize_ofLocation_iff.mpr (same ▸ hl)

end Host

section

variable {host : Host κ} {cfg : Config} {configDir : Option Bytes} {fs : FileSystem Bytes κ} {l p : List Bytes}

-- Why the gate built at startup does not let through a request for the place `p` in the directory `l`
-- of the store: the directory existed, or was configured by the path it has, or the place is out of
-- reach anyway.
inductive Covered (host : Host κ) (cfg : Config) (configDir : Option Bytes) (l p : List Bytes) : Prop
  | existed (h : (host.canonicalize <| credentialDir configDir).isSome)
  | canonical (h : credentialDir configDir = .ofLocation l)
  | secret (hd : d ∈ secretDirs) (h : isUnder (.ofLocation p) (PathGate.canon host d))
  | outside (h : ∀ r ∈ (startupGate host cfg configDir).roots, ¬isUnder (.ofLocation p) r)

-- A request is checked where it leads.
theorem check_error_iff {gate : PathGate} (h : host.Leads (joinLikeUpstream gate.root requested) l) :
    (∃ e, gate.check host requested = .error e) ↔ ¬gate.Allows (.ofLocation l) := by
  have hc := h.deepest
  constructor
  case mp  =>
    intro ⟨e, he⟩ allowed
    exact nomatch he.symm.trans <| PathGate.check_ok_iff.mpr ⟨hc, allowed⟩
  case mpr =>
    intro denied
    cases hr : gate.check host requested
    case error e => exact ⟨e, rfl⟩
    case ok      =>
      have ⟨hq, allowed⟩ := PathGate.check_ok_iff.mp hr
      exact absurd (hc.symm.trans hq ▸ allowed) denied

theorem mem_places (h : p ∈ (FileCredentialStore.ofServer dir serverUrl profile).places l) : ∃ n, p = l ++ [n] := by
  have ⟨n, _, hp⟩ := List.mem_map.mp h
  exact ⟨n, hp.symm⟩

-- The directory was made, and is where the files are put.
theorem Saved.home_leads (h : Saved host (.ofServer dir serverUrl profile) fs l) :
    ∃ made, host.fs.createDirAll host.links dir host.cwd = .ok made ∧
      made.realpath host.links dir host.cwd = .ok l := by
  induction h
  case made made l creates home =>
    simp only [Host.createParent, FileCredentialStore.ofServer, PathBuf.parent, PathBuf.pop_snoc_name] at creates
    simp only [FileCredentialStore.ofServer, List.dropLast_concat] at home
    exact ⟨made, creates, home⟩
  case wrote ih   => exact ih
  case renamed ih => exact ih

-- The deny entry of the store covers the directory exactly if it is the directory.
theorem canon_covers_iff (saved : Saved host (.ofServer (credentialDir configDir) serverUrl profile) fs l) :
    isUnder (.ofLocation (l ++ [n])) (PathGate.canon host <| credentialDir configDir) ↔
      (host.canonicalize <| credentialDir configDir).isSome ∨ credentialDir configDir = .ofLocation l := by
  have ⟨made, hm, hl⟩ := saved.home_leads
  have within : PathBuf.ofLocation l <+: PathBuf.ofLocation (l ++ [n]) := by
    rw [PathBuf.ofLocation_append]
    exact List.prefix_append _ _
  rw [isUnder_iff, PathGate.canon]
  cases hd : host.canonicalize (credentialDir configDir)
  case some => simpa [Host.createDirAll_leads hd hm hl] using within
  case none =>
    simp only [Option.getD_none, Option.isSome_none, Bool.false_eq_true, false_or]
    constructor
    case mp  => exact Host.createDirAll_canonical hd (credentialDir_ne_nil _) hm hl
    case mpr => intro he; exact he ▸ within

theorem not_allows_iff_covered (saved : Saved host (.ofServer (credentialDir configDir) serverUrl profile) fs l)
    (hp : p = l ++ [n]) :
    ¬(startupGate host cfg configDir).Allows (.ofLocation p) ↔ Covered host cfg configDir l p := by
  have covers := canon_covers_iff (n := n) saved
  constructor
  case mp =>
    intro denied
    cases PathGate.not_allows_iff.mp denied
    case inl outside => exact .outside outside
    case inr denied  =>
      have ⟨d, hd, hu⟩ := denied
      have ⟨d', hd', he⟩ := List.mem_map.mp hd
      subst he
      cases List.mem_append.mp hd'
      case inl hd' => exact .secret hd' hu
      case inr hd' =>
        cases List.mem_singleton.mp hd'
        cases covers.mp (hp ▸ hu)
        case inl h => exact .existed h
        case inr h => exact .canonical h
  case mpr =>
    intro covered ⟨⟨r, hr, hu⟩, allowed⟩
    have denies {d} (hd : d ∈ secretDirs ++ [credentialDir configDir]) :
        ¬isUnder (.ofLocation p) (PathGate.canon host d) :=
      allowed _ <| List.mem_map.mpr ⟨d, hd, rfl⟩
    cases covered
    case existed h   => exact denies (by simp) <| hp ▸ covers.mpr (.inl h)
    case canonical h => exact denies (by simp) <| hp ▸ covers.mpr (.inr h)
    case secret hd h => exact denies (by simp [hd]) h
    case outside h   => exact h r hr hu

end

-- A node that was started in the directory `/app`, the only one, and may touch every file.
def app : Host Unit where
  fs    := FileSystem.empty.put [] (utf8 "app".toList) .dir
  cwd   := [utf8 "app".toList]
  links := 40

def appConfig : Config where
  monitorInterval := .fromSecs 30
  watchProcesses  := []
  watchContainers := []
  watchK8s        := false
  healAgentId     := none
  healProjectId   := none
  healPreamble    := ""
  fileRoots       := []
  execTimeout     := .fromSecs 120

-- The directory of the store, below the working directory, and its files.
def appDir : List Bytes :=
  [utf8 "app".toList, utf8 "creds".toList]

def appMade : FileSystem Bytes Unit :=
  app.fs.put [utf8 "app".toList] (utf8 "creds".toList) .dir

def appWritten : FileSystem Bytes Unit :=
  appMade.put appDir (utf8 "default-default.tmp".toList) (.file ())

def appSaved : FileSystem Bytes Unit :=
  appWritten.prune (appDir ++ [utf8 "default-default.tmp".toList])
    |>.put appDir (utf8 "default-default.json".toList) (.file ())

theorem app_made (h : dir = "creds" ∨ dir = "/app/creds") :
    Saved app (.ofServer (credentialDir <| some <| utf8 dir.toList) "" "") appMade appDir := by
  let base : PathBuf Bytes := if dir = "creds" then [] else [.root, .name (utf8 "app".toList)]
  let store := FileCredentialStore.ofServer (credentialDir <| some <| utf8 dir.toList) "" ""
  have hp : store.path = base ++ [.name (utf8 "creds".toList)] ++ [.name (utf8 "default-default.json".toList)] := by
    cases h <;> subst dir <;> decide
  have base_leads : app.fs.realpath app.links base app.cwd = .ok app.cwd := by
    cases h <;> subst dir <;> decide
  refine .made ?creates ?home
  case creates =>
    rw [Host.createParent, hp, PathBuf.parent, PathBuf.pop_snoc_name]
    exact FileSystem.createDirAll_new base_leads (by decide) (by decide)
  case home => cases h <;> subst dir <;> decide

theorem app_written (h : dir = "creds" ∨ dir = "/app/creds") :
    Saved app (.ofServer (credentialDir <| some <| utf8 dir.toList) "" "") appWritten appDir := by
  refine .wrote (app_made h) (FileSystem.write_new ?_ (by decide))
  cases h <;> subst dir <;> decide

theorem app_saved (h : dir = "creds" ∨ dir = "/app/creds") :
    Saved app (.ofServer (credentialDir <| some <| utf8 dir.toList) "" "") appSaved appDir := by
  let base : PathBuf Bytes := if dir = "creds" then [] else [.root, .name (utf8 "app".toList)]
  let path : PathBuf Bytes := base ++ [.name (utf8 "creds".toList)]
  let store := FileCredentialStore.ofServer (credentialDir <| some <| utf8 dir.toList) "" ""
  have hp : store.path = path ++ [.name (utf8 "default-default.json".toList)] := by
    cases h <;> subst dir <;> decide
  have ht : store.temp = path ++ [.name (utf8 "default-default.tmp".toList)] := by
    cases h <;> subst dir <;> decide
  have leads : appWritten.realpath app.links path app.cwd = .ok appDir := by
    cases h <;> subst dir <;> decide
  refine .renamed (app_written h) ?_
  rw [ht, hp]
  exact FileSystem.rename_new leads leads (by decide) (by decide) (by decide)

-- The place of a file of the store, by the path that it has: it is there, or it is still to be created.
theorem app_leads {fs : FileSystem Bytes Unit} {n : Bytes} (root : PathBuf Bytes)
    (hr : PathBuf.ofString requested = .ofLocation (appDir ++ [n]))
    (hd : fs.Settled appDir) (hn : fs.Settled (appDir ++ [n]) ∨ fs.node (appDir ++ [n]) = none) :
    { app with fs }.Leads (joinLikeUpstream root requested) (appDir ++ [n]) := by
  rw [joinLikeUpstream_absolute hr]
  cases hn
  case inl settled => exact .of_resolves <| Host.canonicalize_ofLocation_iff.mpr <| FileSystem.walk_settled settled
  case inr missing =>
    have resolves : { app with fs }.realpath (.ofLocation appDir) = .ok appDir := FileSystem.walk_settled hd
    exact .of_deepest <| Host.deepest_of_missing resolves fun _ _ h => by cases h; exact missing

theorem app_places (h : dir = "creds" ∨ dir = "/app/creds") (hf : file = "default-default.json" ∨ file = "default-default.tmp") :
    appDir ++ [utf8 file.toList] ∈
      (FileCredentialStore.ofServer (credentialDir <| some <| utf8 dir.toList) "" "").places appDir := by
  cases h <;> cases hf <;> subst dir <;> subst file <;> decide
