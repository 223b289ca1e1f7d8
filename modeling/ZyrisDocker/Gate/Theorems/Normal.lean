import ZyrisDocker.Gate.Theorems.Complete

open Text Component

namespace Host

-- How the loop of `canonicalize_deepest` is left: with a resolved ancestor, or by giving up.
inductive Exit
  | resolved (out : PathBuf Bytes)
  | noFileName
  | noParent

def Exit.value (path : PathBuf Bytes) : Exit → PathBuf Bytes
  | resolved out         => out
  | noFileName | noParent => path

variable (host : Host κ)

-- One iteration of the loop, which leaves it or goes on with a parent and a longer tail.
def iterate (existing : PathBuf Bytes) (tail : List Bytes) : Exit ⊕ PathBuf Bytes × List Bytes :=
  match host.canonicalize existing with
  | some real => .inl <| .resolved (real ++ tail.map name)
  | none      =>
    match existing.fileName with
    | none   => .inl .noFileName
    | some n =>
      match existing.pop with
      | some parent => .inr (parent, n :: tail)
      | none        => .inl .noParent

-- The loop terminates, and is left in the given way.
inductive Exits : PathBuf Bytes → List Bytes → Exit → Prop
  | leave (h : host.iterate existing tail = .inl x) : Exits existing tail x
  | again (h : host.iterate existing tail = .inr (parent, tail')) : Exits parent tail' x → Exits existing tail x

variable {host} {existing path : PathBuf Bytes} {tail l a t real : List Bytes} {x y : Exit} {n : Bytes}

theorem Exits.unique (hx : host.Exits existing tail x) (hy : host.Exits existing tail y) : x = y := by
  induction hx
  case leave h      =>
    cases hy
    case leave h'   => exact Sum.inl.inj <| h.symm.trans h'
    case again h' _ => exact nomatch h.symm.trans h'
  case again h _ ih =>
    cases hy
    case leave h'   => exact nomatch h.symm.trans h'
    case again h' r => cases h.symm.trans h'; exact ih r

theorem iterate_of_resolves (h : host.canonicalize existing = some p) :
    host.iterate existing tail = .inl (.resolved (p ++ tail.map name)) := by
  simp only [iterate, h]

theorem iterate_snoc (h : host.canonicalize (existing ++ [name n]) = none) :
    host.iterate (existing ++ [name n]) tail = .inr (existing, n :: tail) := by
  simp only [iterate, h, PathBuf.fileName_snoc, PathBuf.pop_snoc_name]

-- For every path the loop ends, with the value of the function. It never gets to a path that has a file name but no parent.
theorem exits_loop (host : Host κ) (path existing : PathBuf Bytes) (tail : List Bytes) :
    ∃ x, x ≠ .noParent ∧ host.Exits existing tail x ∧
      canonicalizeDeepestLoop host path existing.reverse tail = x.value path := by
  induction existing using List.reverseRecOn generalizing tail
  case nil                  => exact ⟨.noFileName, nofun, .leave rfl, rfl⟩
  case append_singleton p c ih =>
    cases hc : host.canonicalize (p ++ [c])
    case some => exact ⟨.resolved _, nofun, .leave (iterate_of_resolves hc), canonicalizeDeepestLoop_resolves hc⟩
    case none =>
      cases c
      case name n =>
        have ⟨x, hx, exits, hv⟩ := ih (n :: tail)
        exact ⟨x, hx, .again (iterate_snoc hc) exits, (canonicalizeDeepestLoop_stuck hc).trans hv⟩
      case root | cur | up =>
        refine ⟨.noFileName, nofun, .leave (by simp [iterate, hc, PathBuf.fileName]), ?_⟩
        rw [canonicalizeDeepestLoop.eq_def, List.reverse_reverse, hc]
        simp [Exit.value]

-- On the way up from a location the loop gets to the root at the latest.
theorem exits_resolved (host : Host κ) (a tail : List Bytes) :
    ∃ out, host.Exits (.ofLocation a) tail (.resolved out) := by
  induction a using List.reverseRecOn generalizing tail
  case nil =>
    have hr : host.canonicalize (.ofLocation []) = some (.ofLocation []) :=
      canonicalize_ofLocation_iff.mpr <| FileSystem.walk_settled (.inl host.fs.root)
    exact ⟨_, .leave (iterate_of_resolves hr)⟩
  case append_singleton a n ih =>
    cases hc : host.canonicalize (.ofLocation (a ++ [n]))
    case some => exact ⟨_, .leave (iterate_of_resolves hc)⟩
    case none =>
      rw [PathBuf.ofLocation_append] at hc ⊢
      exact (ih (n :: tail)).imp fun _ => .again (iterate_snoc hc)

theorem exits_ofLocation_iff :
    host.Exits (.ofLocation l) [] x ↔ x = .resolved (canonicalizeDeepest host (.ofLocation l)) := by
  have ⟨out, exits⟩ := exits_resolved host l []
  have ⟨y, _, exits', hv⟩ := exits_loop host (.ofLocation l) (.ofLocation l) []
  have hy := exits.unique exits'
  have ho : canonicalizeDeepest host (.ofLocation l) = out := by rw [canonicalizeDeepest, hv, ← hy, Exit.value]
  rw [ho]
  exact ⟨(·.unique exits), (· ▸ exits)⟩

end Host

namespace PathGate

variable {host : Host κ} {gate : PathGate} {path : String} {bs : Bytes} {l : List Bytes}

-- Of the names on a path, the first one that does not resolve does not do so from its real directory either.
def Stuck (host : Host κ) (p : PathBuf Bytes) : Prop :=
  ∀ l a n t real, p = .ofLocation l → host.Deepest l a (n :: t) real →
    host.canonicalize (.ofLocation (real ++ [n])) = none

-- It may be missing, or nothing else may be left.
theorem stuck_of_missing (resolves : host.realpath (.ofLocation a) = .ok real)
    (missing : ∀ n t', t = n :: t' → host.fs.node (real ++ [n]) = none) : Stuck host (.ofLocation (a ++ t)) := by
  intro l a' n t' real' hl d
  cases PathBuf.ofLocation_injective hl
  obtain ⟨rfl, rfl, rfl⟩ := (Host.deepest_of_missing resolves missing).unique d
  have hs := Host.settled_of_canonicalize d.resolves
  exact Host.canonicalize_eq_none fun _ => FileSystem.realpath_missing hs (missing n t' rfl)

theorem deepest_again (stuck : Stuck host (.ofLocation l)) (d : host.Deepest l a t real) :
    host.Deepest (real ++ t) real t real where
  split    := rfl
  resolves := by
    have hs := Host.settled_of_canonicalize d.resolves
    exact Host.canonicalize_ofLocation_iff.mpr <| FileSystem.walk_settled hs
  stuck    := by
    rintro n t' rfl
    exact stuck l a n t' real rfl d

-- What a path was resolved to stays as it is.
theorem canonicalizeDeepest_idempotent (stuck : Stuck host (.ofLocation l)) :
    canonicalizeDeepest host (canonicalizeDeepest host (.ofLocation l)) = canonicalizeDeepest host (.ofLocation l) := by
  have ⟨a, t, real, d, hc⟩ := Host.canonicalizeDeepest_spec host l
  have ⟨_, _, _, d', hc'⟩ := Host.canonicalizeDeepest_spec host (real ++ t)
  have ⟨_, ht, hr⟩ := (deepest_again stuck d).unique d'
  rw [hc, hc', ← ht, ← hr]

-- What the gate joins and resolves.
structure Normal (gate : PathGate) (host : Host κ) (path : String) : Prop where
  absolute : (joinLikeUpstream gate.root path).hasRoot
  no_dots  : cur ∉ joinLikeUpstream gate.root path ∧ up ∉ joinLikeUpstream gate.root path
  joined   : joinLikeUpstream gate.root path = .ofLocation (PathBuf.normalize gate.root.names (.ofString path))
  exits    : ∀ x, host.Exits (joinLikeUpstream gate.root path) [] x ↔
    x = .resolved (canonicalizeDeepest host (joinLikeUpstream gate.root path))

-- An approved path is approved as itself.
structure Stable (gate : PathGate) (host : Host κ) (path : String) : Prop where
  idempotent : canonicalizeDeepest host (canonicalizeDeepest host (joinLikeUpstream gate.root path)) =
    canonicalizeDeepest host (joinLikeUpstream gate.root path)
  check      : ∀ p, gate.check host path = .ok p → (∀ n ∈ p.names, IsUtf8 n) → gate.check host p.display = .ok p

theorem Normal.of_joined
    (joined : joinLikeUpstream gate.root path = .ofLocation (PathBuf.normalize gate.root.names (.ofString path))) :
    Normal gate host path where
  absolute := by rw [joined]; rfl
  no_dots  := by rw [joined]; simp [PathBuf.ofLocation]
  joined   := joined
  exits x  := by rw [joined]; exact Host.exits_ofLocation_iff

theorem Stable.of_joined (names : host.fs.Named) (hl : ∀ n ∈ l, PathBuf.IsName n)
    (joined : joinLikeUpstream gate.root path = .ofLocation l) (stuck : Stuck host (.ofLocation l)) :
    Stable gate host path where
  idempotent := by
    rw [joined]
    exact canonicalizeDeepest_idempotent stuck
  check      := by
    intro p h hu
    have ⟨hc, ha⟩ := check_ok_iff.mp h
    rw [joined] at hc
    have ⟨_, t, _, d, hr⟩ := Host.canonicalizeDeepest_spec host l
    obtain rfl := hc.symm.trans hr
    have hn := d.isName names fun n hn => hl n <| d.split ▸ List.mem_append_right _ hn
    rw [PathBuf.names_ofLocation] at hu
    rw [check_ok_iff, joinLikeUpstream_absolute <| PathBuf.ofString_display hn hu]
    exact ⟨hc ▸ canonicalizeDeepest_idempotent stuck, ha⟩

-- An absolute root without `..` gives all paths their normal form, and an absolute path has it with any root.
-- Paths that are resolved keep it, as long as resolving them again does not get any further.
theorem normal_stable (names : host.fs.Named) (base : gate.root = .parse bs) (absolute : gate.root.hasRoot)
    (clean : up ∉ gate.root ∨ (PathBuf.ofString path).hasRoot) :
    Normal gate host path ∧ (Stuck host (joinLikeUpstream gate.root path) → Stable gate host path) := by
  have joined : joinLikeUpstream gate.root path = .ofLocation (PathBuf.normalize gate.root.names (.ofString path)) := by
    rcases clean with hu | hr
    · have ⟨_, hb⟩ := PathBuf.parse_location (base ▸ absolute) (base ▸ hu)
      exact joinLikeUpstream_eq (.inl <| base.trans hb)
    · exact joinLikeUpstream_eq (l := []) (.inr hr)
  have hn : ∀ n ∈ PathBuf.normalize gate.root.names (.ofString path), PathBuf.IsName n := by
    intro n hn
    have hj : name n ∈ joinLikeUpstream gate.root path := by
      rw [joined]
      simp [PathBuf.ofLocation, hn]
    rcases name_mem_joinLikeUpstream hj with hj | hj
    · exact PathBuf.isName_of_mem_parse (base ▸ hj)
    · exact PathBuf.isName_of_mem_parse hj
  exact ⟨.of_joined joined, fun stuck => .of_joined names hn joined (joined ▸ stuck)⟩

-- A directory `/data` with a symlink `d` to itself and a symlink `m` to the directory `/etc`.
def circular : Host Unit where
  fs    := FileSystem.empty
    |>.put [] (utf8 "data".toList) .dir
    |>.put [] (utf8 "etc".toList) .dir
    |>.put [utf8 "data".toList] (utf8 "d".toList) (.link <| .ofString ".")
    |>.put [utf8 "data".toList] (utf8 "m".toList) (.link <| .ofString "/etc")
  cwd   := []
  links := 40

theorem circular_named : circular.fs.Named := by
  have data : PathBuf.IsName (utf8 "data".toList) := by constructor <;> decide
  have etc  : PathBuf.IsName (utf8 "etc".toList)  := by constructor <;> decide
  have d    : PathBuf.IsName (utf8 "d".toList)    := by constructor <;> decide
  have m    : PathBuf.IsName (utf8 "m".toList)    := by constructor <;> decide
  dsimp only [circular]
  exact .put (.put (.put (.put .empty data) etc) d) m

-- A gate with one root, and nothing denied.
def single (s : String) : PathGate where
  roots := [.ofString s]
  deny  := []

theorem single_root (s : String) : (single s).root = .parse (utf8 s.toList) := rfl

-- So many symlinks are followed for `d` that none is left for `m`.
def winding : String :=
  .ofList <| "/data".toList ++ (List.replicate 40 "/d".toList).flatten ++ "/m".toList

theorem winding_check : (single "/").check circular winding = .ok (.ofLocation [utf8 "data".toList, utf8 "m".toList]) := by
  rw [check_ok_iff]
  decide +kernel

theorem direct_check : (single "/").check circular "/data/m" = .ok (.ofLocation [utf8 "etc".toList]) := by
  rw [check_ok_iff]
  decide +kernel

-- A root that does not exist is kept with its `..`, and a path that was approved may lead further the second time.
theorem not_normal_stable :
    (¬∀ (host : Host Unit) gate bs path, host.fs.Named → gate.root = .parse bs → gate.root.hasRoot →
      Normal gate host path) ∧
    ¬∀ (host : Host Unit) gate bs path, host.fs.Named → gate.root = .parse bs → gate.root.hasRoot → up ∉ gate.root →
      Stable gate host path := by
  constructor
  case left =>
    intro h
    have normal := h circular (single "/a/..") _ "b" circular_named (single_root _) (by decide)
    exact normal.no_dots.2 (by decide)
  case right =>
    intro h
    have stable := h circular (single "/") _ winding circular_named (single_root _) (by decide) (by decide)
    have same := stable.check _ winding_check (by decide)
    have shown : (PathBuf.ofLocation [utf8 "data".toList, utf8 "m".toList]).display = "/data/m" := by decide
    rw [shown, direct_check] at same
    exact absurd same (by decide)

-- What is still to be created in `/data` keeps its path.
theorem normal_stable_new :
    Normal (single "/data") circular "new/../logs/today" ∧ Stable (single "/data") circular "new/../logs/today" := by
  have joined : joinLikeUpstream (single "/data").root "new/../logs/today" =
      .ofLocation ([utf8 "data".toList] ++ [utf8 "logs".toList, utf8 "today".toList]) := by decide
  have resolves : circular.realpath (.ofLocation [utf8 "data".toList]) = .ok [utf8 "data".toList] := by decide
  have stuck : Stuck circular (joinLikeUpstream (single "/data").root "new/../logs/today") := by
    rw [joined]
    refine stuck_of_missing resolves ?_
    rintro n t' ⟨⟩
    decide
  exact And.imp_right (· stuck) <| normal_stable circular_named (single_root _) (by decide) (.inl <| by decide)

end PathGate
