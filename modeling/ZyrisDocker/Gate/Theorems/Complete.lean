import ZyrisDocker.Gate.Theorems.Check

open Text

namespace Host

variable {host : Host κ} {a t real : List Bytes}

-- A path that resolves is the deepest part of a longer one that does, if nothing has the next name.
theorem deepest_of_missing (resolves : host.realpath (.ofLocation a) = .ok real)
    (missing : ∀ n t', t = n :: t' → host.fs.node (real ++ [n]) = none) : host.Deepest (a ++ t) a t real where
  split    := rfl
  resolves := canonicalize_ofLocation_iff.mpr resolves
  stuck    := by
    intro n t' ht
    rw [PathBuf.ofLocation_append]
    exact canonicalize_eq_none <| FileSystem.realpath_snoc_missing resolves (missing n t' ht)

end Host

namespace PathGate

variable {host : Host κ} {roots deny : List (PathBuf Bytes)} {requested : String} {a t real l : List Bytes}

theorem mem_canon {paths : List (PathBuf Bytes)} (h : p ∈ paths.map (canon host)) :
    ∃ r ∈ paths, ((host.canonicalize r).isSome → host.canonicalize r = some p) := by
  have ⟨r, hr, hc⟩ := List.mem_map.mp h
  refine ⟨r, hr, fun hs => ?_⟩
  have ⟨q, hq⟩ := Option.isSome_iff_exists.mp hs
  rw [canon, hq, Option.getD_some] at hc
  rw [hq, hc]

-- A location is allowed if it is below a root's own location, and not below a denied one's.
theorem allows_ofLocation
    (exist : ∀ d ∈ deny, (host.canonicalize d).isSome)
    (under : ∃ r ∈ roots, ∃ b, host.canonicalize r = some (.ofLocation b) ∧ b <+: l)
    (clear : ∀ d ∈ deny, ∀ b, host.canonicalize d = some (.ofLocation b) → ¬b <+: l) :
    (new host roots deny).Allows (.ofLocation l) := by
  constructor
  case left =>
    obtain ⟨r, hr, b, hb, hl⟩ := under
    refine ⟨.ofLocation b, List.mem_map.mpr ⟨r, hr, by rw [canon, hb, Option.getD_some]⟩, isUnder_iff.mpr ?_⟩
    obtain ⟨e, he⟩ := hl
    exact ⟨e.map .name, by rw [← he, PathBuf.ofLocation_append]⟩
  case right =>
    intro p hp hu
    obtain ⟨d, hd, hc⟩ := mem_canon hp
    have hc := hc (exist d hd)
    obtain ⟨b, hb, _, _⟩ := Host.canonicalize_settled hc
    subst hb
    obtain ⟨b', he, hl⟩ := PathBuf.prefix_ofLocation (isUnder_iff.mp hu) (by simp [PathBuf.ofLocation])
    cases PathBuf.ofLocation_injective he
    exact clear d hd b hc hl

-- Nothing is refused without need: what exists, or is still to be made in a place that is allowed, is
-- approved as the location it leads to.
theorem check_complete
    (exist    : ∀ d ∈ deny, (host.canonicalize d).isSome)
    (joined   : joinLikeUpstream (new host roots deny).root requested = .ofLocation (a ++ t))
    (resolves : host.realpath (.ofLocation a) = .ok real)
    (missing  : ∀ n t', t = n :: t' → host.fs.node (real ++ [n]) = none)
    (under    : ∃ r ∈ roots, ∃ b, host.canonicalize r = some (.ofLocation b) ∧ b <+: real ++ t)
    (clear    : ∀ d ∈ deny, ∀ b, host.canonicalize d = some (.ofLocation b) → ¬b <+: real ++ t) :
    (new host roots deny).check host requested = .ok (.ofLocation (real ++ t)) := by
  have ⟨a', t', real', d, hc⟩ := Host.canonicalizeDeepest_spec host (a ++ t)
  obtain ⟨rfl, rfl, rfl⟩ := (Host.deepest_of_missing resolves missing).unique d
  rw [check_ok_iff, joined]
  exact ⟨hc, allows_ofLocation exist under clear⟩

-- A symlink `/d` to the directory `/data`, in which one directory is denied.
def linked : Host Unit where
  fs    := FileSystem.empty
    |>.put [] (utf8 "data".toList) .dir
    |>.put [utf8 "data".toList] (utf8 "keys".toList) .dir
    |>.put [] (utf8 "d".toList) (.link <| .ofString "/data")
  cwd   := []
  links := 40

theorem linked_check : (new linked [.ofString "/data"] [.ofString "/data/keys"]).check linked "/d/new/../logs/today" =
    .ok (.ofLocation [utf8 "data".toList, utf8 "logs".toList, utf8 "today".toList]) := by
  have joined : joinLikeUpstream (new linked [.ofString "/data"] [.ofString "/data/keys"]).root "/d/new/../logs/today" =
      .ofLocation ([utf8 "d".toList] ++ [utf8 "logs".toList, utf8 "today".toList]) := by decide
  have resolves : linked.realpath (.ofLocation [utf8 "d".toList]) = .ok [utf8 "data".toList] := by decide
  have hd : linked.canonicalize (.ofString "/data") = some (.ofLocation [utf8 "data".toList]) := by decide
  have hk : linked.canonicalize (.ofString "/data/keys") =
      some (.ofLocation [utf8 "data".toList, utf8 "keys".toList]) := by decide
  refine check_complete (by decide) joined resolves ?missing ⟨_, .head _, _, hd, by decide⟩ ?clear
  case missing => rintro n t' ⟨⟩; decide
  case clear   =>
    intro d hd b hb
    cases List.mem_singleton.mp hd
    cases PathBuf.ofLocation_injective <| Option.some.inj <| hk.symm.trans hb
    decide

end PathGate
