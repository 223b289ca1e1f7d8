import ZyrisDocker.Gate.Theorems.Check

open Text

namespace Host

variable {host : Host κ} {l t real place : List Bytes}

theorem openCreate_settled (h : host.fs.Settled l) : host.openCreate (.ofLocation l) = .ok l :=
  FileSystem.walk_settled h

-- Below a directory, opening starts with the first name that follows.
theorem openCreate_below (h : host.fs.node l = some .dir) :
    host.openCreate (.ofLocation (l ++ t)) = host.fs.openCreate host.links (t.map .name) l := by
  rw [PathBuf.ofLocation_append]
  simp only [openCreate, FileSystem.openCreate, FileSystem.walk_eq, PathBuf.ofLocation, List.cons_append, FileSystem.go]
  exact FileSystem.go_dir (l := []) h

-- There is nothing below a file.
theorem openCreate_file (h : host.fs.node l = some (.file d)) :
    host.openCreate (.ofLocation (l ++ n :: t)) = .error .notDir := by
  cases l using List.reverseRecOn
  case nil                => simp [host.fs.root] at h
  case append_singleton l m _ =>
    rw [PathBuf.ofLocation_append]
    simp only [openCreate, FileSystem.openCreate, FileSystem.walk_eq, PathBuf.ofLocation, List.cons_append, FileSystem.go]
    simpa using FileSystem.go_file (p := (n :: t).map Component.name) (l := []) h

-- A missing name can be created as the last one only.
theorem openCreate_missing (h : host.fs.node (l ++ [n]) = none)
    (ho : host.fs.openCreate k ((n :: t).map .name) l = .ok place) : t = [] ∧ place = l ++ [n] := by
  simp only [FileSystem.openCreate, FileSystem.walk_eq, List.map_cons, FileSystem.go, h] at ho
  cases t
  case nil  => cases ho; exact ⟨rfl, rfl⟩
  case cons => cases ho

-- An entry in the way of a location's resolution is missing or a symlink.
theorem Deepest.stuck_cases (d : Deepest host l a (n :: t) real) :
    host.fs.node (real ++ [n]) = none ∨ ∃ target, host.fs.node (real ++ [n]) = some (.link target) := by
  have settled (hs : host.fs.Settled (real ++ [n])) : False := by
    have hr := canonicalize_ofLocation_iff.mp d.resolves
    have h : host.realpath (.ofLocation (a ++ [n])) = .ok (real ++ [n]) := by
      rw [PathBuf.ofLocation_append]
      exact FileSystem.realpath_snoc hr hs
    exact nomatch (d.stuck rfl).symm.trans <| canonicalize_ofLocation_iff.mpr h
  match h : host.fs.node (real ++ [n]) with
  | none             => exact .inl rfl
  | some (.link t)   => exact .inr ⟨t, rfl⟩
  | some .dir        => exact (settled <| .inl h).elim
  | some (.file _)   => exact (settled <| .inr ⟨_, h⟩).elim

end Host

namespace PathGate

variable {host : Host κ} {gate : PathGate} {roots deny : List (PathBuf Bytes)} {p : PathBuf Bytes}

-- The first component of a request that does not resolve is a symlink, and opening or creating the rest
-- of the request through it leads to where the gate allows nothing.
inductive Escapes (gate : PathGate) (host : Host κ) (requested : String) : Prop
  | intro
    (joined  : joinLikeUpstream gate.root requested = .ofLocation l)
    (stuck   : host.Deepest l a (n :: t) real)
    (link    : host.fs.node (real ++ [n]) = some (.link target))
    (opens   : host.fs.openCreate host.links ((n :: t).map .name) real = .ok place)
    (outside : ¬gate.Allows (.ofLocation place))

-- The symlink is where the rest of the joined path begins.
theorem Escapes.at_deepest (e : Escapes gate host requested) (d : host.Deepest l a t real)
    (joined : joinLikeUpstream gate.root requested = .ofLocation l) :
    ∃ n t', t = n :: t' ∧ (∃ target, host.fs.node (real ++ [n]) = some (.link target)) ∧
      ∃ place, host.fs.openCreate host.links (t.map .name) real = .ok place ∧ ¬gate.Allows (.ofLocation place) := by
  have ⟨joined', d', link, opens, outside⟩ := e
  cases PathBuf.ofLocation_injective <| joined.symm.trans joined'
  have ⟨_, ht, hr⟩ := d.unique d'
  cases ht; cases hr
  exact ⟨_, _, rfl, ⟨_, link⟩, _, opens, outside⟩

theorem check_cases (exist : ∀ r ∈ roots, (host.canonicalize r).isSome)
    (h : (new host roots deny).check host requested = .ok p) :
    ∃ l a t real, joinLikeUpstream (new host roots deny).root requested = .ofLocation l ∧
      host.Deepest l a t real ∧ p = .ofLocation (real ++ t) ∧ (new host roots deny).Allows p := by
  have ⟨_, base, _⟩ := root_ofLocation deny exist
  obtain ⟨_, rfl, ⟨joined, deepest⟩, allowed⟩ := check_eq_ok_iff base |>.mp h
  exact ⟨_, _, _, _, joined, deepest, rfl, allowed⟩

-- What is opened or created at a path which the gate let through is allowed exactly when the request
-- does not escape through a symlink that does not resolve.
theorem opens_allowed_iff (exist : ∀ r ∈ roots, (host.canonicalize r).isSome)
    (h : (new host roots deny).check host requested = .ok p) :
    (∀ place, host.openCreate p = .ok place → (new host roots deny).Allows (.ofLocation place)) ↔
      ¬Escapes (new host roots deny) host requested := by
  have ⟨l, a, t, real, joined, d, hp, ha⟩ := check_cases exist h
  subst hp
  have hs := Host.settled_of_canonicalize d.resolves
  cases t
  case nil =>
    simp only [List.append_nil, Host.openCreate_settled hs] at ha ⊢
    constructor
    case mp  => intro _ e; have ⟨_, _, ht, _⟩ := e.at_deepest d joined; cases ht
    case mpr => intro _ _ ho; cases ho; exact ha
  case cons n t =>
    cases hs
    case inr hf =>
      have ⟨_, hf⟩ := hf
      rw [Host.openCreate_file hf]
      refine ⟨fun _ e => ?_, nofun⟩
      have ⟨_, _, _, ⟨_, link⟩, _⟩ := e.at_deepest d joined
      exact nomatch hf.symm.trans <| host.fs.parent (FileSystem.ne_none link)
    case inl hd =>
      rw [Host.openCreate_below hd]
      constructor
      case mp =>
        intro allowed e
        have ⟨_, _, _, _, _, opens, outside⟩ := e.at_deepest d joined
        exact outside <| allowed _ opens
      case mpr =>
        intro he place opens
        cases d.stuck_cases
        case inl hm =>
          have ⟨ht, hp⟩ := Host.openCreate_missing hm opens
          simpa [ht, hp] using ha
        case inr hl =>
          have ⟨_, link⟩ := hl
          exact Classical.byContradiction fun outside => he ⟨joined, d, link, opens, outside⟩

-- A symlink `/data/motd` to a file that is missing in the existing directory `/etc`.
def dangling : Host Unit where
  fs    := FileSystem.empty
    |>.put [] (utf8 "data".toList) .dir
    |>.put [] (utf8 "etc".toList) .dir
    |>.put [utf8 "data".toList] (utf8 "motd".toList) (.link <| .ofString "/etc/motd")
  cwd   := []
  links := 40

theorem dangling_check (h : s = "motd" ∨ s = "new") :
    (new dangling [.ofString "/data"] []).check dangling s =
      .ok (.ofLocation [utf8 "data".toList, utf8 s.toList]) := by
  rw [check_ok_iff]
  cases h <;> subst s <;> decide

theorem not_opens_allowed :
    ¬∀ (host : Host Unit) roots deny requested p place,
      (∀ r ∈ roots, (host.canonicalize r).isSome) →
      (∀ d ∈ deny, (host.canonicalize d).isSome) →
      (new host roots deny).check host requested = .ok p →
      host.openCreate p = .ok place → (new host roots deny).Allows (.ofLocation place) := by
  intro h
  have created : dangling.openCreate (.ofLocation [utf8 "data".toList, utf8 "motd".toList]) =
      .ok [utf8 "etc".toList, utf8 "motd".toList] := by decide
  have allowed := h dangling [.ofString "/data"] [] "motd" _ _ (by decide) (by simp) (dangling_check (by simp)) created
  exact absurd allowed (by decide)

theorem opens_allowed_iff_new :
    (∀ place,
      dangling.openCreate (.ofLocation [utf8 "data".toList, utf8 "new".toList]) = .ok place →
      (new dangling [.ofString "/data"] []).Allows (.ofLocation place)) ↔
    ¬Escapes (new dangling [.ofString "/data"] []) dangling "new" :=
  opens_allowed_iff (by decide) (dangling_check (by simp))

end PathGate
