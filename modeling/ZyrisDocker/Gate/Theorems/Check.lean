import ZyrisDocker.Gate.Basic
import ZyrisDocker.Lib.Names

open Text Component

theorem isUnder_iff {p base : PathBuf Bytes} : isUnder p base ↔ base <+: p := by
  simp only [isUnder, PathBuf.startsWith, Bool.or_eq_true, decide_eq_true_eq, List.isPrefixOf_iff_prefix]
  exact ⟨fun h => h.elim (fun h => h ▸ List.prefix_rfl) id, .inr⟩

namespace Host

variable {host : Host κ} {l l' a a' t t' : List Bytes} {p q : PathBuf Bytes} {n n' : Bytes}

theorem realpath_absolute (h : p.hasRoot) : host.realpath p = host.fs.realpath host.links p [] := by
  have ⟨_, hp⟩ := PathBuf.hasRoot_iff.mp h
  simp [hp, realpath, FileSystem.realpath, FileSystem.walk_eq, FileSystem.go]

theorem canonicalize_eq (h : p.hasRoot) : host.canonicalize p = (host.realpath p |>.toOption.map PathBuf.ofLocation) := by
  have hp : p ≠ [] := fun hp => by simp [hp, PathBuf.hasRoot] at h
  simp [canonicalize, h, hp]

theorem canonicalize_ofLocation_iff :
    host.canonicalize (.ofLocation a) = some (.ofLocation l) ↔ host.realpath (.ofLocation a) = .ok l := by
  rw [canonicalize_eq rfl]
  cases host.realpath (.ofLocation a) <;> simp [Except.toOption]
  exact ⟨PathBuf.ofLocation_injective, congrArg _⟩

-- A canonical path names a directory or a file, without going through a symlink.
theorem canonicalize_settled (h : host.canonicalize p = some q) :
    ∃ l, q = .ofLocation l ∧ host.fs.Settled l ∧ host.realpath p = .ok l := by
  simp only [canonicalize] at h
  split at h
  case isTrue    => cases h
  case isFalse c =>
    have ⟨l, hl, he⟩ := Option.map_eq_some_iff.mp h
    have hr : host.realpath p = .ok l := by
      cases hr : host.realpath p <;> simp_all [Except.toOption]
    refine ⟨l, he.symm, ?_, hr⟩
    cases ha : p.hasRoot
    case true  => exact FileSystem.realpath_settled host.fs.root (realpath_absolute ha ▸ hr)
    case false =>
      have hc : host.fs.isDir host.cwd := by simp_all
      exact FileSystem.realpath_settled (FileSystem.isDir_iff.mp hc) hr

theorem settled_of_canonicalize (h : host.canonicalize p = some (.ofLocation l)) : host.fs.Settled l := by
  have ⟨_, he, hs, _⟩ := canonicalize_settled h
  exact PathBuf.ofLocation_injective he ▸ hs

theorem canonicalize_eq_none (h : ∀ l, host.realpath p ≠ .ok l) : host.canonicalize p = none := by
  rw [Option.eq_none_iff_forall_ne_some]
  intro q hq
  have ⟨l, _, _, hr⟩ := canonicalize_settled hq
  exact h l hr

theorem canonicalize_prefix (h : host.canonicalize (.ofLocation (a ++ t)) = some q) :
    ∃ l, host.canonicalize (.ofLocation a) = some (.ofLocation l) := by
  have ⟨_, _, _, hr⟩ := canonicalize_settled h
  rw [realpath_absolute rfl, PathBuf.ofLocation_append] at hr
  have ⟨l, hl⟩ := FileSystem.realpath_prefix hr
  exact ⟨l, canonicalize_ofLocation_iff.mpr <| (realpath_absolute rfl).trans hl⟩

-- What goes on from a path that does not resolve does not resolve either.
theorem canonicalize_append_none (hp : p ≠ []) (h : host.canonicalize p = none) : host.canonicalize (p ++ q) = none := by
  rw [Option.eq_none_iff_forall_ne_some]
  intro r hr
  have ⟨l, _, _, hl⟩ := canonicalize_settled hr
  have ⟨m, hm⟩ := FileSystem.realpath_prefix hl
  have hroot : (p ++ q).hasRoot = p.hasRoot := by
    cases p
    case nil  => exact absurd rfl hp
    case cons => rfl
  simp only [canonicalize, hroot, List.append_eq_nil_iff] at hr h
  split at hr
  case isTrue    => cases hr
  case isFalse c =>
    rw [if_neg (fun hc => c <| hc.imp (fun he => absurd he hp) id)] at h
    simp [realpath, hm, Except.toOption] at h

-- The longest part `a` of a location that resolves, to `real`, and the rest `t`.
structure Deepest (host : Host κ) (l a t real : List Bytes) : Prop where
  split    : l = a ++ t
  resolves : host.canonicalize (.ofLocation a) = some (.ofLocation real)
  stuck    : ∀ {n t'}, t = n :: t' → host.canonicalize (.ofLocation (a ++ [n])) = none

namespace Deepest

variable {real real' : List Bytes}

theorem prefix_le (d : Deepest host l a t real) (d' : Deepest host l a' t' real') : a' <+: a := by
  have h := d.split.symm.trans d'.split
  cases List.append_eq_append_iff.mp h
  case inr h => have ⟨b, hb, _⟩ := h; exact ⟨b, hb.symm⟩
  case inl h =>
    have ⟨b, hb, ht⟩ := h
    cases b
    case nil       => simp [hb]
    case cons n b  =>
      have hr := d'.resolves
      rw [hb, List.append_cons] at hr
      have ⟨_, hr⟩ := canonicalize_prefix hr
      exact nomatch (d.stuck ht).symm.trans hr

theorem unique (d : Deepest host l a t real) (d' : Deepest host l a' t' real') : a = a' ∧ t = t' ∧ real = real' := by
  have ha : a = a' := (d'.prefix_le d).eq_of_length_le (d.prefix_le d').length_le
  subst ha
  refine ⟨rfl, List.append_cancel_left <| d.split.symm.trans d'.split, ?_⟩
  exact PathBuf.ofLocation_injective <| Option.some.inj <| d.resolves.symm.trans d'.resolves

-- What a location resolves to has the names of entries, and from there on its own.
theorem isName (d : Deepest host l a t real) (names : host.fs.Named) (hl : ∀ n ∈ t, PathBuf.IsName n) :
    ∀ n ∈ real ++ t, PathBuf.IsName n := by
  intro n hn
  rcases List.mem_append.mp hn with hn | hn
  · exact names _ (settled_of_canonicalize d.resolves).ne_none n hn
  · exact hl n hn

end Deepest

theorem canonicalizeDeepestLoop_resolves (h : host.canonicalize p = some q) :
    canonicalizeDeepestLoop host path p.reverse t = q ++ t.map Component.name := by
  rw [canonicalizeDeepestLoop.eq_def, List.reverse_reverse, h]

theorem canonicalizeDeepestLoop_stuck (h : host.canonicalize (p ++ [Component.name n]) = none) :
    canonicalizeDeepestLoop host path (p ++ [Component.name n]).reverse t =
      canonicalizeDeepestLoop host path p.reverse (n :: t) := by
  rw [canonicalizeDeepestLoop.eq_def, List.reverse_reverse, h]
  simp

theorem canonicalizeDeepestLoop_spec (path : PathBuf Bytes) (hl : l = a ++ t)
    (hs : ∀ {n t'}, t = n :: t' → host.canonicalize (.ofLocation (a ++ [n])) = none) :
    ∃ a' t' real, host.Deepest l a' t' real ∧
      canonicalizeDeepestLoop host path (PathBuf.ofLocation a).reverse t = .ofLocation (real ++ t') := by
  induction a using List.reverseRecOn generalizing t
  case nil =>
    have hr : host.canonicalize (.ofLocation []) = some (.ofLocation []) :=
      canonicalize_ofLocation_iff.mpr <| FileSystem.walk_settled (.inl host.fs.root)
    refine ⟨[], t, [], ⟨hl, hr, hs⟩, ?_⟩
    exact (canonicalizeDeepestLoop_resolves hr).trans PathBuf.ofLocation_append.symm
  case append_singleton a n ih =>
    cases hr : host.canonicalize (.ofLocation (a ++ [n]))
    case none =>
      have ⟨a', t', real, d, h⟩ := @ih (n :: t) (by simp [hl]) (by simp [hr])
      refine ⟨a', t', real, d, ?_⟩
      rw [PathBuf.ofLocation_append] at hr ⊢
      exact (canonicalizeDeepestLoop_stuck hr).trans h
    case some q =>
      have ⟨real, hq, _, _⟩ := canonicalize_settled hr
      refine ⟨a ++ [n], t, real, ⟨hl, hq ▸ hr, hs⟩, ?_⟩
      subst hq
      exact (canonicalizeDeepestLoop_resolves hr).trans PathBuf.ofLocation_append.symm

-- A path leads to where the deepest part of it that exists resolves to, and from there on by the names that
-- are left.
inductive Leads (host : Host κ) (path : PathBuf Bytes) : List Bytes → Prop
  | intro (split : path = existing ++ tail.map .name) (resolves : host.canonicalize existing = some (.ofLocation real))
    (stuck : ∀ {n t'}, tail = n :: t' → host.canonicalize (existing ++ [.name n]) = none) : Leads host path (real ++ tail)

namespace Leads

theorem of_resolves (h : host.canonicalize p = some (.ofLocation l)) : host.Leads p l := by
  have leads : host.Leads p (l ++ []) := .intro (by simp) h (by simp)
  rwa [List.append_nil] at leads

theorem of_deepest (d : host.Deepest l a t real) : host.Leads (.ofLocation l) (real ++ t) :=
  .intro (by rw [d.split, PathBuf.ofLocation_append]) d.resolves fun h => by
    rw [← d.stuck h, PathBuf.ofLocation_append]
    rfl

theorem deepest (h : host.Leads p l) : canonicalizeDeepest host p = .ofLocation l := by
  obtain @⟨existing, real, t, split, resolves, stuck⟩ := h
  -- From the whole path on, one name after the other is given up.
  have leads (t₁ t₂ : List Bytes) (ht : t = t₁ ++ t₂) :
      canonicalizeDeepestLoop host (existing ++ t.map name) (existing ++ t₁.map name).reverse t₂ = .ofLocation (real ++ t) := by
    induction t₁ using List.reverseRecOn generalizing t₂
    case nil =>
      rw [List.map_nil, List.append_nil, canonicalizeDeepestLoop_resolves resolves, ht, List.nil_append,
        PathBuf.ofLocation_append]
    case append_singleton t₁ n ih =>
      have missing : host.canonicalize (existing ++ t₁.map .name ++ [.name n]) = none := by
        cases t₁
        case nil       => simpa using @stuck n t₂ (by simpa using ht)
        case cons m t₁ =>
          have hm := @stuck m (t₁ ++ n :: t₂) (by simpa using ht)
          have hp := canonicalize_append_none (q := t₁.map .name ++ [.name n]) (by simp) hm
          simpa using hp
      rw [List.map_append, ← List.append_assoc]
      exact (canonicalizeDeepestLoop_stuck missing).trans <| ih (n :: t₂) (by simpa using ht)
  have h := leads t [] (by simp)
  rw [canonicalizeDeepest, split]
  exact h

end Leads

theorem canonicalizeDeepest_spec (host : Host κ) (l : List Bytes) :
    ∃ a t real, host.Deepest l a t real ∧ canonicalizeDeepest host (.ofLocation l) = .ofLocation (real ++ t) :=
  canonicalizeDeepestLoop_spec _ (by simp) nofun

end Host

-- Joining keeps to absolute paths without `..`: it is the lexical normalisation.
theorem joinComponent_ofLocation (c : Component Bytes) (l : List Bytes) :
    joinComponent (.ofLocation l) c = .ofLocation (PathBuf.normalize l [c]) := by
  cases c
  case root | cur => rfl
  case name n     => simp [joinComponent, PathBuf.normalize, PathBuf.ofLocation]
  case up         =>
    cases l using List.reverseRecOn
    case nil              => rfl
    case append_singleton => simp [joinComponent, PathBuf.normalize]

theorem foldl_joinComponent_ofLocation (p : PathBuf Bytes) (l : List Bytes) :
    p.foldl joinComponent (.ofLocation l) = .ofLocation (PathBuf.normalize l p) := by
  induction p generalizing l
  case nil         => rfl
  case cons c p ih =>
    rw [List.foldl_cons, joinComponent_ofLocation, ih]
    cases c <;> rfl

-- It does not matter what an absolute path is joined to.
theorem joinLikeUpstream_eq {root : PathBuf Bytes} {path : String}
    (h : root = .ofLocation l ∨ (PathBuf.ofString path).hasRoot) :
    joinLikeUpstream root path = .ofLocation (PathBuf.normalize root.names (.ofString path)) := by
  cases hr : (PathBuf.ofString path).hasRoot
  case false =>
    obtain rfl := h.resolve_right (by simp [hr])
    rw [joinLikeUpstream, hr, PathBuf.names_ofLocation]
    exact foldl_joinComponent_ofLocation _ _
  case true =>
    have ⟨p, hp⟩ := PathBuf.hasRoot_iff.mp hr
    rw [joinLikeUpstream, hr, hp]
    exact foldl_joinComponent_ofLocation p []

theorem joinLikeUpstream_ofLocation (l : List Bytes) (path : String) :
    joinLikeUpstream (.ofLocation l) path = .ofLocation (PathBuf.normalize l (.ofString path)) := by
  rw [joinLikeUpstream_eq (.inl rfl), PathBuf.names_ofLocation]

-- Joining brings in no other names than those of its parts.

theorem name_mem_joinComponent {out : PathBuf Bytes} (h : name n ∈ joinComponent out c) : name n ∈ out ∨ name n = c := by
  cases c
  case root => simp [joinComponent] at h
  case cur  => exact .inl h
  case name => simpa [joinComponent] using h
  case up   =>
    simp only [joinComponent] at h
    split at h
    case h_1 hp =>
      simp only [PathBuf.pop] at hp
      split at hp <;> cases hp
      exact .inl <| List.dropLast_subset _ h
    case h_2 => split at h <;> simp_all

theorem name_mem_foldl_joinComponent {p out : PathBuf Bytes} (h : name n ∈ p.foldl joinComponent out) :
    name n ∈ out ∨ name n ∈ p := by
  induction p generalizing out
  case nil       => exact .inl h
  case cons c p ih =>
    rcases ih h with h | h
    · exact (name_mem_joinComponent h).imp_right (by rintro rfl; exact .head _)
    · exact .inr (.tail _ h)

theorem name_mem_joinLikeUpstream {root : PathBuf Bytes} {path : String} (h : name n ∈ joinLikeUpstream root path) :
    name n ∈ root ∨ name n ∈ PathBuf.ofString path := by
  simp only [joinLikeUpstream] at h
  split at h
  case isTrue  => exact .inr <| (name_mem_foldl_joinComponent h).resolve_left nofun
  case isFalse => exact name_mem_foldl_joinComponent h

theorem name_mem_joinLikeUpstream_absolute {root : PathBuf Bytes} {path : String} (ha : (PathBuf.ofString path).hasRoot)
    (h : name n ∈ joinLikeUpstream root path) : name n ∈ PathBuf.ofString path := by
  rw [joinLikeUpstream, if_pos ha] at h
  exact (name_mem_foldl_joinComponent h).resolve_left nofun

theorem foldl_joinComponent_names (p : PathBuf Bytes) (l : List Bytes) :
    (l.map name).foldl joinComponent p = p ++ l.map name := by
  induction l generalizing p
  case nil         => simp
  case cons n l ih => simp [joinComponent, ih]

theorem joinLikeUpstream_absolute {root : PathBuf Bytes} {path : String} (h : PathBuf.ofString path = .ofLocation l) :
    joinLikeUpstream root path = .ofLocation l := by
  rw [joinLikeUpstream, h]
  exact foldl_joinComponent_names [.root] l

namespace PathGate

variable {host : Host κ} {gate : PathGate} {roots deny : List (PathBuf Bytes)} {p : PathBuf Bytes}

-- The base for relative paths is a directory of its own, when the roots exist.
theorem root_ofLocation (deny : List (PathBuf Bytes)) (h : ∀ r ∈ roots, (host.canonicalize r).isSome) :
    ∃ l, (new host roots deny).root = .ofLocation l ∧ host.fs.Settled l := by
  cases roots
  case nil       => exact ⟨[], rfl, .inl host.fs.root⟩
  case cons r _  =>
    have ⟨q, hq⟩ := Option.isSome_iff_exists.mp <| h r (by simp)
    have ⟨l, hl, hs, _⟩ := Host.canonicalize_settled hq
    exact ⟨l, by simp [new, root, canon, hq, hl], hs⟩

theorem check_ok_iff :
    gate.check host requested = .ok p ↔
      canonicalizeDeepest host (joinLikeUpstream gate.root requested) = p ∧ gate.Allows p := by
  simp only [check, Allows]
  split
  case isTrue h =>
    simp only [List.any_eq_true] at h
    have ⟨d, hd, hu⟩ := h
    refine ⟨nofun, fun h => ?_⟩
    exact absurd (h.1 ▸ hu) (h.2.2 d hd)
  case isFalse hd =>
    simp only [List.any_eq_true, not_exists, not_and] at hd
    split
    case isTrue h =>
      simp only [Bool.not_eq_true', List.any_eq_false] at h
      refine ⟨nofun, fun h' => ?_⟩
      have ⟨r, hr, hu⟩ := h'.2.1
      exact absurd (h'.1 ▸ hu) (h r hr)
    case isFalse h =>
      simp only [Bool.not_eq_true', List.any_eq_false, not_forall, not_not] at h
      have ⟨r, hr, hu⟩ := h
      constructor
      case mp  => intro h; cases h; exact ⟨rfl, ⟨r, hr, hu⟩, hd⟩
      case mpr => intro h; rw [h.1]

theorem not_allows_iff :
    ¬gate.Allows p ↔ (∀ r ∈ gate.roots, ¬isUnder p r) ∨ ∃ d ∈ gate.deny, isUnder p d := by
  rw [Allows, Classical.not_and_iff_not_or_not]
  simp

-- A request leads to where the deepest part of the joined path that exists resolves to, and from there on by
-- the names that are left.
inductive LeadsTo (gate : PathGate) (host : Host κ) (path : String) : List Bytes → Prop
  | intro (joined : joinLikeUpstream gate.root path = .ofLocation l) (deepest : host.Deepest l a t real) :
    LeadsTo gate host path (real ++ t)

variable {path : String} {b l l' : List Bytes}

theorem LeadsTo.unique (h : LeadsTo gate host path l) (h' : LeadsTo gate host path l') : l = l' := by
  obtain ⟨joined, deepest⟩ := h
  obtain ⟨joined', deepest'⟩ := h'
  cases PathBuf.ofLocation_injective <| joined.symm.trans joined'
  have ⟨_, ht, hr⟩ := deepest.unique deepest'
  rw [ht, hr]

theorem LeadsTo.leads (h : LeadsTo gate host path l) : host.Leads (joinLikeUpstream gate.root path) l := by
  obtain ⟨joined, deepest⟩ := h
  exact joined ▸ .of_deepest deepest

theorem LeadsTo.exists (host : Host κ) (path : String) (base : gate.root = .ofLocation b) :
    ∃ l, LeadsTo gate host path l ∧ canonicalizeDeepest host (joinLikeUpstream gate.root path) = .ofLocation l := by
  have joined := joinLikeUpstream_ofLocation b path
  have ⟨a, t, real, deepest, hc⟩ := Host.canonicalizeDeepest_spec host (PathBuf.normalize b (.ofString path))
  rw [← base] at joined
  exact ⟨real ++ t, ⟨joined, deepest⟩, joined ▸ hc⟩

-- What the gate approves is where the request leads, if that is allowed.
theorem check_eq_ok_iff (base : gate.root = .ofLocation b) :
    gate.check host path = .ok p ↔ ∃ l, p = .ofLocation l ∧ LeadsTo gate host path l ∧ gate.Allows p := by
  have ⟨l, leads, hc⟩ := LeadsTo.exists host path base
  rw [check_ok_iff, hc]
  constructor
  case mp  => exact fun ⟨hp, ha⟩ => ⟨l, hp.symm, leads, ha⟩
  case mpr =>
    intro ⟨l', hp, leads', ha⟩
    exact ⟨by rw [hp, leads.unique leads'], ha⟩

theorem LeadsTo.isName (h : LeadsTo gate host path l) (base : gate.root = .ofLocation b)
    (names : host.fs.Named) (hb : ∀ n ∈ b, PathBuf.IsName n) : ∀ n ∈ l, PathBuf.IsName n := by
  obtain ⟨joined, deepest⟩ := h
  refine deepest.isName names fun n hn => ?_
  have hj : name n ∈ joinLikeUpstream gate.root path := by
    rw [joined, deepest.split]
    simp [PathBuf.ofLocation, hn]
  rcases name_mem_joinLikeUpstream hj with hj | hj
  · exact hb n (by simpa [base, PathBuf.ofLocation] using hj)
  · exact PathBuf.isName_of_mem_parse hj

end PathGate
