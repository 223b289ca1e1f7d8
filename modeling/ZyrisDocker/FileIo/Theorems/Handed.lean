import ZyrisDocker.FileIo.Basic
import ZyrisDocker.Gate.Theorems.Check

open Text Component FileIo

namespace GatedFileIo

variable {types : FileTypes} {gate : PathGate} {host built : Host κ} {roots deny : List (PathBuf Bytes)} {path : String}

-- Every method of the layer below gets a string which that layer resolves to the path that the gate approved. When
-- the gate refuses, it makes no difference what the layer below is.
def Hands (gate : PathGate) (host : Host κ) (path : String) : Prop :=
  match gate.check host path with
  | .ok p =>
    ∃ handed, joinLikeUpstream gate.root handed = p ∧
      ∀ {types} (rooted : PathBuf Bytes → FileIo types κ) (method : Method types),
        ((new gate rooted).fileIo host.cwd host.links).answer method path host.fs =
          (rooted gate.root).answer method handed host.fs
  | .error e =>
    ∀ {types} (rooted : PathBuf Bytes → FileIo types κ) (method : Method types),
      ((new gate rooted).fileIo host.cwd host.links).answer method path host.fs = (.error e, host.fs)

theorem answer_ok (h : gate.check host path = .ok p) (rooted : PathBuf Bytes → FileIo types κ) (method : Method types) :
    ((new gate rooted).fileIo host.cwd host.links).answer method path host.fs =
      (rooted gate.root).answer method p.display host.fs := by
  have hk : (new gate rooted).ok host path = .ok p.display := by
    change (gate.check host path).map _ = _
    rw [h]
    rfl
  simp only [answer_eq, gated, hk]
  rfl

theorem answer_error (h : gate.check host path = .error e) (rooted : PathBuf Bytes → FileIo types κ)
    (method : Method types) :
    ((new gate rooted).fileIo host.cwd host.links).answer method path host.fs = (.error e, host.fs) := by
  have hk : (new gate rooted).ok host path = .error e := by
    change (gate.check host path).map _ = _
    rw [h]
    rfl
  simp only [answer_eq, gated, hk]

-- A layer below which shows the string that it gets.
def echo : FileIo types κ where
  stat path           := fun fs => (.error ⟨.internal, path⟩, fs)
  list path           := fun fs => (.error ⟨.internal, path⟩, fs)
  read path _ _       := fun fs => (.error ⟨.internal, path⟩, fs)
  readStream path _ _ := fun fs => (.error ⟨.internal, path⟩, fs)
  write path _ _      := fun fs => (.error ⟨.internal, path⟩, fs)
  remove path _       := fun fs => (.error ⟨.internal, path⟩, fs)
  edit path _ _ _     := fun fs => (.error ⟨.internal, path⟩, fs)
  mkdir path          := fun fs => (.error ⟨.internal, path⟩, fs)

theorem hands_ok_iff (h : gate.check host path = .ok p) :
    Hands gate host path ↔ joinLikeUpstream gate.root p.display = p := by
  simp only [Hands, h]
  constructor
  case mpr => exact fun hp => ⟨p.display, hp, fun rooted method => answer_ok h rooted method⟩
  case mp  =>
    intro ⟨handed, hp, same⟩
    let types : FileTypes := ⟨Unit, Unit, Unit, Unit, Unit, Unit⟩
    have he := same (fun _ => (echo : FileIo types κ)) .stat
    rw [answer_ok h] at he
    have hs : p.display = handed := congrArg WireError.message <| Except.error.inj (Prod.mk.inj he).1
    rwa [hs]

theorem hands_error (h : gate.check host path = .error e) : Hands gate host path := by
  simp only [Hands, h]
  exact fun rooted method => answer_error h rooted method

-- An approved path comes through exactly when it consists of text.
theorem joinLikeUpstream_display_iff (names : ∀ n ∈ l, PathBuf.IsName n) :
    joinLikeUpstream gate.root (PathBuf.ofLocation l).display = .ofLocation l ↔ ∀ n ∈ l, IsUtf8 n := by
  constructor
  case mpr => exact fun ht => joinLikeUpstream_absolute <| PathBuf.ofString_display names ht
  case mp  =>
    intro h n hn
    have hm : name n ∈ joinLikeUpstream gate.root (PathBuf.ofLocation l).display := by
      rw [h]
      simp [PathBuf.ofLocation, hn]
    exact PathBuf.isUtf8_of_mem_ofString <|
      name_mem_joinLikeUpstream_absolute (PathBuf.hasRoot_ofString_display l) hm

-- The gate can have been built when the file system was another one.
theorem hands_iff (exist : ∀ r ∈ roots, (built.canonicalize r).isSome) (named : built.fs.Named)
    (names : host.fs.Named) :
    Hands (.new built roots deny) host path ↔
      ∀ l, (PathGate.new built roots deny).LeadsTo host path l →
        (PathGate.new built roots deny).Allows (.ofLocation l) → ∀ n ∈ l, IsUtf8 n := by
  have ⟨b, base, settled⟩ := PathGate.root_ofLocation deny exist
  cases hc : (PathGate.new built roots deny).check host path
  case error e =>
    refine iff_of_true (hands_error hc) fun l leads allowed => ?_
    exact nomatch hc.symm.trans <| PathGate.check_eq_ok_iff base |>.mpr ⟨l, rfl, leads, allowed⟩
  case ok p =>
    have ⟨l, hp, leads, allowed⟩ := PathGate.check_eq_ok_iff base |>.mp hc
    subst hp
    have hn := leads.isName base names <| named b settled.ne_none
    rw [hands_ok_iff hc, joinLikeUpstream_display_iff hn]
    constructor
    case mp  => exact fun ht l' leads' _ => leads.unique leads' ▸ ht
    case mpr => exact fun ht => ht l leads allowed

-- A symlink `/data/new` to a directory in `/data` whose name is no text.
def latin : Host Unit where
  fs    := FileSystem.empty
    |>.put [] (utf8 "data".toList) .dir
    |>.put [utf8 "data".toList] [0xff] .dir
    |>.put [utf8 "data".toList] (utf8 "new".toList) (.link [.root, .name (utf8 "data".toList), .name [0xff]])
  cwd   := []
  links := 40

theorem latin_named : latin.fs.Named := by
  have text : PathBuf.IsName (utf8 "data".toList) := by constructor <;> decide
  have byte : PathBuf.IsName [0xff] := by constructor <;> decide
  have new  : PathBuf.IsName (utf8 "new".toList) := by constructor <;> decide
  dsimp only [latin]
  exact .put (.put (.put .empty text) byte) new

theorem latin_check :
    (PathGate.new latin [.ofString "/data"] []).check latin "new" = .ok (.ofLocation [utf8 "data".toList, [0xff]]) := by
  rw [PathGate.check_ok_iff]
  decide

theorem latin_not_hands :
    ¬∀ (host : Host Unit) roots deny path, host.fs.Named → (∀ r ∈ roots, (host.canonicalize r).isSome) →
      (∀ d ∈ deny, (host.canonicalize d).isSome) → Hands (.new host roots deny) host path := by
  intro h
  have hands := h latin [.ofString "/data"] [] "new" latin_named (by decide) (by decide)
  rw [hands_ok_iff latin_check] at hands
  exact absurd hands (by decide)

theorem latin_hands_iff :
    Hands (.new latin [.ofString "/data"] []) latin "data" ↔
      ∀ l, (PathGate.new latin [.ofString "/data"] []).LeadsTo latin "data" l →
        (PathGate.new latin [.ofString "/data"] []).Allows (.ofLocation l) → ∀ n ∈ l, IsUtf8 n :=
  hands_iff (by decide) latin_named latin_named

end GatedFileIo
