import ZyrisDocker.Lib.FileSystem
import ZyrisDocker.Lib.Words

-- Paths as bytes: which paths are read back as they were written.

open Text Component

namespace Text

-- Between ASCII separators, text stays text.
theorem isUtf8_of_mem_splitOn {x : UInt8} {bs s : Bytes} (hx : x < 0x80) (h : IsUtf8 bs) (hs : s ∈ bs.splitOn x) :
    IsUtf8 s := by
  induction hn : bs.length using Nat.strong_induction_on generalizing bs
  case h n ih =>
    by_cases hm : x ∈ bs
    case neg =>
      rw [List.splitOn_eq_singleton hm, List.mem_singleton] at hs
      exact hs ▸ h
    case pos =>
      obtain ⟨l, r, rfl, hl⟩ := List.eq_append_cons_of_mem hm
      have ⟨h₁, h₂⟩ := isUtf8_append_cons_iff hx |>.mp h
      rw [List.splitOn_append_cons_self_of_not_mem hl] at hs
      rcases List.mem_cons.mp hs with rfl | hs
      · exact h₁
      · refine ih r.length ?_ h₂ hs rfl
        simp only [← hn, List.length_append, List.length_cons]
        omega

end Text

namespace PathBuf

-- The names that an entry of a directory can have.
structure IsName (n : Bytes) : Prop where
  ne_nil   : n ≠ []
  ne_dot   : n ≠ [dot]
  ne_up    : n ≠ [dot, dot]
  no_slash : slash ∉ n

variable {l : List Bytes} {n bs : Bytes}

theorem segment_eq_name (h : segment first bs = some (name n)) : n = bs ∧ n ≠ [] ∧ n ≠ [dot] ∧ n ≠ [dot, dot] := by
  simp only [segment] at h
  split at h
  case h_1 | h_3 => cases h
  case h_2       => split at h <;> cases h
  case h_4       => cases h; exact ⟨rfl, by assumption, by assumption, by assumption⟩

theorem segment_of_isName (h : IsName n) : segment first n = some (name n) := by
  simp only [segment]
  split
  · exact absurd rfl h.ne_nil
  · exact absurd rfl h.ne_dot
  · exact absurd rfl h.ne_up
  · rfl

theorem splitOn_slash_cons : (slash :: bs).splitOn slash = [] :: bs.splitOn slash := by
  simp [List.splitOn_cons_eq_if_modifyHead]

-- Every name of a path that was read is one of the segments.
theorem mem_splitOn_of_mem_parse (h : name n ∈ parse bs) :
    n ∈ bs.splitOn slash ∧ n ≠ [] ∧ n ≠ [dot] ∧ n ≠ [dot, dot] := by
  have hf {ss : List Bytes} (h : name n ∈ ss.filterMap (segment false)) : n ∈ ss ∧ n ≠ [] ∧ n ≠ [dot] ∧ n ≠ [dot, dot] := by
    have ⟨s, hs, hn⟩ := List.mem_filterMap.mp h
    have ⟨he, hn⟩ := segment_eq_name hn
    exact ⟨he ▸ hs, hn⟩
  rw [parse.eq_def] at h
  split at h
  case h_1 rest =>
    obtain ⟨hs, hn⟩ := hf <| (List.mem_cons.mp h).resolve_left nofun
    exact ⟨splitOn_slash_cons ▸ .tail _ hs, hn⟩
  case h_2 =>
    obtain ⟨s, ss, he⟩ := List.exists_cons_of_ne_nil <| List.splitOn_ne_nil slash bs
    rw [he, segments] at h
    rw [he]
    rcases List.mem_append.mp h with h | h
    · obtain ⟨hs, hn⟩ := segment_eq_name <| Option.mem_toList.mp h
      exact ⟨hs ▸ .head _, hn⟩
    · obtain ⟨hs, hn⟩ := hf h
      exact ⟨.tail _ hs, hn⟩

theorem isName_of_mem_parse (h : name n ∈ parse bs) : IsName n := by
  have ⟨hs, h₁, h₂, h₃⟩ := mem_splitOn_of_mem_parse h
  refine ⟨h₁, h₂, h₃, fun hm => ?_⟩
  rw [List.splitOn_eq_splitOnP] at hs
  simpa using no_sep_of_mem_splitOnP hs slash hm

theorem isUtf8_of_mem_parse (h : name n ∈ parse bs) (hu : IsUtf8 bs) : IsUtf8 n :=
  isUtf8_of_mem_splitOn (by decide : slash < 0x80) hu (mem_splitOn_of_mem_parse h).1

-- A name is read as one component.
theorem parse_of_isName (h : IsName n) : parse n = [name n] := by
  have hs : n.splitOn slash = [n] := List.splitOn_eq_singleton h.no_slash
  rw [parse.eq_def]
  split
  case h_1 => exact absurd (.head _) h.no_slash
  case h_2 => rw [hs, segments, segment_of_isName h]; rfl

theorem exists_map_name {p : PathBuf Bytes} (h : ∀ c ∈ p, ∃ n, c = name n) : ∃ l : List Bytes, p = l.map name := by
  induction p
  case nil         => exact ⟨[], rfl⟩
  case cons c p ih =>
    have ⟨⟨n, hn⟩, h⟩ := List.forall_mem_cons.mp h
    have ⟨l, hl⟩ := ih h
    exact ⟨n :: l, by rw [hn, hl, List.map_cons]⟩

theorem segment_cases (h : segment first bs = some c) : (first ∧ c = cur) ∨ c = up ∨ ∃ n, c = name n := by
  simp only [segment] at h
  split at h
  case h_1 => cases h
  case h_2 => split at h <;> cases h; exact .inl ⟨‹_›, rfl⟩
  case h_3 => cases h; exact .inr (.inl rfl)
  case h_4 => cases h; exact .inr (.inr ⟨_, rfl⟩)

theorem root_not_mem_segments (ss : List Bytes) : root ∉ segments ss := by
  have hs {first : Bool} {s : Bytes} : segment first s ≠ some root := fun h => by simpa using segment_cases h
  cases ss
  case nil       => nofun
  case cons s ss =>
    intro h
    rcases List.mem_append.mp h with h | h
    · exact hs (Option.mem_toList.mp h)
    · have ⟨_, _, h⟩ := List.mem_filterMap.mp h
      exact hs h

-- An absolute path without `..` is that of a location.
theorem parse_location (absolute : (parse bs).hasRoot) (h : up ∉ parse bs) : ∃ l, parse bs = ofLocation l := by
  rw [parse.eq_def] at absolute h ⊢
  split at absolute
  case h_2      =>
    have ⟨_, hp⟩ := hasRoot_iff.mp absolute
    exact absurd (hp ▸ List.mem_cons_self) (root_not_mem_segments (bs.splitOn slash))
  case h_1 rest =>
    have ⟨l, hl⟩ : ∃ l : List Bytes, (rest.splitOn slash).filterMap (segment false) = l.map name := by
      refine exists_map_name fun c hc => ?_
      have ⟨s, _, hs⟩ := List.mem_filterMap.mp hc
      rcases segment_cases hs with ⟨hf, _⟩ | rfl | hn
      · exact nomatch hf
      · exact absurd (.tail _ hc) h
      · exact hn
    exact ⟨l, congrArg _ hl⟩

theorem bytes_ofLocation (l : List Bytes) : (ofLocation l).bytes = slash :: [slash].intercalate l := by
  cases l
  case nil       => rfl
  case cons n l  =>
    have hm : ((n :: l).map name).map segmentBytes = n :: l := by simp [Function.comp_def, segmentBytes]
    change [slash].intercalate ([] :: ((n :: l).map name).map segmentBytes) = _
    rw [hm, List.intercalate_cons_cons]
    rfl

-- An absolute path is read back as it was written.
theorem parse_bytes (h : ∀ n ∈ l, IsName n) : parse (ofLocation l).bytes = ofLocation l := by
  have hf : l.filterMap (segment false) = l.map name := by
    rw [← List.filterMap_eq_map]
    exact List.filterMap_congr fun n hn => segment_of_isName (h n hn)
  rw [bytes_ofLocation]
  change root :: (([slash].intercalate l).splitOn slash).filterMap (segment false) = root :: _
  cases l
  case nil  => rfl
  case cons => rw [List.splitOn_intercalate slash (fun n hn => (h n hn).no_slash) (List.cons_ne_nil _ _), hf]

theorem isUtf8_intercalate (h : ∀ n ∈ l, IsUtf8 n) : IsUtf8 ([slash].intercalate l) := by
  induction l
  case nil         => decide
  case cons n l ih =>
    cases l
    case nil  => simpa using h n
    case cons =>
      rw [List.intercalate_cons_cons, List.append_assoc]
      exact (isUtf8_append_cons_iff (by decide : slash < 0x80)).mpr
        ⟨h n (.head _), ih fun m hm => h m (.tail _ hm)⟩

-- A path that consists of text is shown as it is.
theorem isUtf8_bytes (h : ∀ n ∈ l, IsUtf8 n) : IsUtf8 (ofLocation l).bytes := by
  rw [bytes_ofLocation]
  exact (isUtf8_append_cons_iff (by decide : slash < 0x80) (l := [])).mpr ⟨by decide, isUtf8_intercalate h⟩

theorem ofString_display (h : ∀ n ∈ l, IsName n) (hu : ∀ n ∈ l, IsUtf8 n) :
    ofString (ofLocation l).display = ofLocation l := by
  rw [ofString, display, String.toList_ofList, isUtf8_bytes hu, parse_bytes h]

-- Whatever is shown of an absolute path, it is an absolute path.
theorem hasRoot_ofString_display (l : List Bytes) : (ofString (ofLocation l).display).hasRoot := by
  have hs : fromUtf8Lossy (slash :: [slash].intercalate l) = '/' :: fromUtf8Lossy ([slash].intercalate l) :=
    fromUtf8Lossy_append '/' _
  rw [ofString, display, String.toList_ofList, bytes_ofLocation, hs]
  rfl

theorem isUtf8_of_mem_ofString {s : String} (h : name n ∈ ofString s) : IsUtf8 n :=
  isUtf8_of_mem_parse h isUtf8_utf8

end PathBuf

namespace FileSystem

-- Every entry has a name that an entry of a directory can have.
def Named (fs : FileSystem Bytes κ) : Prop :=
  ∀ l, fs.node l ≠ none → ∀ n ∈ l, PathBuf.IsName n

theorem Named.empty : (empty : FileSystem Bytes κ).Named := by
  intro l h n hn
  simp only [FileSystem.empty] at h
  split at h
  case isTrue hl => simp [hl] at hn
  case isFalse   => exact absurd rfl h

theorem Named.put {fs : FileSystem Bytes κ} (h : fs.Named) (hn : PathBuf.IsName n) : (fs.put l n x).Named := by
  intro l' hl m hm
  by_cases hc : (fs.put l n x).node l' = fs.node l'
  case pos => exact h l' (hc ▸ hl) m hm
  case neg =>
    have he : l' = l ++ [n] := put_changesOnly fs l n x l' hc
    by_cases hp : fs.isDir l
    case pos =>
      rcases List.mem_append.mp (he ▸ hm) with hm | hm
      · exact h l (ne_none <| isDir_iff.mp hp) m hm
      · exact List.mem_singleton.mp hm ▸ hn
    case neg =>
      refine absurd ?_ hc
      rw [FileSystem.put, dif_neg fun h => hp h.1]

end FileSystem
