import ZyrisDocker.Lib.Names
import ZyrisDocker.Runtime.Theorems.FileName
import ZyrisDocker.Runtime.Theorems.Volume

open Text

namespace FileCredentialStore

variable {c : Char} {w cs : List Char} {input : String}

-- What the words of a slug are made of.
def isSlugChar (c : Char) : Bool :=
  c.isLower || c.isDigit

theorem isUpper_iff : c.isUpper ↔ 0x41 ≤ c.toNat ∧ c.toNat ≤ 0x5a :=
  decide_eq_true_iff.trans <| and_congr UInt32.le_iff_toNat_le UInt32.le_iff_toNat_le

theorem isLower_iff : c.isLower ↔ 0x61 ≤ c.toNat ∧ c.toNat ≤ 0x7a :=
  Bool.and_eq_true_iff.trans <| and_congr (decide_eq_true_iff.trans UInt32.le_iff_toNat_le)
    (decide_eq_true_iff.trans UInt32.le_iff_toNat_le)

theorem isSlugChar_iff : isSlugChar c ↔ 0x61 ≤ c.toNat ∧ c.toNat ≤ 0x7a ∨ 0x30 ≤ c.toNat ∧ c.toNat ≤ 0x39 :=
  Bool.or_eq_true_iff.trans <| or_congr isLower_iff Char.isDigit_iff_toNat

theorem isAlphanum_iff : c.isAlphanum ↔ c.isUpper ∨ isSlugChar c :=
  Bool.or_eq_true_iff.trans <| (or_congr_left Bool.or_eq_true_iff).trans <| or_assoc.trans <|
    or_congr_right Bool.or_eq_true_iff.symm

theorem not_isUpper (h : isSlugChar c) : ¬c.isUpper := by
  rw [isUpper_iff]
  have := isSlugChar_iff.mp h
  omega

theorem toLower_isSlugChar (h : isSlugChar c) : c.toLower = c :=
  dif_neg fun hu => not_isUpper h <| decide_eq_true hu

theorem isAlphanum_isSlugChar (h : isSlugChar c) : c.isAlphanum :=
  isAlphanum_iff.mpr (.inr h)

theorem toNat_toLower (h : c.isUpper) : c.toLower.toNat = c.toNat + 32 := by
  have hl : c.toLower.toNat = (c.val + 32).toNat := congrArg Char.toNat <| dif_pos <| of_decide_eq_true h
  have ha : (c.val + 32).toNat = (c.toNat + 32) % 2 ^ 32 := UInt32.toNat_add ..
  have := isUpper_iff.mp h
  omega

theorem isSlugChar_toLower (h : c.isAlphanum) : isSlugChar c.toLower := by
  rcases isAlphanum_iff.mp h with hu | hs
  case inl =>
    have := isUpper_iff.mp hu
    rw [isSlugChar_iff, toNat_toLower hu]
    omega
  case inr => rwa [toLower_isSlugChar hs]

theorem lt_ascii_isSlugChar (h : isSlugChar c) : c.toNat < 0x80 := by
  have := isSlugChar_iff.mp h
  omega

theorem mem_dashed (h : c ∈ dashed skip cs) : isSlugChar c ∨ c = '-' := by
  induction cs generalizing skip
  case nil => cases h
  case cons ch cs ih =>
    simp only [dashed] at h
    split at h
    case isTrue ha =>
      rcases List.mem_cons.mp h with rfl | h
      · exact .inl <| isSlugChar_toLower ha
      · exact ih h
    case isFalse =>
      split at h
      case isTrue  => exact ih h
      case isFalse => exact (List.mem_cons.mp h).elim .inr ih

-- Before the dashes at its ends are removed, a slug consists of the first characters which the loop produces.
theorem slugify_sublist (input : String) :
    (slugify input).toList = "default".toList ∨ (slugify input).toList.Sublist ((dashed true input.toList).take 48) := by
  have hl : slugifyLoop [] false input.toList = (dashed true input.toList).take 48 := slugifyLoop_eq (by decide)
  rw [slugify, hl]
  split
  case h_1 => exact .inl rfl
  case h_2 =>
    rw [String.toList_ofList]
    refine .inr <| .trans (List.rdropWhile_prefix _ _).sublist (List.dropWhile_sublist _)

theorem mem_slugify (h : c ∈ (slugify input).toList) : isSlugChar c ∨ c = '-' := by
  rcases slugify_sublist input with hs | hs
  · have hd : ∀ c ∈ "default".toList, isSlugChar c := by simp [isSlugChar_iff]
    exact .inl <| hd c (hs ▸ h)
  · exact mem_dashed <| List.mem_of_mem_take <| hs.mem h

theorem slugify_length (input : String) : (slugify input).toList.length ≤ 48 := by
  rcases slugify_sublist input with hs | hs
  · rw [hs]; decide
  · exact hs.length_le.trans <| List.length_take_le ..

theorem isSlugChar_of_mem_key (h : w ∈ key input) (hc : c ∈ w) : isSlugChar c := by
  have hs : c ∈ (slugify input).toList := slugify_eq input ▸ mem_intercalate h hc
  exact (mem_slugify hs).resolve_right <| by simpa using (isWord_of_mem_key h).no_sep c hc

-- The words of a slug are what it was made of.
theorem inputWords_slugify (input : String) : inputWords (slugify input).toList = key input := by
  have hw : ∀ w ∈ key input, IsWord (!·.isAlphanum) w := fun w h =>
    { ne_nil := (isWord_of_mem_key h).ne_nil
      no_sep := fun c hc => by simpa using isAlphanum_isSlugChar <| isSlugChar_of_mem_key h hc }
  have hl : ∀ w ∈ key input, w.map Char.toLower = w := fun w h =>
    List.map_congr_left (fun c hc => toLower_isSlugChar <| isSlugChar_of_mem_key h hc) |>.trans w.map_id
  rw [inputWords, slugify_eq, words_intercalate (by decide) hw, List.map_congr_left hl, List.map_id']

theorem key_slugify (input : String) : key (slugify input) = key input := by
  have ht : (['-'].intercalate (key input)).take 48 = ['-'].intercalate (key input) := by
    rw [← slugify_eq]
    exact List.take_of_length_le <| slugify_length input
  rw [key, inputWords_slugify, ht, words_intercalate (by decide) fun _ => isWord_of_mem_key]
  split
  case h_1 h => exact absurd h (key_ne_nil input)
  case h_2   => rfl

theorem slugify_slugify (input : String) : slugify (slugify input) = slugify input := by
  rw [← String.toList_inj, slugify_eq, slugify_eq, key_slugify]

-- The shape of a slug.
structure IsSlug (s : String) : Prop where
  ne_empty  : s ≠ ""
  length_le : (utf8 s.toList).length ≤ 48
  chars     : ∀ c ∈ s.toList, c.isLower ∨ c.isDigit ∨ c = '-'
  separated : Separated '-' s.toList

theorem isSlug_slugify (input : String) : IsSlug (slugify input) where
  ne_empty  := by
    intro h
    have ⟨w, ws, hk⟩ := List.exists_cons_of_ne_nil <| key_ne_nil input
    have hw := isWord_of_mem_key (hk ▸ .head _ : w ∈ key input)
    have hn : ['-'].intercalate (w :: ws) ≠ [] := Spaced.intercalate_ne_nil hw.ne_nil
    rw [← hk, ← slugify_eq, h] at hn
    exact hn rfl
  length_le := by
    rw [length_utf8]
    · exact slugify_length input
    · intro c hc
      rcases mem_slugify hc with h | rfl
      · exact lt_ascii_isSlugChar h
      · decide
  chars     := by
    intro c hc
    rcases mem_slugify hc with h | h
    · exact (Bool.or_eq_true_iff.mp h).imp_right .inl
    · exact .inr (.inr h)
  separated := slugify_eq input ▸ separated_intercalate (fun _ => isWord_of_mem_key) (key_ne_nil input)

section FileName

variable {dir dir' : PathBuf Bytes} {serverUrl serverUrl' profile profile' : String}

-- What comes before the last dot of a file's name.
def stem (serverUrl profile : String) : Bytes :=
  utf8 (slugify serverUrl ++ "-" ++ slugify profile).toList

theorem utf8_fileName (serverUrl profile : String) :
    utf8 (fileName serverUrl profile).toList = stem serverUrl profile ++ PathBuf.dot :: utf8 "json".toList := by
  simp only [fileName, stem, String.toList_append, utf8_append]
  simp only [List.append_assoc]
  rfl

theorem stem_ne_nil (serverUrl profile : String) : stem serverUrl profile ≠ [] := by
  simp [stem, String.utf8EncodeChar]

theorem path_eq (dir : PathBuf Bytes) (serverUrl profile : String) :
    (ofServer dir serverUrl profile).path =
      dir ++ [.name (stem serverUrl profile ++ PathBuf.dot :: utf8 "json".toList)] := by
  rw [ofServer, utf8_fileName]

theorem temp_eq (dir : PathBuf Bytes) (serverUrl profile : String) :
    (ofServer dir serverUrl profile).temp =
      dir ++ [.name (stem serverUrl profile ++ PathBuf.dot :: utf8 "tmp".toList)] := by
  rw [temp, path_eq]
  exact PathBuf.withExtension_snoc (stem_ne_nil _ _) (by decide)

theorem slash_not_mem_stem (serverUrl profile : String) : PathBuf.slash ∉ stem serverUrl profile := by
  have hs (input : String) : '/' ∉ (slugify input).toList := fun h => absurd (mem_slugify h) (by decide)
  intro h
  have h := mem_of_mem_utf8 (by decide) h
  simp only [String.toList_append, List.mem_append] at h
  rcases h with (h | h) | h
  · exact hs _ h
  · exact absurd h (by decide)
  · exact hs _ h

theorem isName_fileName (serverUrl profile : String) : PathBuf.IsName (utf8 (fileName serverUrl profile).toList) := by
  have hl : (utf8 (fileName serverUrl profile).toList).getLast? = some 110 := by
    rw [utf8_fileName, List.getLast?_append]
    rfl
  constructor
  case ne_nil   => intro h; simp [h] at hl
  case ne_dot   => intro h; simp [h, PathBuf.dot] at hl
  case ne_up    => intro h; simp [h, PathBuf.dot] at hl
  case no_slash =>
    intro h
    rw [utf8_fileName] at h
    rcases List.mem_append.mp h with h | h
    · exact slash_not_mem_stem _ _ h
    · exact absurd h (by decide)

theorem temp_inj (h : (ofServer dir serverUrl profile).temp = (ofServer dir' serverUrl' profile').temp) :
    fileName serverUrl profile = fileName serverUrl' profile' := by
  rw [temp_eq, temp_eq] at h
  have ⟨_, hn⟩ := List.append_inj' h (by simp)
  have hn := Component.name.inj <| List.singleton_inj.mp hn
  refine String.toList_inj.mp <| utf8_injective ?_
  rw [utf8_fileName, utf8_fileName, List.append_cancel_right hn]

-- A credential has two files of its own, directly inside of the directory.
structure Placed (dir : PathBuf Bytes) (serverUrl profile : String) : Prop where
  component  : PathBuf.ofString (fileName serverUrl profile) = [.name (utf8 (fileName serverUrl profile).toList)]
  ne_dots    : fileName serverUrl profile ≠ "." ∧ fileName serverUrl profile ≠ ".."
  path_eq    : (ofServer dir serverUrl profile).path = dir ++ PathBuf.ofString (fileName serverUrl profile)
  parent_eq  : (ofServer dir serverUrl profile).path.parent = some dir
  temp_ne    : (ofServer dir serverUrl profile).temp ≠ (ofServer dir serverUrl profile).path
  temp_apart : ∀ dir' serverUrl' profile', fileName serverUrl profile ≠ fileName serverUrl' profile' →
    (ofServer dir serverUrl profile).temp ≠ (ofServer dir' serverUrl' profile').temp

theorem placed (dir : PathBuf Bytes) (serverUrl profile : String) : Placed dir serverUrl profile := by
  have hn := isName_fileName serverUrl profile
  have hc := PathBuf.parse_of_isName hn
  constructor
  case component  => exact hc
  case ne_dots    => exact ⟨fun h => hn.ne_dot (h ▸ rfl), fun h => hn.ne_up (h ▸ rfl)⟩
  case path_eq    => rw [PathBuf.ofString, hc, ofServer]
  case parent_eq  => exact PathBuf.pop_snoc_name
  case temp_ne    => exact temp_ne_path _ _ _
  case temp_apart => exact fun _ _ _ h ht => h (temp_inj ht)

end FileName

-- Slugs are in a normal form, which makes names of files out of them.
theorem slugify_normal :
    (∀ input, IsSlug (slugify input) ∧ slugify (slugify input) = slugify input) ∧
    ∀ dir serverUrl profile, Placed dir serverUrl profile :=
  ⟨fun input => ⟨isSlug_slugify input, slugify_slugify input⟩, placed⟩

end FileCredentialStore
