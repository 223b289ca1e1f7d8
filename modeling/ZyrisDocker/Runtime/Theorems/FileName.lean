import ZyrisDocker.Lib.Words
import ZyrisDocker.Runtime.Store.Basic

open Text

namespace FileCredentialStore

-- What the loop makes of an input, before it is cut off. The dash for a separator depends on what is before it.
def dashed (skip : Bool) : List Char → List Char
  | []         => []
  | ch :: rest =>
    if ch.isAlphanum then ch.toLower :: dashed false rest
    else if skip then dashed true rest
    else '-' :: dashed true rest

theorem slugifyLoop_append (h : out.length < 48)
    (ih : (out ++ [c]).length < 48 → slugifyLoop (out ++ [c]) prevDash cs = (out ++ [c] ++ d).take 48) :
    (if (out ++ [c]).length ≥ 48 then out ++ [c] else slugifyLoop (out ++ [c]) prevDash cs) = (out ++ c :: d).take 48 := by
  rw [List.append_cons out c d]
  have hl : (out ++ [c]).length = out.length + 1 := by simp
  split
  case isTrue  => rw [List.take_append_of_le_length (by omega), List.take_of_length_le (by omega)]
  case isFalse => exact ih (by omega)

theorem slugifyLoop_eq (h : out.length < 48) :
    slugifyLoop out prevDash cs = (out ++ dashed (prevDash || out.isEmpty) cs).take 48 := by
  induction cs generalizing out prevDash
  case nil             => simp [slugifyLoop, dashed, List.take_of_length_le (Nat.le_of_lt h)]
  case cons ch rest ih =>
    have ih' (c : Char) (p : Bool) (hl : (out ++ [c]).length < 48) :
        slugifyLoop (out ++ [c]) p rest = (out ++ [c] ++ dashed p rest).take 48 := by
      rw [ih hl, show (out ++ [c]).isEmpty = false by cases out <;> rfl, Bool.or_false]
    simp only [slugifyLoop, dashed]
    by_cases ha : ch.isAlphanum
    case pos =>
      simp only [ha, if_true]
      exact slugifyLoop_append h (ih' _ _)
    case neg =>
      by_cases hs : prevDash || out.isEmpty
      case pos =>
        have hd : (!prevDash && decide (out ≠ [])) = false := by cases out <;> simp_all
        simp only [ha, hd, hs, if_true, Bool.false_eq_true, if_false, if_neg (Nat.not_le.mpr h), ih h]
      case neg =>
        have hd : (!prevDash && decide (out ≠ [])) = true := by cases out <;> simp_all
        simp only [ha, hd, hs, if_true, Bool.false_eq_true, if_false]
        exact slugifyLoop_append h (ih' _ _)

-- The words of an input: the longest parts that consist of letters and digits, in lower case.
def inputWords (input : List Char) : List (List Char) :=
  words (!·.isAlphanum) input |>.map (·.map Char.toLower)

theorem toLower_ne_dash {c : Char} (h : c.isAlphanum) : c.toLower ≠ '-' := by
  delta Char.toLower
  split
  case isTrue hu =>
    intro he
    have hv := congrArg Char.val he
    simp only [UInt32.ext_iff, UInt32.toNat_add, UInt32.le_iff_toNat_le] at hv hu
    have ha : 'A'.val.toNat = 65 := rfl
    have hz : 'Z'.val.toNat = 90 := rfl
    have hd : '-'.val.toNat = 45 := rfl
    have hx : ('a'.val - 'A'.val).toNat = 32 := rfl
    omega
  case isFalse =>
    rintro rfl
    exact absurd h (by decide)

theorem isWord_toLower (h : IsWord (!·.isAlphanum) w) : IsWord (· == '-') (w.map Char.toLower) where
  ne_nil := by simpa using h.ne_nil
  no_sep := by
    intro x hx
    have ⟨c, hc, he⟩ := List.mem_map.mp hx
    have ha : c.isAlphanum := by simpa using h.no_sep c hc
    simpa [← he] using toLower_ne_dash ha

theorem dashed_append (h : ∀ c ∈ w, c.isAlphanum) : dashed false (w ++ r) = w.map Char.toLower ++ dashed false r := by
  induction w
  case nil         => rfl
  case cons c w ih =>
    have ⟨hc, hw⟩ := List.forall_mem_cons.mp h
    simp [dashed, hc, ih hw]

theorem dashed_word (h : IsWord (!·.isAlphanum) w) : dashed skip (w ++ r) = w.map Char.toLower ++ dashed false r := by
  have ha : ∀ c ∈ w, c.isAlphanum := fun c hc => by simpa using h.no_sep c hc
  cases w
  case nil       => exact absurd rfl h.ne_nil
  case cons c w  =>
    have ⟨hc, hw⟩ := List.forall_mem_cons.mp ha
    simp [dashed, hc, dashed_append hw]

-- Every word is followed by one dash, except for the last one if nothing else comes after it.
theorem spaced_dashed (cs : List Char) : Spaced (· == '-') '-' (inputWords cs) (dashed true cs) := by
  induction cs using words_induction (!Char.isAlphanum ·)
  case nil          => exact .nil
  case skip hx ih   =>
    rw [inputWords, words_cons (by exact hx), dashed, if_neg (by simpa using hx), if_pos rfl]
    exact ih
  case word w h     =>
    rw [inputWords, words_word h, ← List.append_nil w, dashed_word (by simpa using h)]
    simpa [dashed] using .word (isWord_toLower h)
  case cons h hx ih =>
    rw [inputWords, words_word_append h hx, List.map_cons, dashed_word h, dashed, if_neg (by simpa using hx), if_neg nofun]
    exact .cons (isWord_toLower h) ih

-- What a file's name is made of: the words among the first characters of the input's words, with a dash between two.
def key (input : String) : List (List Char) :=
  match words (· == '-') (['-'].intercalate (inputWords input.toList) |>.take 48) with
  | [] => ["default".toList]
  | ws => ws

theorem isWord_of_mem_key {input : String} (h : w ∈ key input) : IsWord (· == '-') w := by
  simp only [key] at h
  split at h
  case h_1 =>
    cases List.mem_singleton.mp h
    exact ⟨by decide, by simp⟩
  case h_2 hw _ => exact isWord_of_mem_words h

theorem key_ne_nil (input : String) : key input ≠ [] := by
  simp only [key]
  split
  case h_1   => exact List.cons_ne_nil _ _
  case h_2 h => exact h

theorem slugify_eq (input : String) : (slugify input).toList = ['-'].intercalate (key input) := by
  have spaced := spaced_dashed input.toList
  have ⟨ws, cut⟩ := spaced.take 48
  have hw : words (· == '-') (['-'].intercalate (inputWords input.toList) |>.take 48) = ws := by
    rw [← spaced.words_take (by decide), cut.words_eq (by decide)]
  have hl : slugifyLoop [] false input.toList = (dashed true input.toList).take 48 := slugifyLoop_eq (by decide)
  have ht : ((dashed true input.toList).take 48 |>.dropWhile (· = '-') |>.reverse |>.dropWhile (· = '-') |>.reverse) =
      ['-'].intercalate ws := by
    rw [← cut.rdropWhile (by decide), List.rdropWhile]
    exact congrArg (fun l => (l.reverse.dropWhile (· = '-')).reverse) cut.dropWhile
  rw [slugify, hl, ht, key, hw]
  cases ws
  case nil  => decide
  case cons =>
    split
    case h_1 he => exact absurd he <| Spaced.intercalate_ne_nil (cut.isWord _ (.head _)).ne_nil
    case h_2    => rw [String.toList_ofList]

theorem fileName_eq (serverUrl profile : String) :
    (fileName serverUrl profile).toList = ['-'].intercalate (key serverUrl ++ key profile) ++ ".json".toList := by
  rw [intercalate_append (key_ne_nil _) (key_ne_nil _), ← slugify_eq, ← slugify_eq]
  simp only [fileName, String.toList_append, List.append_assoc]
  rfl

theorem fileName_inj_iff : fileName u₁ p₁ = fileName u₂ p₂ ↔ key u₁ ++ key p₁ = key u₂ ++ key p₂ := by
  rw [← String.toList_inj, fileName_eq, fileName_eq, List.append_left_inj]
  constructor
  case mpr => exact congrArg _
  case mp  =>
    intro h
    have isWord (u p : String) : ∀ w ∈ key u ++ key p, IsWord (· == '-') w := fun w hw =>
      (List.mem_append.mp hw).elim isWord_of_mem_key isWord_of_mem_key
    have hw := congrArg (words (· == '-')) h
    rwa [words_intercalate (by decide) (isWord u₁ p₁), words_intercalate (by decide) (isWord u₂ p₂)] at hw

-- Two nodes have two files.
def Apart (u₁ p₁ u₂ p₂ : String) : Prop :=
  (u₁, p₁) ≠ (u₂, p₂) → fileName u₁ p₁ ≠ fileName u₂ p₂ ∧ ∀ dir, (ofServer dir u₁ p₁).path ≠ (ofServer dir u₂ p₂).path

theorem path_ne {dir : PathBuf Bytes} (h : fileName u₁ p₁ ≠ fileName u₂ p₂) :
    (ofServer dir u₁ p₁).path ≠ (ofServer dir u₂ p₂).path := by
  intro hp
  have hn := Component.name.inj <| List.singleton_inj.mp <| List.append_cancel_left hp
  exact h <| String.toList_inj.mp <| utf8_injective hn

theorem apart_iff (u₁ p₁ u₂ p₂ : String) :
    Apart u₁ p₁ u₂ p₂ ↔ (u₁, p₁) = (u₂, p₂) ∨ key u₁ ++ key p₁ ≠ key u₂ ++ key p₂ := by
  have hk : fileName u₁ p₁ ≠ fileName u₂ p₂ ↔ key u₁ ++ key p₁ ≠ key u₂ ++ key p₂ := not_congr fileName_inj_iff
  rw [← hk]
  constructor
  case mp  => exact fun apart => or_iff_not_imp_left.mpr fun h => (apart h).1
  case mpr =>
    intro h differ
    have hn := h.resolve_left differ
    exact ⟨hn, fun _ => path_ne hn⟩

-- A slash at the end of a URL makes no difference, nor does its case.
theorem slash_not_apart : ¬∀ u₁ p₁ u₂ p₂, Apart u₁ p₁ u₂ p₂ := by
  intro h
  exact (h "wss://node.example/ws" "default" "wss://node.example/WS/" "default" (by decide)).1 (by decide)

end FileCredentialStore
