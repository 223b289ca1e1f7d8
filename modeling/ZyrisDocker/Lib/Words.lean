import Mathlib.Data.List.DropRight
import ZyrisDocker.Lib.Text

-- Texts that are made of words and numbers.

namespace Text

variable {α : Type} {sep : α → Bool} {l r w : List α} {x : α}

section Words

-- The longest parts of a list without separators.
def words (sep : α → Bool) (l : List α) : List (List α) :=
  l.splitOnP sep |>.filter (!·.isEmpty)

structure IsWord (sep : α → Bool) (w : List α) : Prop where
  ne_nil : w ≠ []
  no_sep : ∀ x ∈ w, sep x = false

@[simp]
theorem words_nil : words sep [] = [] := rfl

theorem words_append_cons (h : sep x) : words sep (l ++ x :: r) = words sep l ++ words sep r := by
  simp [words, List.splitOnP_append_cons l r h]

theorem words_cons (h : sep x) : words sep (x :: r) = words sep r :=
  words_append_cons (l := []) h

theorem words_replicate (h : sep x) : words sep (List.replicate n x ++ r) = words sep r := by
  induction n
  case zero      => rfl
  case succ n ih => rw [List.replicate_succ, List.cons_append, words_cons h, ih]

theorem words_snoc (h : sep x) : words sep (l ++ [x]) = words sep l := by
  simp [words_append_cons h]

theorem words_word (h : IsWord sep w) : words sep w = [w] := by
  simp [words, List.splitOnP_eq_singleton h.no_sep, h.ne_nil]

-- A word comes first if a separator follows it.
theorem words_word_append (h : IsWord sep w) (hx : sep x) : words sep (w ++ x :: r) = w :: words sep r := by
  rw [words_append_cons hx, words_word h, List.singleton_append]

theorem words_intercalate (hx : sep x) {ws : List (List α)} (h : ∀ w ∈ ws, IsWord sep w) :
    words sep ([x].intercalate ws) = ws := by
  induction ws
  case nil => rfl
  case cons w ws ih =>
    have ih := ih fun w hw => h w (.tail _ hw)
    cases ws
    case nil  => simpa using words_word (h w (.head _))
    case cons =>
      rw [List.intercalate_cons_cons, List.append_assoc, List.singleton_append, words_word_append (h w (.head _)) hx, ih]

theorem intercalate_append {ws ws' : List (List α)} (h : ws ≠ []) (h' : ws' ≠ []) :
    [x].intercalate (ws ++ ws') = [x].intercalate ws ++ x :: [x].intercalate ws' := by
  induction ws
  case nil          => exact absurd rfl h
  case cons w ws ih =>
    cases ws
    case nil  => simp [List.intercalate_cons_of_ne_nil h']
    case cons => simpa [List.intercalate_cons_cons] using ih (List.cons_ne_nil _ _)

theorem mem_intercalate {ws : List (List α)} (h : w ∈ ws) (hx : x ∈ w) : x ∈ [y].intercalate ws := by
  induction ws
  case nil          => cases h
  case cons v ws ih =>
    cases ws
    case nil  => simpa [← List.mem_singleton.mp h] using hx
    case cons =>
      rw [List.intercalate_cons_cons]
      rcases List.mem_cons.mp h with rfl | h
      · simp [hx]
      · simp [ih h]

theorem not_mem_intercalate {ws : List (List α)} (hx : y ≠ x) (h : ∀ w ∈ ws, y ∉ w) : y ∉ [x].intercalate ws := by
  induction ws
  case nil          => exact List.not_mem_nil
  case cons w ws ih =>
    have ⟨hw, h⟩ := List.forall_mem_cons.mp h
    cases ws
    case nil  => simpa using hw
    case cons => simpa [List.intercalate_cons_cons, hx, hw] using ih h

-- Between words there is a single separator, and there is none at the ends.
structure Separated (x : α) (l : List α) : Prop where
  single : ¬[x, x] <:+: l
  first  : l.head? ≠ some x
  last   : l.getLast? ≠ some x

theorem nil_mem_splitOn [BEq α] [LawfulBEq α] : [] ∈ (x :: r).splitOn x := by
  rw [← List.nil_append (x :: r), List.splitOn_append_cons_self]
  exact List.mem_append_left _ (.head _)

theorem Separated.of_splitOn [BEq α] [LawfulBEq α] (h : [] ∉ l.splitOn x) : Separated x l where
  single := by
    rintro ⟨a, b, rfl⟩
    rw [List.append_assoc, List.cons_append, List.splitOn_append_cons_self] at h
    exact h <| List.mem_append_right _ nil_mem_splitOn
  first  := by
    intro hf
    obtain ⟨_, rfl⟩ := List.head?_eq_some_iff.mp hf
    exact h nil_mem_splitOn
  last   := by
    intro hl
    obtain ⟨_, rfl⟩ := List.getLast?_eq_some_iff.mp hl
    rw [List.splitOn_append_cons_self] at h
    exact h <| List.mem_append_right _ (.head _)

theorem separated_intercalate [DecidableEq α] {ws : List (List α)} (h : ∀ w ∈ ws, IsWord (· == x) w) (hn : ws ≠ []) :
    Separated x ([x].intercalate ws) := by
  refine .of_splitOn fun hm => ?_
  rw [List.splitOn_intercalate x (fun w hw hx => by simpa using (h w hw).no_sep x hx) hn] at hm
  exact (h [] hm).ne_nil rfl

theorem no_sep_of_mem_splitOnP (h : w ∈ l.splitOnP sep) : ∀ x ∈ w, sep x = false := by
  induction l generalizing w
  case nil => simp_all
  case cons y l ih =>
    have ⟨s, ss, he⟩ := List.exists_cons_of_ne_nil <| List.splitOnP_ne_nil sep l
    rw [List.splitOnP_cons_eq_if_modifyHead] at h
    split at h
    case isTrue =>
      rcases List.mem_cons.mp h with rfl | hw
      · simp
      · exact ih hw
    case isFalse hy =>
      rw [he] at h ih
      rcases List.mem_cons.mp h with rfl | hw
      · simpa [hy] using ih (.head _)
      · exact ih (.tail _ hw)

theorem isWord_of_mem_words (h : w ∈ words sep l) : IsWord sep w := by
  have ⟨hs, hw⟩ := List.mem_filter.mp h
  exact { ne_nil := by simpa using hw, no_sep := no_sep_of_mem_splitOnP hs }

theorem exists_word (h : sep x = false) :
    ∃ w, IsWord sep w ∧ (w = x :: l ∨ ∃ y r, sep y ∧ x :: l = w ++ y :: r) := by
  induction l generalizing x
  case nil         => exact ⟨[x], ⟨List.cons_ne_nil _ _, by simpa using h⟩, .inl rfl⟩
  case cons z l ih =>
    cases hz : sep z
    case true  => exact ⟨[x], ⟨List.cons_ne_nil _ _, by simpa using h⟩, .inr ⟨z, l, hz, rfl⟩⟩
    case false =>
      have ⟨w, hw, hl⟩ := ih hz
      refine ⟨x :: w, ⟨List.cons_ne_nil _ _, List.forall_mem_cons.mpr ⟨h, hw.no_sep⟩⟩, ?_⟩
      exact hl.imp (congrArg _) fun ⟨y, r, hy, hr⟩ => ⟨y, r, hy, congrArg _ hr⟩

-- A text is read word by word.
@[elab_as_elim]
theorem words_induction (sep : α → Bool) {motive : List α → Prop} (nil : motive [])
    (skip : ∀ {x l}, sep x → motive l → motive (x :: l)) (word : ∀ {w}, IsWord sep w → motive w)
    (cons : ∀ {w x l}, IsWord sep w → sep x → motive l → motive (w ++ x :: l)) (l : List α) : motive l := by
  induction hn : l.length using Nat.strong_induction_on generalizing l
  case h n ih =>
    cases l
    case nil      => exact nil
    case cons x l =>
      cases hx : sep x
      case true  => exact skip hx <| ih l.length (by simp [← hn]) l rfl
      case false =>
        obtain ⟨w, hw, rfl | ⟨y, r, hy, hr⟩⟩ := exists_word (l := l) hx
        · exact word hw
        · rw [hr] at hn ⊢
          exact cons hw hy <| ih r.length (by simp [← hn]; omega) r rfl

end Words

theorem rdropWhile_append (h : r.rdropWhile sep ≠ []) : (l ++ r).rdropWhile sep = l ++ r.rdropWhile sep := by
  simp only [List.rdropWhile, List.reverse_append] at h ⊢
  rw [List.dropWhile_append, if_neg (by simpa using h)]
  simp

section Spaced

-- Words with one separator after each of them but possibly the last.
inductive Spaced (sep : α → Bool) (x : α) : List (List α) → List α → Prop
  | nil : Spaced sep x [] []
  | word {w : List α} (h : IsWord sep w) : Spaced sep x [w] w
  | cons {w : List α} {ws : List (List α)} {l : List α} (h : IsWord sep w) : Spaced sep x ws l → Spaced sep x (w :: ws) (w ++ x :: l)

namespace Spaced

variable {ws : List (List α)} {n : Nat}

theorem isWord (s : Spaced sep x ws l) : ∀ w ∈ ws, IsWord sep w := by
  induction s
  case nil          => nofun
  case word h       => exact fun w hw => List.mem_singleton.mp hw ▸ h
  case cons h _ ih  => exact List.forall_mem_cons.mpr ⟨h, ih⟩

theorem words_eq (hx : sep x) (s : Spaced sep x ws l) : words sep l = ws := by
  induction s
  case nil         => rfl
  case word h      => exact words_word h
  case cons h _ ih => rw [words_word_append h hx, ih]

theorem intercalate (s : Spaced sep x ws l) : l = [x].intercalate ws ∨ l = [x].intercalate ws ++ [x] := by
  induction s
  case nil         => exact .inl rfl
  case word        => simp
  case cons w ws l _ s ih =>
    cases ws
    case nil => cases s; simp
    case cons => simpa [List.intercalate_cons_cons] using ih

theorem of_prefix (h : IsWord sep w) (hl : l <+: w) : ∃ ws, Spaced sep x ws l := by
  cases l
  case nil  => exact ⟨_, .nil⟩
  case cons => exact ⟨_, .word ⟨List.cons_ne_nil _ _, fun x hx => h.no_sep x <| hl.subset hx⟩⟩

-- What such a text begins with is of the same kind.
theorem take (s : Spaced sep x ws l) (n : Nat) : ∃ ws, Spaced sep x ws (l.take n) := by
  induction s generalizing n
  case nil         => exact ⟨_, by rw [List.take_nil]; exact .nil⟩
  case word h      => exact of_prefix h <| List.take_prefix ..
  case cons w ws l h s ih =>
    rw [List.take_append]
    cases hn : n - w.length
    case zero   => simpa using of_prefix h <| List.take_prefix ..
    case succ m =>
      rw [List.take_of_length_le (by omega), List.take_succ_cons]
      have ⟨ws, s⟩ := ih m
      exact ⟨_, .cons h s⟩

-- The separator that may be at the end makes no difference to the words.
theorem words_take (hx : sep x) (s : Spaced sep x ws l) (n : Nat) :
    words sep (l.take n) = words sep (([x].intercalate ws).take n) := by
  rcases s.intercalate with h | h
  · rw [h]
  · rw [h, List.take_append]
    cases hn : n - ([x].intercalate ws).length
    case zero => simp
    case succ => rw [List.take_succ_cons, List.take_nil, words_snoc hx]

theorem dropWhile (s : Spaced sep x ws l) : l.dropWhile sep = l := by
  have word {w r : List α} (h : IsWord sep w) : (w ++ r).dropWhile sep = w ++ r := by
    cases w
    case nil  => exact absurd rfl h.ne_nil
    case cons => rw [List.cons_append, List.dropWhile_cons_of_neg (by simp [h.no_sep])]
  cases s
  case nil    => rfl
  case word h => simpa using word (r := []) h
  case cons h _ => exact word h

theorem intercalate_ne_nil (h : w ≠ []) : [x].intercalate (w :: ws) ≠ [] := by
  cases ws
  case nil  => simpa using h
  case cons => simp [List.intercalate_cons_cons]

theorem rdropWhile (hx : sep x) (s : Spaced sep x ws l) : l.rdropWhile sep = [x].intercalate ws := by
  have word {w : List α} (h : IsWord sep w) : w.rdropWhile sep = w :=
    List.rdropWhile_eq_self_iff.mpr fun hw => by simp [h.no_sep]
  induction s
  case nil    => rfl
  case word h => simpa using word h
  case cons w ws l h s ih =>
    cases ws
    case nil  =>
      cases s
      rw [List.rdropWhile_concat_pos _ _ _ hx, word h]
      simp
    case cons =>
      have hn : l.rdropWhile sep ≠ [] := by
        rw [ih]
        exact intercalate_ne_nil (s.isWord _ (.head _)).ne_nil
      rw [List.append_cons, rdropWhile_append hn, ih, List.intercalate_cons_cons]

end Spaced

end Spaced

theorem takeWhile_append_cons (h : sep x = false) : (l ++ x :: r).takeWhile sep = l.takeWhile sep := by
  induction l <;> simp [List.takeWhile_cons, *]

theorem rtakeWhile_append_cons (h : sep x = false) : (l ++ x :: r).rtakeWhile sep = r.rtakeWhile sep := by
  simp [List.rtakeWhile, takeWhile_append_cons h]

section Once

variable [DecidableEq α]

-- `str::split_once`: what is before the first separator and what is after it.
def splitOnce (x : α) (l : List α) : Option (List α × List α) :=
  if x ∈ l then some (l.takeWhile (· ≠ x), (l.dropWhile (· ≠ x)).tail) else none

-- `str::rsplit_once`: what is before the last separator and what is after it.
def rsplitOnce (x : α) (l : List α) : Option (List α × List α) :=
  if x ∈ l then some ((l.rdropWhile (· ≠ x)).dropLast, l.rtakeWhile (· ≠ x)) else none

theorem splitOnce_append (h : x ∉ l) : splitOnce x (l ++ x :: r) = some (l, r) := by
  have hl : ∀ y ∈ l, y ≠ x := fun _ hy he => h (he ▸ hy)
  rw [splitOnce, if_pos (by simp), List.takeWhile_append_of_pos (by simpa using hl),
    List.dropWhile_append_of_pos (by simpa using hl)]
  simp

-- In general, the first separator may be an earlier one.
theorem splitOnce_append_cons : ∃ r', splitOnce x (l ++ x :: r) = some (l.takeWhile (· ≠ x), r') :=
  ⟨_, by rw [splitOnce, if_pos (by simp), takeWhile_append_cons (by simp)]⟩

theorem rsplitOnce_append_cons : ∃ l', rsplitOnce x (l ++ x :: r) = some (l', r.rtakeWhile (· ≠ x)) :=
  ⟨_, by rw [rsplitOnce, if_pos (by simp), rtakeWhile_append_cons (by simp)]⟩

end Once

section Trim

theorem toList_trim (s : String) : (trim s).toList = (s.toList.dropWhile isWhitespace).rdropWhile isWhitespace := by
  simp [trim, List.rdropWhile]

theorem mem_of_mem_trim {s : String} (h : c ∈ (trim s).toList) : c ∈ s.toList := by
  rw [toList_trim] at h
  exact (List.dropWhile_sublist _).mem <| (List.rdropWhile_prefix _ _).mem h

theorem isWhitespace_of_trim {s : String} (h : trim s = "") : ∀ c ∈ s.toList, isWhitespace c := by
  intro c hc
  have ht := congrArg String.toList h
  rw [toList_trim, String.toList_empty, List.rdropWhile_eq_nil_iff] at ht
  rw [← List.takeWhile_append_dropWhile (p := isWhitespace) (l := s.toList)] at hc
  exact (List.mem_append.mp hc).elim List.mem_takeWhile_imp (ht c)

-- Dropping at the back leaves the first element in its place, unless it drops everything.
theorem trim_trim (s : String) : trim (trim s) = trim s := by
  apply String.toList_inj.mp
  rw [toList_trim (trim s), toList_trim]
  generalize hl : s.toList.dropWhile isWhitespace = l
  have hd : l.dropWhile isWhitespace = l := hl ▸ List.dropWhile_idempotent _ _
  have hr : (l.rdropWhile isWhitespace).dropWhile isWhitespace = l.rdropWhile isWhitespace := by
    refine List.dropWhile_eq_self_iff.mpr fun h => ?_
    have hp := List.rdropWhile_prefix (p := isWhitespace) l
    have := List.dropWhile_eq_self_iff.mp hd (h.trans_le hp.length_le)
    rwa [hp.getElem h]
  rw [hr, List.rdropWhile_idempotent]

end Trim

section Numbers

-- The decimal text of a number.
def decimal (z : Int) : List Char :=
  match z with
  | .ofNat n   => Nat.toDigits 10 n
  | .negSucc n => '-' :: Nat.toDigits 10 (n + 1)

def parseDigits (cs : List Char) : Option Nat :=
  if cs ≠ [] ∧ cs.all Char.isDigit then some (Nat.ofDigitChars 10 cs 0) else none

-- `str::parse` for 64 unsigned bits. A plus sign is accepted.
def parseU64 (cs : List Char) : Option Nat :=
  let digits :=
    match cs with
    | '+' :: cs => cs
    | cs        => cs
  (parseDigits digits).filter (· < UInt64.size)

-- `str::parse` for 32 signed bits.
def parseI32 (cs : List Char) : Option Int :=
  match cs with
  | '-' :: cs => (parseDigits cs).filter (· ≤ 2147483648) |>.map fun n => -n
  | '+' :: cs => (parseDigits cs).filter (· < 2147483648) |>.map fun n => n
  | cs        => (parseDigits cs).filter (· < 2147483648) |>.map fun n => n

theorem isDigit_of_mem_toDigits (h : c ∈ Nat.toDigits 10 n) : c.isDigit :=
  Nat.isDigit_of_mem_toDigits (by decide) (by decide) h

theorem mem_decimal (h : c ∈ decimal z) : c.isDigit ∨ c = '-' := by
  cases z
  case ofNat   => exact .inl <| isDigit_of_mem_toDigits h
  case negSucc =>
    rcases List.mem_cons.mp h with hc | hc
    · exact .inr hc
    · exact .inl <| isDigit_of_mem_toDigits hc

theorem not_mem_decimal (hd : c.isDigit = false) (hc : c ≠ '-') : c ∉ decimal z := by
  intro h
  rcases mem_decimal h with h | h
  · simp [hd] at h
  · exact hc h

-- No visible ASCII character is a blank.
theorem isWhitespace_of_graph (h : 0x20 < c.toNat) (h' : c.toNat < 0x7f) : isWhitespace c = false := by
  simp [isWhitespace]
  omega

theorem isWhitespace_of_isDigit (h : c.isDigit) : isWhitespace c = false := by
  have ⟨h₀, h₉⟩ := Char.isDigit_iff_toNat.mp h
  exact isWhitespace_of_graph (Nat.lt_of_lt_of_le (by decide) h₀) (Nat.lt_of_le_of_lt h₉ (by decide))

theorem isWord_decimal : IsWord isWhitespace (decimal z) where
  ne_nil := by cases z <;> simp [decimal, Nat.toDigits_ne_nil]
  no_sep := by
    intro c hc
    rcases mem_decimal hc with h | rfl
    · exact isWhitespace_of_isDigit h
    · decide

theorem exists_isDigit_of_parseDigits (h : parseDigits cs = some n) : ∃ c ∈ cs, c.isDigit := by
  simp only [parseDigits] at h
  split at h <;> cases h
  case isTrue hc =>
    obtain _ | ⟨c, cs⟩ := cs
    case nil  => exact absurd rfl hc.1
    case cons => exact ⟨c, .head _, List.all_eq_true.mp hc.2 c (.head _)⟩

-- The text of a number is not blank.
theorem trim_ne_of_parseU64 {s : String} (h : parseU64 s.toList = some n) : trim s ≠ "" := by
  have ⟨c, hc, hd⟩ : ∃ c ∈ s.toList, c.isDigit := by
    have ⟨h, _⟩ := Option.filter_eq_some_iff.mp h
    split at h
    case h_1 he => exact he ▸ (exists_isDigit_of_parseDigits h).imp fun _ => .imp_left (.tail _)
    case h_2    => exact exists_isDigit_of_parseDigits h
  exact fun ht => nomatch (isWhitespace_of_isDigit hd).symm.trans <| isWhitespace_of_trim ht c hc

theorem parseDigits_toDigits : parseDigits (Nat.toDigits 10 n) = some n := by
  have hd : (Nat.toDigits 10 n).all Char.isDigit := List.all_eq_true.mpr fun _ => isDigit_of_mem_toDigits
  simp [parseDigits, hd, Nat.toDigits_ne_nil, Nat.ofDigitChars_ten_toDigits]

theorem toDigits_ne_cons (h : c.isDigit = false) : Nat.toDigits 10 n ≠ c :: cs := by
  intro he
  have := isDigit_of_mem_toDigits (he ▸ .head _ : c ∈ Nat.toDigits 10 n)
  simp [h] at this

-- What a decimal is read back as: nothing if it is negative or too large.
theorem parseU64_decimal (z : Int) :
    parseU64 (decimal z) = if 0 ≤ z ∧ z.toNat < UInt64.size then some z.toNat else none := by
  cases z
  case ofNat n =>
    simp only [parseU64, decimal]
    split
    case h_1 he => exact absurd he (toDigits_ne_cons (by decide))
    case h_2 => simp [parseDigits_toDigits, Option.filter_some]
  case negSucc n => simp [parseU64, decimal, parseDigits, Char.isDigit]

theorem parseI32_decimal {n : Nat} (h : n < 2147483648) : parseI32 (decimal n) = some (n : Int) := by
  change parseI32 (Nat.toDigits 10 n) = _
  simp only [parseI32]
  split
  case h_1 he => exact absurd he (toDigits_ne_cons (by decide))
  case h_2 he => exact absurd he (toDigits_ne_cons (by decide))
  case h_3    => simp [parseDigits_toDigits, Option.filter_some, h]

end Numbers

end Text
