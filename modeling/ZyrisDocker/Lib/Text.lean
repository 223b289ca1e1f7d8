import Mathlib.Data.Char

namespace Text

abbrev Bytes := List UInt8

-- The characters with the Unicode property `White_Space`.
def isWhitespace (c : Char) : Bool :=
  (0x9 ≤ c.toNat && c.toNat ≤ 0xd) || (0x2000 ≤ c.toNat && c.toNat ≤ 0x200a) ||
  c.toNat ∈ [0x20, 0x85, 0xa0, 0x1680, 0x2028, 0x2029, 0x202f, 0x205f, 0x3000]

def trim (s : String) : String :=
  .ofList (s.toList.dropWhile isWhitespace |>.reverse |>.dropWhile isWhitespace |>.reverse)

-- What comes before and after the first separator determines a list.
theorem append_separator_inj {x : α} {l₁ l₂ r₁ r₂ : List α} (h₁ : x ∉ l₁) (h₂ : x ∉ l₂)
    (h : l₁ ++ x :: r₁ = l₂ ++ x :: r₂) : l₁ = l₂ ∧ r₁ = r₂ := by
  induction l₁ generalizing l₂ <;> cases l₂
  case nil.nil  => simpa using h
  case nil.cons => exact absurd (List.cons.inj h).1 (fun he => h₂ (he ▸ .head _))
  case cons.nil => exact absurd (List.cons.inj h).1 (fun he => h₁ (he ▸ .head _))
  case cons.cons ih _ _ =>
    simp only [List.cons_append, List.cons.injEq, List.mem_cons, not_or] at h h₁ h₂ ⊢
    have ⟨ht, hr⟩ := ih h₁.2 h₂.2 h.2
    exact ⟨⟨h.1, ht⟩, hr⟩

-- The UTF-8 encoding of a text.
def utf8 (cs : List Char) : Bytes :=
  cs.flatMap String.utf8EncodeChar

@[simp]
theorem utf8_nil : utf8 [] = [] := rfl

@[simp]
theorem utf8_cons : utf8 (c :: cs) = String.utf8EncodeChar c ++ utf8 cs := rfl

@[simp]
theorem utf8_append : utf8 (cs₁ ++ cs₂) = utf8 cs₁ ++ utf8 cs₂ := by
  simp [utf8]

-- A multi-byte sequence of which at least the first byte has been read: how many bytes are still
-- expected, the bits read so far, and the range the next byte has to lie in.
structure Partial where
  need  : Nat
  acc   : Nat
  lower : Nat := 0x80
  upper : Nat := 0xbf

def replacement : Char := '\uFFFD'

-- The effect of one byte on a decoder that is between two characters.
def start (b : Nat) : Option Partial × List Char :=
  if b < 0x80 then (none, [.ofNat b])
  else if 0xc2 ≤ b ∧ b ≤ 0xdf then (some { need := 1, acc := b - 0xc0 }, [])
  else if 0xe0 ≤ b ∧ b ≤ 0xef then
    (some {
      need  := 2
      acc   := b - 0xe0
      lower := if b = 0xe0 then 0xa0 else 0x80
      upper := if b = 0xed then 0x9f else 0xbf
    }, [])
  else if 0xf0 ≤ b ∧ b ≤ 0xf4 then
    (some {
      need  := 3
      acc   := b - 0xf0
      lower := if b = 0xf0 then 0x90 else 0x80
      upper := if b = 0xf4 then 0x8f else 0xbf
    }, [])
  else (none, [replacement])

-- The effect of one byte. A byte which does not continue the current sequence ends it: what was
-- read of the sequence becomes one replacement character and the byte starts the next one.
def feed : Option Partial → Nat → Option Partial × List Char
  | none,   b => start b
  | some p, b =>
    if p.lower ≤ b ∧ b ≤ p.upper then
      let acc := p.acc * 64 + (b - 0x80)
      if p.need = 1 then (none, [.ofNat acc]) else (some { need := p.need - 1, acc }, [])
    else ((start b).1, replacement :: (start b).2)

def decode : Option Partial → Bytes → List Char
  | none,   []      => []
  | some _, []      => [replacement]
  | p,      b :: bs => (feed p b.toNat).2 ++ decode (feed p b.toNat).1 bs

-- `String::from_utf8_lossy`: every maximal ill-formed part is replaced by one U+FFFD.
def fromUtf8Lossy (bs : Bytes) : List Char :=
  decode none bs

@[simp]
theorem fromUtf8Lossy_nil : fromUtf8Lossy [] = [] := rfl

theorem decode_ofNat (h : b < 256) :
    decode p (.ofNat b :: bs) = (feed p b).2 ++ decode (feed p b).1 bs := by
  have hb : (UInt8.ofNat b).toNat = b := by simp; omega
  cases p <;> simp only [decode, hb]

theorem decode_first (h : b < 256) (hs : start b = (p, cs)) :
    decode none (.ofNat b :: bs) = cs ++ decode p bs := by
  simp [decode_ofNat h, feed, hs]

theorem decode_next {p : Partial} (h : b < 256) (hb : p.lower ≤ b ∧ b ≤ p.upper) (hn : p.need ≠ 1) :
    decode (some p) (.ofNat b :: bs) =
      decode (some { need := p.need - 1, acc := p.acc * 64 + (b - 0x80) }) bs := by
  simp [decode_ofNat h, feed, hb, hn]

theorem decode_last {p : Partial} {c : Char} (h : b < 256) (hb : p.lower ≤ b ∧ b ≤ p.upper)
    (hn : p.need = 1) (hc : p.acc * 64 + (b - 0x80) = c.toNat) :
    decode (some p) (.ofNat b :: bs) = c :: decode none bs := by
  simp [decode_ofNat h, feed, hb, hn, hc]

theorem not_surrogate (c : Char) : ¬(0xd800 ≤ c.toNat ∧ c.toNat ≤ 0xdfff) := by
  have := c.valid
  simp only [UInt32.isValidChar, Nat.isValidChar] at this
  simp only [Char.toNat]
  omega

theorem toNat_le (c : Char) : c.toNat ≤ 0x10ffff := by
  have := c.valid
  simp only [UInt32.isValidChar, Nat.isValidChar] at this
  simp only [Char.toNat]
  omega

-- Decoding undoes encoding, one character at a time. The cases are the four lengths of an encoding.
theorem decode_utf8EncodeChar (c : Char) :
    decode none (String.utf8EncodeChar c ++ bs) = c :: decode none bs := by
  have hs := not_surrogate c
  have hl := toNat_le c
  simp only [String.utf8EncodeChar, show c.val.toNat = c.toNat from rfl]
  split
  case isTrue h =>
    have hb : start c.toNat = (none, [c]) := by simp [start, show c.toNat < 128 by omega]
    exact decode_first (by omega) hb
  case isFalse h₁ =>
  split
  case isTrue h =>
    refine (decode_first (by omega) (by rw [start, if_neg (by omega), if_pos (by omega)])).trans ?_
    exact decode_last (by omega) (by simp; omega) rfl (by simp; omega)
  case isFalse h₂ =>
  split
  case isTrue h =>
    refine (decode_first (by omega)
      (by rw [start, if_neg (by omega), if_neg (by omega), if_pos (by omega)])).trans ?_
    refine (decode_next (by omega) (by dsimp only; split <;> split <;> omega) (by simp)).trans ?_
    exact decode_last (by omega) (by simp; omega) rfl (by simp; omega)
  case isFalse h₃ =>
    refine (decode_first (by omega)
      (by rw [start, if_neg (by omega), if_neg (by omega), if_neg (by omega), if_pos (by omega)])).trans ?_
    refine (decode_next (by omega) (by dsimp only; split <;> split <;> omega) (by simp)).trans ?_
    refine (decode_next (by omega) (by simp; omega) (by simp)).trans ?_
    exact decode_last (by omega) (by simp; omega) rfl (by simp; omega)

@[simp]
theorem fromUtf8Lossy_utf8 (cs : List Char) : fromUtf8Lossy (utf8 cs) = cs := by
  induction cs
  case nil         => rfl
  case cons c _ ih => exact (decode_utf8EncodeChar c).trans (congrArg _ ih)

theorem utf8_injective (h : utf8 cs₁ = utf8 cs₂) : cs₁ = cs₂ := by
  simpa using congrArg fromUtf8Lossy h

-- A byte string that is the encoding of a text. Lossy decoding leaves exactly these as they are.
def IsUtf8 (bs : Bytes) : Prop :=
  utf8 (fromUtf8Lossy bs) = bs

instance : DecidablePred IsUtf8 :=
  fun _ => inferInstanceAs (Decidable (_ = _))

-- `String::from_utf8`
def fromUtf8 (bs : Bytes) : Option (List Char) :=
  if IsUtf8 bs then some (fromUtf8Lossy bs) else none

@[simp]
theorem isUtf8_utf8 : IsUtf8 (utf8 cs) := by
  simp [IsUtf8]

theorem isUtf8_iff : IsUtf8 bs ↔ ∃ cs, utf8 cs = bs :=
  ⟨fun h => ⟨_, h⟩, fun ⟨_, h⟩ => h ▸ isUtf8_utf8⟩

theorem IsUtf8.append (h₁ : IsUtf8 bs₁) (h₂ : IsUtf8 bs₂) : IsUtf8 (bs₁ ++ bs₂) := by
  rw [← h₁, ← h₂, ← utf8_append]
  exact isUtf8_utf8

@[simp]
theorem fromUtf8_utf8 : fromUtf8 (utf8 cs) = some cs := by
  simp [fromUtf8]

theorem fromUtf8_eq_some_iff : fromUtf8 bs = some cs ↔ utf8 cs = bs := by
  constructor
  case mp  =>
    intro h
    simp only [fromUtf8] at h
    split at h <;> cases h
    assumption
  case mpr => rintro rfl; exact fromUtf8_utf8

theorem fromUtf8_eq_none_iff : fromUtf8 bs = none ↔ ¬IsUtf8 bs := by
  simp [fromUtf8]

theorem fromUtf8Lossy_append (c : Char) (bs : Bytes) :
    fromUtf8Lossy (String.utf8EncodeChar c ++ bs) = c :: fromUtf8Lossy bs :=
  decode_utf8EncodeChar c

theorem isUtf8_append_iff {c : Char} : IsUtf8 (String.utf8EncodeChar c ++ bs) ↔ IsUtf8 bs := by
  rw [IsUtf8, fromUtf8Lossy_append, utf8_cons, List.append_cancel_left_eq, IsUtf8]

theorem fromUtf8_append (c : Char) (bs : Bytes) :
    fromUtf8 (String.utf8EncodeChar c ++ bs) = (fromUtf8 bs).map (c :: ·) := by
  simp only [fromUtf8, isUtf8_append_iff, fromUtf8Lossy_append]
  split <;> rfl

-- A part of a character is not text.
theorem not_isUtf8_take {c : Char} (h : 0 < n) (hn : n < c.utf8Size) : ¬IsUtf8 ((String.utf8EncodeChar c).take n) := by
  intro hu
  obtain ⟨cs, hc⟩ := isUtf8_iff.mp hu
  have hl := congrArg List.length hc
  rw [List.length_take, String.length_utf8EncodeChar] at hl
  cases cs
  case nil =>
    rw [utf8_nil, List.length_nil] at hl
    omega
  case cons d ds =>
    have he : String.utf8EncodeChar c ++ [] = String.utf8EncodeChar d ++ (utf8 ds ++ (String.utf8EncodeChar c).drop n) := by
      rw [List.append_nil, ← List.append_assoc, ← utf8_cons, hc, List.take_append_drop]
    have he := congrArg fromUtf8Lossy he
    rw [fromUtf8Lossy_append, fromUtf8Lossy_append] at he
    rw [utf8_cons, List.length_append, String.length_utf8EncodeChar, ← (List.cons.inj he).1] at hl
    omega

theorem lt_ascii_ofNat (h : (.ofNat b : UInt8) < 0x80) (hb : b < 256) : b < 0x80 := by
  rw [UInt8.lt_iff_toNat_lt] at h
  simp only [UInt8.toNat_ofNat', UInt8.toNat_ofNat] at h
  omega

-- Only one-byte characters have a byte below 0x80.
theorem utf8EncodeChar_of_mem_ascii {c : Char} (h : x ∈ String.utf8EncodeChar c) (hx : x < 0x80) :
    String.utf8EncodeChar c = [x] := by
  have hl := toNat_le c
  have hb {b : Nat} (hb : x = .ofNat b) (hl : b < 256) : b < 0x80 := lt_ascii_ofNat (hb ▸ hx) hl
  simp only [String.utf8EncodeChar, show c.val.toNat = c.toNat from rfl] at h ⊢
  split at h
  case isTrue => simp_all
  case isFalse =>
  split at h
  case isTrue =>
    simp only [List.mem_cons, List.not_mem_nil, or_false] at h
    rcases h with h | h <;> exact absurd (hb h (by omega)) (by omega)
  case isFalse =>
  split at h
  case isTrue =>
    simp only [List.mem_cons, List.not_mem_nil, or_false] at h
    rcases h with h | h | h <;> exact absurd (hb h (by omega)) (by omega)
  case isFalse =>
    simp only [List.mem_cons, List.not_mem_nil, or_false] at h
    rcases h with h | h | h | h <;> exact absurd (hb h (by omega)) (by omega)

-- An ASCII byte in an encoding is a character of its own.
theorem utf8_eq_append_cons (hx : x < 0x80) (h : utf8 cs = l ++ x :: r) :
    ∃ cs₁ c cs₂, utf8 cs₁ = l ∧ String.utf8EncodeChar c = [x] ∧ utf8 cs₂ = r := by
  induction cs generalizing l
  case nil => simp at h
  case cons c cs ih =>
    have hc {e : Bytes} (he : String.utf8EncodeChar c = l ++ x :: e) : String.utf8EncodeChar c = [x] ∧ l = [] ∧ e = [] := by
      have h₁ := utf8EncodeChar_of_mem_ascii (c := c) (by simp [he]) hx
      cases l <;> simp_all
    rw [utf8_cons, List.append_eq_append_iff] at h
    rcases h with ⟨l', rfl, h⟩ | ⟨e, he, h⟩
    case inl =>
      obtain ⟨cs₁, c', cs₂, rfl, hc', hr⟩ := ih h
      exact ⟨c :: cs₁, c', cs₂, rfl, hc', hr⟩
    case inr =>
      cases e
      case nil =>
        obtain ⟨cs₁, c', cs₂, h₁, hc', hr⟩ := ih (l := []) h.symm
        exact ⟨c :: cs₁, c', cs₂, by simp [h₁, he], hc', hr⟩
      case cons =>
        obtain ⟨rfl, rfl⟩ := List.cons.inj h
        have ⟨h₁, h₂, h₃⟩ := hc he
        exact ⟨[], c, cs, h₂ ▸ rfl, h₁, by simp [h₃]⟩

theorem utf8_ascii {x : UInt8} (hx : x < 0x80) : utf8 [.ofNat x.toNat] = [x] := by
  have hn : x.toNat < 128 := by simpa [UInt8.lt_iff_toNat_lt] using hx
  have hv : (Char.ofNat x.toNat).val.toNat = x.toNat := by
    rw [Char.ofNat, dif_pos (.inl (by omega))]
    rfl
  simp only [utf8_cons, utf8_nil, String.utf8EncodeChar, hv]
  rw [if_pos (by omega)]
  simp

theorem mem_of_mem_utf8 (hx : x < 0x80) (h : x ∈ utf8 cs) : Char.ofNat x.toNat ∈ cs := by
  have ⟨c, hc, h⟩ := List.mem_flatMap.mp h
  have he : utf8 [c] = utf8 [.ofNat x.toNat] := by
    rw [utf8_ascii hx, utf8_cons, utf8EncodeChar_of_mem_ascii h hx]
    rfl
  exact List.singleton_inj.mp (utf8_injective he) ▸ hc

theorem length_utf8 (h : ∀ c ∈ cs, c.toNat < 0x80) : (utf8 cs).length = cs.length := by
  induction cs
  case nil         => rfl
  case cons c cs ih =>
    have ⟨hc, h⟩ := List.forall_mem_cons.mp h
    have hs : c.utf8Size = 1 := by
      rw [Char.utf8Size, if_pos (by simp [UInt32.le_iff_toNat_le]; omega)]
    rw [utf8_cons, List.length_append, ih h, String.length_utf8EncodeChar, hs, List.length_cons, Nat.add_comm]

-- At an ASCII byte a byte string can be split.
theorem isUtf8_append_cons_iff (hx : x < 0x80) : IsUtf8 (l ++ x :: r) ↔ IsUtf8 l ∧ IsUtf8 r := by
  constructor
  case mp =>
    intro h
    have ⟨cs₁, _, cs₂, h₁, _, h₂⟩ := utf8_eq_append_cons hx h
    exact ⟨h₁ ▸ isUtf8_utf8, h₂ ▸ isUtf8_utf8⟩
  case mpr =>
    intro ⟨hl, hr⟩
    exact hl.append <| .append (isUtf8_iff.mpr ⟨_, utf8_ascii hx⟩ : IsUtf8 [x]) hr

end Text
