import ZyrisDocker.Lib.Text

namespace Text

-- The number of bytes that a byte which cannot start a character becomes longer by its replacement.
def startGrowth (b : Nat) : Nat :=
  if b < 0x80 ∨ (start b).1.isSome then 0 else 2

-- How much longer the encoding of the decoded text is than the bytes. Every ill-formed part has one to
-- three bytes, and its replacement three. Of the current sequence `seen` bytes have been read.
def growth : Option Partial → (seen : Nat) → Bytes → Nat
  | none,   _,    []      => 0
  | some _, seen, []      => 3 - seen
  | none,   _,    b :: bs => startGrowth b.toNat + growth (feed none b.toNat).1 1 bs
  | some p, seen, b :: bs =>
    if p.lower ≤ b.toNat ∧ b.toNat ≤ p.upper
    then growth (feed (some p) b.toNat).1 (seen + 1) bs
    else 3 - seen + startGrowth b.toNat + growth (feed (some p) b.toNat).1 1 bs

theorem utf8Size_ofNat (h : n < 0xd800 ∨ 0xdfff < n ∧ n < 0x110000) : (Char.ofNat n).utf8Size =
    if n ≤ 0x7f then 1 else if n ≤ 0x7ff then 2 else if n ≤ 0xffff then 3 else 4 := by
  have hv : (Char.ofNat n).val.toNat = n := by
    rw [Char.ofNat, dif_pos h]
    rfl
  simp only [Char.utf8Size, UInt32.le_iff_toNat_le, hv]
  rfl

namespace Partial

-- How many characters each value of the next byte leaves.
def span (p : Partial) : Nat :=
  match p.need with
  | 0 | 1 => 1
  | 2     => 64
  | _     => 4096

-- Every character that the sequence can become is at least `lo` and less than `hi`.
def Between (p : Partial) (lo hi : Nat) : Prop :=
  lo ≤ (p.acc * 64 + (p.lower - 0x80)) * p.span ∧ (p.acc * 64 + (p.upper - 0x80) + 1) * p.span ≤ hi

-- Every character that the sequence can become has the same size. Of it, `seen` bytes have been read.
structure Sized (p : Partial) (seen : Nat) : Prop where
  need  : 1 ≤ p.need ∧ p.need ≤ 3
  lower : 0x80 ≤ p.lower
  upper : p.upper ≤ 0xbf
  size  : (seen + p.need = 2 ∧ p.Between 0x80 0x800) ∨
          (seen + p.need = 3 ∧ p.Between 0x800 0xd800) ∨
          (seen + p.need = 3 ∧ p.Between 0xe000 0x10000) ∨
          (seen + p.need = 4 ∧ p.Between 0x10000 0x110000)

variable {p : Partial}

def next (p : Partial) (b : Nat) : Partial where
  need := p.need - 1
  acc  := p.acc * 64 + (b - 0x80)

theorem Between.next (h : p.Between lo hi) (hn : 2 ≤ p.need ∧ p.need ≤ 3) (hl : 0x80 ≤ p.lower)
    (hb : p.lower ≤ b ∧ b ≤ p.upper) : (p.next b).Between lo hi := by
  simp only [Between, span, Partial.next] at h ⊢
  have hn : p.need = 2 ∨ p.need = 3 := by omega
  rcases hn with hn | hn <;> simp only [hn] at h ⊢ <;> omega

theorem Sized.next (h : p.Sized seen) (hn : p.need ≠ 1) (hb : p.lower ≤ b ∧ b ≤ p.upper) :
    (p.next b).Sized (seen + 1) := by
  have hp := h.need
  have hn : 2 ≤ p.need ∧ p.need ≤ 3 := by omega
  have hs : seen + 1 + (p.next b).need = seen + p.need := by simp only [Partial.next]; omega
  exact {
    need  := by simp only [Partial.next]; omega
    lower := Nat.le_refl _
    upper := Nat.le_refl _
    size  := by
      rw [hs]
      have hb {lo hi} (h' : p.Between lo hi) := h'.next hn h.lower hb
      exact h.size.imp (.imp_right hb) <| .imp (.imp_right hb) <| .imp (.imp_right hb) (.imp_right hb)
  }

theorem Sized.utf8Size (h : p.Sized seen) (hn : p.need = 1) (hb : p.lower ≤ b ∧ b ≤ p.upper) :
    (Char.ofNat (p.acc * 64 + (b - 0x80))).utf8Size = seen + 1 := by
  have hl := h.lower
  have hs := h.size
  simp only [Between, span, hn] at hs
  rw [utf8Size_ofNat (by omega)]
  split
  case isTrue => omega
  case isFalse =>
  split
  case isTrue => omega
  case isFalse =>
  split <;> omega

theorem Sized.seen_le (h : p.Sized seen) : seen ≤ 3 := by
  have := h.need
  have := h.size
  omega

end Partial

-- A first byte is a character, starts a sequence, or cannot do either.
theorem start_cases (b : Nat) :
    (b < 0x80 ∧ start b = (none, [.ofNat b])) ∨
    (0x80 ≤ b ∧ start b = (none, [replacement])) ∨
    (0x80 ≤ b ∧ ∃ p, start b = (some p, []) ∧ p.Sized 1) := by
  simp only [start]
  split
  case isTrue h => exact .inl ⟨h, rfl⟩
  case isFalse h =>
  right
  split
  case isTrue =>
    refine .inr ⟨by omega, _, rfl, by simp, by simp, by simp, ?_⟩
    simp only [Partial.Between, Partial.span, true_and]
    omega
  case isFalse =>
  split
  case isTrue =>
    refine .inr ⟨by omega, _, rfl, by simp, by dsimp only; split <;> omega, by dsimp only; split <;> omega, ?_⟩
    simp only [Partial.Between, Partial.span, true_and]
    split <;> split <;> omega
  case isFalse =>
  split
  case isTrue =>
    refine .inr ⟨by omega, _, rfl, by simp, by dsimp only; split <;> omega, by dsimp only; split <;> omega, ?_⟩
    simp only [Partial.Between, Partial.span, true_and]
    split <;> split <;> omega
  case isFalse => exact .inl ⟨by omega, rfl⟩

theorem length_utf8_cons : (utf8 (c :: cs)).length = c.utf8Size + (utf8 cs).length := by
  rw [utf8_cons, List.length_append, String.length_utf8EncodeChar]

theorem utf8Size_replacement : replacement.utf8Size = 3 := rfl

theorem utf8Size_ascii (h : b < 0x80) : (Char.ofNat b).utf8Size = 1 := by
  rw [utf8Size_ofNat (by omega), if_pos (by omega)]

-- The bytes of the current sequence that have been read.
def pending : Option Partial → (seen : Nat) → Nat
  | none,   _    => 0
  | some _, seen => seen

@[simp]
theorem pending_none : pending none seen = 0 := rfl

@[simp]
theorem pending_some : pending (some p) seen = seen := rfl

theorem sized_start (h : (start b).1 = some p) : p.Sized 1 := by
  rcases start_cases b with ⟨_, hs⟩ | ⟨_, hs⟩ | ⟨_, q, hs, hq⟩
  · simp [hs] at h
  · simp [hs] at h
  · simp only [hs, Option.some.injEq] at h
    exact h ▸ hq

-- A byte between two characters is encoded, replaced or kept.
theorem length_start (b : Nat) : (utf8 (start b).2).length + pending (start b).1 1 = 1 + startGrowth b := by
  rcases start_cases b with ⟨hb, hs⟩ | ⟨hb, hs⟩ | ⟨hb, q, hs, _⟩
  · simp [startGrowth, hs, hb, pending, utf8Size_ascii hb]
  · simp [startGrowth, hs, Nat.not_lt.mpr hb, pending, utf8Size_replacement]
  · simp [startGrowth, hs, pending]

-- The bytes seen of the current sequence, those that follow and their growth make up the encoding of
-- the decoded text.
theorem sized_none : ∀ p ∈ (none : Option Partial), p.Sized seen := nofun

theorem length_utf8_decode (st : Option Partial) (seen : Nat) (h : ∀ p ∈ st, p.Sized seen) :
    (utf8 (decode st bs)).length = pending st seen + bs.length + growth st seen bs := by
  induction bs generalizing st seen
  case nil =>
    cases st
    case none   => rfl
    case some p =>
      have := (h p rfl).seen_le
      have := utf8Size_replacement
      simp only [decode, growth, pending, length_utf8_cons, utf8_nil, List.length_nil]
      omega
  case cons b bs ih =>
    have hs := length_start b.toNat
    have ih' := ih (start b.toNat).1 1 fun _ => sized_start
    cases st
    case none =>
      simp only [decode, feed, growth, utf8_append, List.length_append, List.length_cons, pending_none]
      omega
    case some p =>
      have hp := h p rfl
      have hl := hp.seen_le
      by_cases hb : p.lower ≤ b.toNat ∧ b.toNat ≤ p.upper
      case neg =>
        have hr := utf8Size_replacement
        simp only [decode, feed, growth, if_neg hb, List.cons_append, length_utf8_cons, utf8_append, List.length_append,
          List.length_cons, pending_some]
        omega
      case pos =>
        by_cases hn : p.need = 1
        case pos =>
          have hc := hp.utf8Size hn hb
          have ih := ih none (seen + 1) sized_none
          simp only [decode, feed, growth, if_pos hb, if_pos hn, List.singleton_append, length_utf8_cons, List.length_cons,
            pending_some, pending_none] at ih ⊢
          omega
        case neg =>
          have ih := ih (p.next b.toNat) (seen + 1) fun _ he => Option.some.inj he ▸ hp.next hn hb
          simp only [decode, feed, growth, if_pos hb, if_neg hn, List.nil_append, List.length_cons, pending_some, Partial.next] at ih ⊢
          omega

-- How long the encoding of a lossily decoded text is.
theorem length_utf8_fromUtf8Lossy (bs : Bytes) : (utf8 (fromUtf8Lossy bs)).length = bs.length + growth none 0 bs := by
  rw [fromUtf8Lossy, length_utf8_decode none 0 nofun, pending_none, Nat.zero_add]

-- What is text already does not grow.
theorem growth_of_isUtf8 (h : IsUtf8 bs) : growth none 0 bs = 0 := by
  have hl := length_utf8_fromUtf8Lossy bs
  rw [show utf8 (fromUtf8Lossy bs) = bs from h] at hl
  omega

end Text
