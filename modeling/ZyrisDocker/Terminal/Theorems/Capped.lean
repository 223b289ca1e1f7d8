import ZyrisDocker.Terminal.Basic

open Text

namespace GatedTerminal

variable {cap : Nat} {stream chunk : Bytes} {chunks : List Bytes}

-- What is to be kept of a stream.
def Capped.ofStream (cap : Nat) (stream : Bytes) : Capped where
  out    := stream.take (min cap stream.length)
  capped := cap < stream.length

@[simp]
theorem Capped.ofStream_nil (cap : Nat) : ofStream cap [] = {} := by
  simp [ofStream]

theorem Capped.ofStream_out : (ofStream cap stream).out = stream.take cap := by
  simp [ofStream, List.take_eq_take_iff]

-- Of a longer stream is kept what was kept before, and as much of the chunk as there is room for.
theorem Capped.add_ofStream : (ofStream cap stream).add cap chunk = ofStream cap (stream ++ chunk) := by
  have hr : cap - (stream.take cap).length = cap - stream.length := by
    simp
    omega
  have ho : ((ofStream cap stream).add cap chunk).out = (ofStream cap (stream ++ chunk)).out := by
    have ht : chunk.take (min chunk.length (cap - stream.length)) = chunk.take (cap - stream.length) :=
      List.take_eq_take_iff.mpr (by omega)
    simp only [add, ofStream_out, hr, ht, List.take_append]
    split
    case isTrue  => rfl
    case isFalse => simp [show cap - stream.length = 0 by omega]
  have hc : ((ofStream cap stream).add cap chunk).capped = (ofStream cap (stream ++ chunk)).capped := by
    simp only [add, ofStream_out, hr]
    simp [ofStream, ← Bool.decide_or]
    omega
  exact congrArg₂ mk ho hc

theorem readCappedLoop_eq (hc : ∀ chunk ∈ chunks, chunk ≠ []) (hl : last = .ok [] ∨ last = .err) :
    readCappedLoop cap (.ofStream cap stream) (chunks.map .ok ++ last :: rest) =
      some (.ofStream cap (stream ++ chunks.flatten), rest) := by
  induction chunks generalizing stream
  case nil =>
    simp only [List.map_nil, List.nil_append, List.flatten_nil, List.append_nil]
    rcases hl with rfl | rfl <;> rfl
  case cons chunk chunks ih =>
    have ⟨b, bs, he⟩ := List.exists_cons_of_ne_nil <| hc chunk (.head _)
    have ih := @ih (stream ++ chunk) fun chunk h => hc chunk (.tail _ h)
    rw [List.flatten_cons, ← List.append_assoc, ← ih, ← Capped.add_ofStream, he]
    rfl

-- Whatever chunks a stream comes in, all of them are read, and the same is kept.
theorem readCapped_eq (hs : chunks.flatten = stream) (hc : ∀ chunk ∈ chunks, chunk ≠ [] ∧ chunk.length ≤ chunkSize)
    (hl : last = .ok [] ∨ last = .err) :
    readCapped cap (chunks.map .ok ++ last :: rest) =
      some ({ out := stream.take (min cap stream.length), capped := cap < stream.length }, rest) := by
  rw [readCapped, ← Capped.ofStream_nil cap, readCappedLoop_eq (fun chunk h => (hc chunk h).1) hl, List.nil_append, hs]
  rfl

-- A cap that is reached within the second chunk.
theorem readCapped_letters :
    readCapped 4 [.ok [97, 98, 99], .ok [100, 101], .ok []] = some ({ out := [97, 98, 99, 100], capped := true }, []) := by
  have hc : ∀ chunk ∈ ([[97, 98, 99], [100, 101]] : List Bytes), chunk ≠ [] ∧ chunk.length ≤ chunkSize := by decide
  exact readCapped_eq rfl hc (.inl rfl)

end GatedTerminal
