import ZyrisDocker.Lib.Text

open Text

-- A pipe of bounded capacity, and whether some process still reads from it or can still write to it.
structure Pipe where
  capacity : Nat
  buffer   : Bytes := []
  fits     : buffer.length ≤ capacity := by simp
  reader   : Bool := true
  writer   : Bool := true

namespace Pipe

variable {pipe pipe' : Pipe} {bs : Bytes}

def room (pipe : Pipe) : Nat :=
  pipe.capacity - pipe.buffer.length

-- A write waits as long as nothing fits.
def push (pipe : Pipe) (bs : Bytes) : Option Pipe :=
  if h : pipe.buffer.length + bs.length ≤ pipe.capacity
  then some { pipe with buffer := pipe.buffer ++ bs, fits := by simpa using h }
  else none

def pull (pipe : Pipe) (n : Nat) : Pipe :=
  { pipe with buffer := pipe.buffer.drop n, fits := by have := pipe.fits; simp; omega }

@[simp]
theorem pull_capacity : (pipe.pull n).capacity = pipe.capacity := rfl

@[simp]
theorem pull_buffer : (pipe.pull n).buffer = pipe.buffer.drop n := rfl

theorem push_isSome_iff : (pipe.push bs).isSome ↔ bs.length ≤ pipe.room := by
  have := pipe.fits
  simp only [push, room]
  split <;> simp <;> omega

theorem room_of_empty (h : pipe.buffer = []) : pipe.room = pipe.capacity := by
  simp [room, h]

theorem pull_length_le (pipe : Pipe) (n : Nat) : (pipe.pull n).buffer.length ≤ pipe.buffer.length := by
  simp

theorem push_eq (h : pipe.push bs = some pipe') :
    pipe'.capacity = pipe.capacity ∧ pipe'.buffer = pipe.buffer ++ bs ∧ pipe'.reader = pipe.reader := by
  simp only [push] at h
  split at h <;> cases h
  exact ⟨rfl, rfl, rfl⟩

theorem push_writer (h : pipe.push bs = some pipe') : pipe'.writer = pipe.writer := by
  simp only [push] at h
  split at h <;> cases h
  rfl

theorem push_room (h : pipe.push bs = some pipe') : pipe'.room = pipe.room - bs.length := by
  have ⟨hc, hb, _⟩ := push_eq h
  simp only [room, hc, hb, List.length_append]
  omega

end Pipe
