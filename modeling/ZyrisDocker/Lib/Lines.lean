import ZyrisDocker.Lib.Words

-- Texts that are made of lines.

namespace Text

-- A line without the carriage return that may be at its end.
def chomp (line : List Char) : List Char :=
  if line.getLast? = some '\r' then line.dropLast else line

-- `str::lines`. What comes after the last line feed is a line of its own, unless it is empty.
def lines (text : List Char) : List (List Char) :=
  let parts := text.splitOn '\n'
  parts.dropLast.map chomp ++ parts.getLast?.toList.filter (· ≠ [])

def unlines (ls : List (List Char)) : List Char :=
  ls.flatMap (· ++ ['\n'])

structure IsLine (line : List Char) : Prop where
  plain   : '\n' ∉ line
  chomped : line.getLast? ≠ some '\r'

theorem splitOn_unlines (h : ∀ l ∈ ls, IsLine l) : (unlines ls).splitOn '\n' = ls ++ [[]] := by
  induction ls
  case nil => rfl
  case cons l ls ih =>
    have ⟨hl, h⟩ := List.forall_mem_cons.mp h
    have hu : unlines (l :: ls) = l ++ '\n' :: unlines ls := by simp [unlines]
    rw [hu, List.splitOn_append_cons_self, List.splitOn_eq_singleton hl.plain, ih h]
    rfl

theorem lines_unlines (h : ∀ l ∈ ls, IsLine l) : lines (unlines ls) = ls := by
  have hc : ls.map chomp = ls := (List.map_congr_left fun l hl => if_neg (h l hl).chomped).trans <| List.map_id _
  rw [lines, splitOn_unlines h, List.dropLast_concat, hc]
  simp

theorem isLine_of_not_mem (hn : '\n' ∉ line) (hr : '\r' ∉ line) : IsLine line :=
  ⟨hn, fun h => hr <| List.mem_of_getLast? h⟩

end Text
