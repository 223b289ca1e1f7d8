import ZyrisDocker.Lib.Words

-- Lists that are written as one text, with commas in between.

namespace Text

-- Blanks around an entry do not count, and neither do empty entries.
def csv (raw : String) : List String :=
  raw.toList.splitOn ',' |>.map (fun s => trim (.ofList s)) |>.filter (· ≠ "")

structure IsEntry (s : String) : Prop where
  trimmed : trim s = s
  ne_nil  : s ≠ ""
  plain   : ',' ∉ s.toList

theorem isEntry_of_mem_csv {raw : String} (h : s ∈ csv raw) : IsEntry s := by
  obtain ⟨hm, hn⟩ := List.mem_filter.mp h
  obtain ⟨l, hl, rfl⟩ := List.mem_map.mp hm
  refine ⟨trim_trim _, by simpa using hn, fun hc => ?_⟩
  have hc := mem_of_mem_trim hc
  rw [String.toList_ofList] at hc
  rw [List.splitOn_eq_splitOnP] at hl
  simpa using no_sep_of_mem_splitOnP hl ',' hc

theorem mem_of_mem_csv {raw : String} (h : s ∈ csv raw) (hc : c ∈ s.toList) : c ∈ raw.toList := by
  obtain ⟨hm, _⟩ := List.mem_filter.mp h
  obtain ⟨l, hl, rfl⟩ := List.mem_map.mp hm
  have hc := mem_of_mem_trim hc
  rw [String.toList_ofList] at hc
  have he : [','].intercalate (raw.toList.splitOn ',') = raw.toList := List.intercalate_splitOn ','
  exact he ▸ mem_intercalate hl hc

theorem csv_of_splitOn {raw : String} {l : List String} (h : ∀ s ∈ l, IsEntry s)
    (hs : raw.toList.splitOn ',' = l.map String.toList) : csv raw = l := by
  have hm : (raw.toList.splitOn ',').map (fun s => trim (.ofList s)) = l := by
    rw [hs, List.map_map]
    exact (List.map_congr_left fun s hm => by simpa using (h s hm).trimmed).trans <| List.map_id _
  rw [csv, hm]
  exact List.filter_eq_self.mpr fun s hm => by simpa using (h s hm).ne_nil

-- Every list of entries can be written down, and is read back.
theorem csv_intercalate {l : List String} (h : ∀ s ∈ l, IsEntry s) : csv (",".intercalate l) = l := by
  cases l
  case nil => decide
  case cons s l =>
    refine csv_of_splitOn h ?_
    rw [String.toList_intercalate]
    refine List.splitOn_intercalate _ (fun cs hc => ?_) (by simp)
    obtain ⟨s, hs, rfl⟩ := List.mem_map.mp hc
    exact (h s hs).plain

theorem csv_blank {raw : String} (h : trim raw = "") : csv raw = [] := by
  have hc : ',' ∉ raw.toList := fun hc => absurd (isWhitespace_of_trim h _ hc) (by decide)
  rw [csv, List.splitOn_eq_singleton hc, List.map_singleton, String.ofList_toList, h]
  rfl

end Text
