import Mathlib.Data.List.Basic

/-! # Splitting and joining strings at a separator

Splitting always yields at least one segment, and joining undoes it. Conversely a
non-empty list of segments is recovered from its join when no segment contains the
separator; in general each segment contributes its own split.
-/
namespace ReapiCache.Text
variable (sep : Char)

def split (s : String) : List String := (s.toList.splitOn sep).map String.ofList

def join (segments : List String) : String := (String.singleton sep).intercalate segments

variable {sep}

theorem toList_join (l : List String) :
    (join sep l).toList = [sep].intercalate (l.map String.toList) := by
  simp [join]

@[simp] theorem join_nil : join sep [] = "" := by simp [join]
@[simp] theorem join_singleton (s : String) : join sep [s] = s := by simp [join]

theorem map_toList_split (s : String) : (split sep s).map String.toList = s.toList.splitOn sep := by
  simp [split, Function.comp_def]

/-- Joining the segments of a string gives the string back. -/
@[simp] theorem join_split (s : String) : join sep (split sep s) = s := by
  apply String.toList_inj.mp
  rw [toList_join, map_toList_split, List.intercalate_splitOn]

/-- A string without the separator is one segment. -/
theorem split_eq_singleton {s : String} (h : sep ∉ s.toList) : split sep s = [s] := by
  simp [split, List.splitOn_eq_singleton h]

/-- Splitting a join splits every joined part. -/
theorem split_join {l : List String} (h : l ≠ []) : split sep (join sep l) = l.flatMap (split sep) := by
  induction l with
  | nil => exact absurd rfl h
  | cons s l ih =>
    cases l with
    | nil => simp
    | cons t l =>
      have hjoin : (join sep (s :: t :: l)).toList = s.toList ++ sep :: (join sep (t :: l)).toList := by
        simp [toList_join]
      have hsplit : split sep (join sep (s :: t :: l)) = split sep s ++ split sep (join sep (t :: l)) := by
        simp only [split, hjoin, List.splitOn_append_cons_self, List.map_append]
      rw [hsplit, ih (by simp)]
      simp only [List.flatMap_cons]

/-- No segment contains the separator. -/
theorem not_mem_of_mem_split {s segment : String} (h : segment ∈ split sep s) : sep ∉ segment.toList := by
  have hparts : ∀ l : List Char, ∀ part ∈ l.splitOn sep, sep ∉ part := by
    intro l
    induction l with
    | nil => simp
    | cons c l ih =>
      intro part hpart
      rw [List.splitOn, List.splitOnP_cons_eq_if_modifyHead, ← List.splitOn] at hpart
      by_cases hc : c = sep
      · rw [if_pos (by simpa using hc)] at hpart
        rcases List.mem_cons.mp hpart with rfl | hpart
        · exact List.not_mem_nil
        · exact ih part hpart
      · rw [if_neg (by simpa using hc)] at hpart
        cases hsplit : l.splitOn sep with
        | nil =>
          rw [hsplit] at hpart
          cases hpart
        | cons first rest =>
          rw [hsplit] at ih hpart
          rcases List.mem_cons.mp hpart with rfl | hpart
          · simp [Ne.symm hc, ih first List.mem_cons_self]
          · exact ih part (List.mem_cons_of_mem _ hpart)
  obtain ⟨part,hpart,rfl⟩ := List.mem_map.mp h
  rw [String.toList_ofList]
  exact hparts _ part hpart

end ReapiCache.Text
