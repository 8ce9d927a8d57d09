import LoggerHierarchy.Name

namespace LoggerHierarchy.Name

/-!
# Segments of names

* `dot_notMem_of_mem_segments` — no segment of a name holds a dot;
* `closed` — a name for a path of segments, in which a dot closes each of them;
* `segments_closed` — the path is read off it again.
-/

variable {cs part : List Char} {segment : String}

/-- No part between two dots has a dot. -/
theorem dot_notMem_of_mem_splitDots (h : part ∈ splitDots cs) : '.' ∉ part := by
  induction cs generalizing part with
  | nil =>
    obtain rfl : part = [] := by simpa [splitDots] using h
    simp
  | cons c cs ih =>
    rw [splitDots] at h
    split at h
    · obtain rfl | h := List.mem_cons.1 h
      · simp
      · exact ih h
    · rename_i hc
      split at h
      · rename_i hnone
        exact absurd hnone (splitDots_ne_nil cs)
      · rename_i first rest hparts
        rw [hparts] at ih
        obtain rfl | h := List.mem_cons.1 h
        · have hfirst : '.' ∉ first := ih (by simp)
          simp [hfirst, Ne.symm hc]
        · exact ih (List.mem_cons_of_mem _ h)

/-- No segment of a name holds a dot. -/
theorem dot_notMem_of_mem_segments {name : String} (h : segment ∈ segments name) :
    '.' ∉ segment.toList := by
  obtain ⟨part, hpart, rfl⟩ := List.mem_map.1 h
  have hsplit : part ∈ splitDots name.toList := by
    rw [dropEmptyLast] at hpart
    split at hpart
    · exact List.dropLast_subset _ hpart
    · exact hpart
  simpa using dot_notMem_of_mem_splitDots hsplit

/-! ### A name for every path -/

/-- The characters of a path's name: each segment with a dot after it. -/
def closedChars : List String → List Char
  | [] => []
  | segment :: rest => segment.toList ++ '.' :: closedChars rest

/-- A name for a path of segments, in which a dot closes each of them. -/
def closed (path : List String) : String :=
  String.ofList (closedChars path)

/-- A part without dots is cut off at the first one. -/
theorem splitDots_append (h : '.' ∉ part) :
    splitDots (part ++ '.' :: cs) = part :: splitDots cs := by
  induction part with
  | nil => simp [splitDots]
  | cons c part ih =>
    obtain ⟨hc, hpart⟩ : '.' ≠ c ∧ '.' ∉ part := by simpa using h
    rw [List.cons_append, splitDots, if_neg (Ne.symm hc), ih hpart]

/-- A path that ends in a dot splits into its segments and an empty rest. -/
theorem splitDots_closedChars {path : List String} (h : ∀ segment ∈ path, '.' ∉ segment.toList) :
    splitDots (closedChars path) = path.map String.toList ++ [[]] := by
  induction path with
  | nil => rfl
  | cons segment rest ih =>
    have hrest := ih fun s hs => h s (List.mem_cons_of_mem _ hs)
    rw [closedChars, splitDots_append (h segment (by simp)), hrest]
    rfl

/-- The path is read off its name again, if no segment holds a dot. -/
theorem segments_closed {path : List String} (h : ∀ segment ∈ path, '.' ∉ segment.toList) :
    segments (closed path) = path := by
  have hchars : (closed path).toList = closedChars path := by simp [closed]
  have hmap : (String.ofList ∘ String.toList) = id := by
    funext s
    simp
  rw [segments, hchars, splitDots_closedChars h, dropEmptyLast, if_pos (by simp),
    List.dropLast_concat, List.map_map, hmap, List.map_id]

end LoggerHierarchy.Name
