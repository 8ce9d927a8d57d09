import LoggerHierarchy.Proofs.Name.FullName

namespace LoggerHierarchy.Name

/-!
# Reading names

* `Reads` — how a name is read from its front, one segment at a time; `reads_iff` — what is read are
  the segments that it is cut into;
* `segments_append_dot_eq_iff` — when a name with a dot and another name after it stands for the
  segments of both;
* `segments_full_eq_self_iff` — the paths that are read off their full names.
-/

variable {cs part : List Char} {parts : List (List Char)} {path : List String} {name : String}

/-! ### Cutting at dots -/

/-- A text is cut at a dot like what is before and what is after it. -/
theorem splitDots_append_dot (front back : List Char) :
    splitDots (front ++ '.' :: back) = splitDots front ++ splitDots back := by
  induction front with
  | nil => simp [splitDots]
  | cons c front ih =>
    obtain ⟨first, rest, hparts⟩ := List.exists_cons_of_ne_nil (splitDots_ne_nil front)
    rw [List.cons_append, splitDots, splitDots, ih, hparts]
    split <;> rfl

/-- Whether an empty part is dropped depends on the last part alone. -/
theorem dropEmptyLast_append (front : List (List Char)) (h : parts ≠ []) :
    dropEmptyLast (front ++ parts) = front ++ dropEmptyLast parts := by
  have hlast : (front ++ parts).getLast? = parts.getLast? := List.getLast?_append_of_ne_nil _ h
  have hinit : (front ++ parts).dropLast = front ++ parts.dropLast :=
    List.dropLast_append_of_ne_nil h
  rw [dropEmptyLast, dropEmptyLast, hlast, hinit]
  split <;> rfl

/-- Nothing is dropped unless the last part is empty. -/
theorem dropEmptyLast_eq_self_iff : dropEmptyLast parts = parts ↔ parts.getLast? ≠ some [] := by
  rw [dropEmptyLast]
  split
  · rename_i hlast
    have hne : parts ≠ [] := by
      rintro rfl
      simp at hlast
    have hshorter : parts.dropLast ≠ parts := by
      intro h
      have hlength := congrArg List.length h
      have hpos := List.length_pos_iff.2 hne
      rw [List.length_dropLast] at hlength
      omega
    simp [hshorter, hlast]
  · rename_i hlast
    simp [hlast]

/-- The last part of a text is empty iff the text is, or ends with a dot. -/
theorem getLast?_splitDots_eq_nil_iff :
    (splitDots cs).getLast? = some [] ↔ cs = [] ∨ cs.getLast? = some '.' := by
  constructor
  · intro hlast
    obtain ⟨init, hparts⟩ := List.getLast?_eq_some_iff.1 hlast
    have hcs := joined_splitDots cs
    rw [hparts] at hcs
    by_cases hinit : init = []
    · left
      rw [← hcs, hinit]
      rfl
    · right
      rw [← hcs, joined_concat hinit, List.getLast?_concat]
  · rintro (rfl | hlast)
    · rfl
    · obtain ⟨init, rfl⟩ := List.getLast?_eq_some_iff.1 hlast
      rw [splitDots_append_dot, splitDots, List.getLast?_concat]

/-! ### Segment by segment -/

/-- How a name is read from its front: up to each dot a segment, and what is left after the last dot
    is one more, if it is not empty. -/
inductive Reads : List Char → List String → Prop where
  | nothing : Reads [] []
  | last {segment : List Char} (hne : segment ≠ []) (hdots : '.' ∉ segment) :
      Reads segment [String.ofList segment]
  | dot {segment rest : List Char} {path : List String} (hdots : '.' ∉ segment)
      (hrest : Reads rest path) : Reads (segment ++ '.' :: rest) (String.ofList segment :: path)

/-- What is read are the parts between the dots, an empty last one left out. -/
theorem Reads.eq (h : Reads cs path) :
    path = (dropEmptyLast (splitDots cs)).map String.ofList := by
  induction h with
  | nothing => rfl
  | last hne hdots =>
    rw [splitDots_of_undotted hdots, dropEmptyLast_eq_self_iff.2 (by simpa using hne)]
    rfl
  | @dot segment rest path hdots _ ih =>
    have hkeep := dropEmptyLast_append [segment] (splitDots_ne_nil rest)
    rw [List.singleton_append] at hkeep
    rw [splitDots_append hdots, hkeep, ih]
    rfl

/-- Every name can be read as a path. -/
theorem exists_reads (cs : List Char) : ∃ path, Reads cs path := by
  -- each dot leaves a shorter text
  induction hlength : cs.length using Nat.strongRecOn generalizing cs with
  | ind length ih =>
    by_cases hdot : '.' ∈ cs
    · obtain ⟨segment, rest, rfl, hdots⟩ := List.eq_append_cons_of_mem hdot
      obtain ⟨path, hpath⟩ := ih rest.length (by simp [← hlength]; omega) rest rfl
      exact ⟨_, .dot hdots hpath⟩
    · by_cases hne : cs = []
      · exact ⟨[], hne ▸ .nothing⟩
      · exact ⟨_, .last hne hdot⟩

/-- A name is read in one way, as its segments. -/
theorem reads_iff : Reads name.toList path ↔ path = segments name := by
  constructor
  · exact Reads.eq
  · rintro rfl
    obtain ⟨path, hpath⟩ := exists_reads name.toList
    rw [segments, ← hpath.eq]
    exact hpath

/-! ### One name after another -/

/-- A name after another, with a dot between them, keeps its segments. -/
theorem segments_append_dot (front back : String) :
    segments (front ++ "." ++ back) =
      (splitDots front.toList).map String.ofList ++ segments back := by
  have hchars : (front ++ "." ++ back).toList = front.toList ++ '.' :: back.toList := by simp
  rw [segments, segments, hchars, splitDots_append_dot,
    dropEmptyLast_append _ (splitDots_ne_nil _), List.map_append]

/-- Paths are compared part by part, as lists of characters or as texts. -/
theorem map_ofList_inj {parts parts' : List (List Char)} :
    parts.map String.ofList = parts'.map String.ofList ↔ parts = parts' :=
  List.map_inj_right fun _ _ => String.ofList_inj.1

/-- The other one keeps its own as well, unless its last part is empty. -/
theorem segments_append_dot_eq_iff (front back : String) :
    segments (front ++ "." ++ back) = segments front ++ segments back ↔
      front ≠ "" ∧ front.toList.getLast? ≠ some '.' := by
  rw [segments_append_dot, List.append_cancel_right_eq, segments, map_ofList_inj, eq_comm,
    dropEmptyLast_eq_self_iff, ne_eq, getLast?_splitDots_eq_nil_iff, not_or,
    String.toList_eq_nil_iff]

/-! ### Paths and their full names -/

/-- Parts with an empty one in front instead of at the end are as before iff all are empty. -/
theorem nil_cons_dropEmptyLast_eq_self_iff (h : parts ≠ []) :
    [] :: dropEmptyLast parts = parts ↔ ∀ part ∈ parts, part = [] := by
  rw [dropEmptyLast]
  split
  · exact cons_dropLast_eq_self_iff h
  · rename_i hlast
    have hlonger : [] :: parts ≠ parts := List.cons_ne_self [] parts
    have hsome : ¬ ∀ part ∈ parts, part = [] := by
      intro hall
      obtain ⟨init, last, rfl⟩ := (List.eq_nil_or_concat parts).resolve_left h
      exact hlast (by simp [hall last (by simp)])
    simp only [hlonger, hsome]

/-- A path without dots is read off its full name iff it is empty, or neither its first nor its last
    segment is, or all its segments are. -/
theorem segments_full_eq_self_iff (h : ∀ segment ∈ path, '.' ∉ segment.toList) :
    segments (full path) = path ↔
      path = [] ∨ (path.head? ≠ some "" ∧ path.getLast? ≠ some "") ∨
        ∀ segment ∈ path, segment = "" := by
  cases path with
  | nil => simp [full]
  | cons first rest =>
    -- segment by segment, this is a question about the parts between dots
    have hchars : segments (full (first :: rest)) = first :: rest ↔
        dropEmptyLast (splitDots (full (first :: rest)).toList) =
          (first :: rest).map String.toList := by
      rw [segments, ← map_ofList_inj]
      simp
    rw [hchars, splitDots_full_cons h]
    by_cases hfirst : first = ""
    · -- an empty first segment is read twice
      subst hfirst
      have hparts : ("" :: rest).map String.toList ≠ [] := by simp
      have hread := dropEmptyLast_append [[]] hparts
      rw [List.singleton_append, List.singleton_append] at hread
      change dropEmptyLast ([] :: ("" :: rest).map String.toList) = _ ↔ _
      rw [hread, nil_cons_dropEmptyLast_eq_self_iff hparts]
      simp
    · rw [if_neg hfirst]
      change dropEmptyLast ((first :: rest).map String.toList) = _ ↔ _
      have hlast : ((first :: rest).map String.toList).getLast? = some [] ↔
          (first :: rest).getLast? = some "" := by
        rw [List.getLast?_map, Option.map_eq_some_iff]
        simp
      rw [dropEmptyLast_eq_self_iff, ne_eq, hlast]
      simp [hfirst]

end LoggerHierarchy.Name
