import Mathlib.Data.List.Basic
import LoggerHierarchy.Proofs.Name

namespace LoggerHierarchy.Name

/-!
# Full names of paths

* `full` — the full name of the node at the end of a path; `full_concat` is the rule by which
  children are named;
* `full_injective` — a path without dots in its segments is told by its full name, although an empty
  first segment is written like a dot that stands between two segments;
* `toList_full_segments` — what becomes of a name that is cut into segments and named anew;
* `full_segments_eq_self_iff` — the names that come back as they were.
-/

variable {part : List Char} {path : List String} {segment name : String}

/-- The full name of the node at the end of a path from the root. -/
def full : List String → String
  | [] => ""
  | segment :: rest => rest.foldl (child false) (child true "" segment)

/-- A child is named after its parent. -/
theorem full_concat (path : List String) (segment : String) :
    full (path ++ [segment]) = child path.isEmpty (full path) segment := by
  cases path with
  | nil => rfl
  | cons first rest => simp [full]

/-! ### The characters of a full name -/

/-- The characters of segments, each after a dot. -/
def dotted (path : List String) : List Char :=
  path.flatMap fun segment => '.' :: segment.toList

/-- Each further segment is added after a dot. -/
theorem toList_foldl_child (name : String) (rest : List String) :
    (rest.foldl (child false) name).toList = name.toList ++ dotted rest := by
  induction rest generalizing name with
  | nil => simp [dotted]
  | cons segment rest ih =>
    rw [List.foldl_cons, ih]
    simp [child, dotted]

/-- The characters of a full name; an empty first segment shows as a dot of its own. -/
theorem toList_full_cons (segment : String) (rest : List String) :
    (full (segment :: rest)).toList =
      (if segment = "" then ['.'] else segment.toList) ++ dotted rest := by
  rw [full, toList_foldl_child, child, if_pos rfl]
  by_cases h : segment = "" <;> simp [h]

/-! ### Different paths have different names -/

/-- A text without dots is not cut. -/
theorem splitDots_of_undotted (h : '.' ∉ part) : splitDots part = [part] := by
  induction part with
  | nil => rfl
  | cons c part ih =>
    obtain ⟨hc, hpart⟩ : '.' ≠ c ∧ '.' ∉ part := by simpa using h
    rw [splitDots, if_neg (Ne.symm hc), ih hpart]

/-- Segments without dots are read off again. -/
theorem splitDots_dotted (hpart : '.' ∉ part) (hpath : ∀ segment ∈ path, '.' ∉ segment.toList) :
    splitDots (part ++ dotted path) = part :: path.map String.toList := by
  induction path generalizing part with
  | nil => simpa [dotted] using splitDots_of_undotted hpart
  | cons segment rest ih =>
    have hrest := ih (hpath segment (by simp)) fun s hs => hpath s (List.mem_cons_of_mem _ hs)
    rw [dotted, List.flatMap_cons, List.cons_append, splitDots_append hpart]
    exact congrArg (part :: ·) hrest

/-- Of a full name, too: an empty first segment leaves two empty parts, where any other leaves
    itself. -/
theorem splitDots_full_cons {rest : List String}
    (h : ∀ s ∈ segment :: rest, '.' ∉ s.toList) :
    splitDots (full (segment :: rest)).toList =
      if segment = "" then [] :: [] :: rest.map String.toList
      else segment.toList :: rest.map String.toList := by
  have hrest : ∀ s ∈ rest, '.' ∉ s.toList := fun s hs => h s (List.mem_cons_of_mem _ hs)
  rw [toList_full_cons]
  split
  · rw [List.singleton_append, splitDots, if_pos rfl]
    exact congrArg ([] :: ·) (splitDots_dotted List.not_mem_nil hrest)
  · exact splitDots_dotted (h segment (by simp)) hrest

/-- Only the root has an empty name. -/
theorem full_cons_ne_empty (segment : String) (rest : List String) :
    full (segment :: rest) ≠ "" := by
  intro h
  have hchars := congrArg String.toList h
  rw [toList_full_cons] at hchars
  by_cases hsegment : segment = "" <;> simp [hsegment] at hchars

/-- A path is told by its full name, if no segment holds a dot. -/
theorem full_injective {path other : List String} (hpath : ∀ s ∈ path, '.' ∉ s.toList)
    (hother : ∀ s ∈ other, '.' ∉ s.toList) (h : full path = full other) : path = other := by
  cases path with
  | nil =>
    cases other with
    | nil => rfl
    | cons segment rest => exact absurd h.symm (full_cons_ne_empty segment rest)
  | cons first rest =>
    cases other with
    | nil => exact absurd h (full_cons_ne_empty first rest)
    | cons first' rest' =>
      have hparts := congrArg (fun name => splitDots name.toList) h
      simp only [splitDots_full_cons hpath, splitDots_full_cons hother] at hparts
      have hinjective : ∀ {l l' : List String}, l.map String.toList = l'.map String.toList →
          l = l' := (List.map_inj_right fun _ _ => String.toList_inj.1).1
      -- a first part that is empty stands for an empty first segment in both
      by_cases hfirst : first = "" <;> by_cases hfirst' : first' = ""
      · rw [if_pos hfirst, if_pos hfirst'] at hparts
        rw [hfirst, hfirst', hinjective (List.cons.inj (List.cons.inj hparts).2).2]
      · rw [if_pos hfirst, if_neg hfirst'] at hparts
        exact absurd (List.cons.inj hparts).1.symm (by simpa using hfirst')
      · rw [if_neg hfirst, if_pos hfirst'] at hparts
        exact absurd (List.cons.inj hparts).1 (by simpa using hfirst)
      · rw [if_neg hfirst, if_neg hfirst'] at hparts
        obtain ⟨hhead, hrest⟩ := List.cons.inj hparts
        rw [String.toList_injective hhead, hinjective hrest]

/-! ### Names that are cut and named anew -/

/-- The parts of a text with dots between them. -/
def joined : List (List Char) → List Char
  | [] => []
  | first :: rest => first ++ rest.flatMap ('.' :: ·)

/-- A name is what its parts are when they are joined by dots again. -/
theorem joined_splitDots (cs : List Char) : joined (splitDots cs) = cs := by
  induction cs with
  | nil => rfl
  | cons c cs ih =>
    obtain ⟨first, rest, hparts⟩ := List.exists_cons_of_ne_nil (splitDots_ne_nil cs)
    rw [hparts] at ih
    rw [splitDots, hparts]
    split
    · rename_i hc
      simpa [joined, hc] using ih
    · simpa [joined] using ih

/-- A further part comes after one more dot. -/
theorem joined_concat {parts : List (List Char)} (h : parts ≠ []) (last : List Char) :
    joined (parts ++ [last]) = joined parts ++ '.' :: last := by
  cases parts with
  | nil => exact absurd rfl h
  | cons first rest => simp [joined]

/-- Without its empty last part, a text is without the dot at its end. -/
theorem joined_dropEmptyLast (cs : List Char) :
    joined (dropEmptyLast (splitDots cs)) = if cs.getLast? = some '.' then cs.dropLast else cs := by
  have hcs := joined_splitDots cs
  obtain ⟨init, last, hparts⟩ : ∃ init last, splitDots cs = init ++ [last] :=
    ⟨_, _, (List.dropLast_concat_getLast (splitDots_ne_nil cs)).symm⟩
  have hmem : last ∈ splitDots cs := by simp [hparts]
  have hlast : '.' ∉ last := dot_notMem_of_mem_splitDots hmem
  rw [hparts] at hcs ⊢
  rw [dropEmptyLast, List.getLast?_concat, List.dropLast_concat]
  -- the last part is empty just when the name ends with a dot
  by_cases hempty : last = []
  · subst hempty
    rw [if_pos rfl]
    by_cases hinit : init = []
    · subst hinit
      rw [← hcs]
      rfl
    · rw [joined_concat hinit] at hcs
      rw [← hcs]
      simp
  · rw [if_neg (by simpa using hempty), hcs]
    have hend : cs.getLast? ≠ some '.' := by
      rw [← hcs]
      intro h
      by_cases hinit : init = []
      · subst hinit
        exact hlast (List.mem_of_getLast? (by simpa [joined] using h))
      · rw [joined_concat hinit, List.append_cons, List.getLast?_append,
          List.getLast?_eq_some_getLast hempty, Option.some_or] at h
        exact hlast (List.mem_of_getLast? (by rwa [List.getLast?_eq_some_getLast hempty]))
    rw [if_neg hend]

/-- The first segment of a name is empty iff the name begins with a dot. -/
theorem head?_dropEmptyLast_splitDots (cs : List Char) :
    (dropEmptyLast (splitDots cs)).head? = some [] ↔ cs.head? = some '.' := by
  -- whatever is dropped at the end, the first part stays, unless it is the only one and empty
  have hkeep : ∀ (first : List Char) (parts : List (List Char)), first ≠ [] ∨ parts ≠ [] →
      (dropEmptyLast (first :: parts)).head? = some first := by
    intro first parts h
    rw [dropEmptyLast]
    cases parts with
    | nil => simp [h.resolve_right (by simp)]
    | cons second rest => split <;> simp
  cases cs with
  | nil => simp [splitDots, dropEmptyLast]
  | cons c cs =>
    obtain ⟨first, rest, hparts⟩ := List.exists_cons_of_ne_nil (splitDots_ne_nil cs)
    rw [splitDots, hparts]
    split
    · rename_i hc
      rw [hkeep _ _ (.inr (by simp))]
      simp [hc]
    · rename_i hc
      simp only
      rw [hkeep _ _ (.inl (by simp))]
      simp [hc]

/-- The full name of a path of parts, in terms of the parts joined by dots. -/
theorem toList_full_map (parts : List (List Char)) :
    (full (parts.map String.ofList)).toList =
      (if parts.head? = some [] then ['.'] else []) ++ joined parts := by
  cases parts with
  | nil => rfl
  | cons first rest =>
    have hrest : dotted (rest.map String.ofList) = rest.flatMap ('.' :: ·) := by
      simp [dotted, List.flatMap_map]
    rw [List.map_cons, toList_full_cons, hrest, joined]
    by_cases h : first = [] <;> simp [h]

/-- Cut into segments and named anew, a name that begins with a dot has one more there, and one that
    ends with a dot lacks it. -/
theorem toList_full_segments (name : String) :
    (full (segments name)).toList =
      (if name.toList.head? = some '.' then ['.'] else []) ++
        (if name.toList.getLast? = some '.' then name.toList.dropLast else name.toList) := by
  rw [segments, toList_full_map, joined_dropEmptyLast]
  simp only [head?_dropEmptyLast_splitDots]

/-- Only the empty name has no segments. -/
theorem segments_eq_nil_iff : segments name = [] ↔ name = "" := by
  refine ⟨?_, fun h => by rw [h, segments_empty]⟩
  intro h
  have hchars := toList_full_segments name
  rw [h, show (full []).toList = [] from rfl, eq_comm, List.append_eq_nil_iff] at hchars
  obtain ⟨hhead, hrest⟩ := hchars
  rw [← String.toList_inj]
  split at hrest
  · -- a lone dot would be at the head, too
    rename_i hlast
    have hdot : name.toList.dropLast ++ ['.'] = name.toList := List.dropLast_append_getLast? _ hlast
    rw [hrest, List.nil_append] at hdot
    simp [← hdot] at hhead
  · exact hrest

/-- Only of equal elements a list can lose the last one and get it in front. -/
theorem cons_dropLast_eq_self_iff {α : Type} {c : α} {l : List α} (h : l ≠ []) :
    c :: l.dropLast = l ↔ ∀ x ∈ l, x = c := by
  induction l generalizing c with
  | nil => exact absurd rfl h
  | cons a l ih =>
    cases l with
    | nil => simp [eq_comm]
    | cons b l =>
      rw [List.dropLast_cons_cons, List.cons.injEq, ih (by simp)]
      constructor
      · rintro ⟨rfl, hrest⟩
        simpa using hrest
      · intro hall
        obtain ⟨rfl, hrest⟩ : a = c ∧ ∀ x ∈ b :: l, x = c := by simpa using hall
        exact ⟨rfl, hrest⟩

/-- Whether a name consists of dots, or has none at either end. -/
def IsRegular (name : String) : Prop :=
  (∀ c ∈ name.toList, c = '.') ∨
    name.toList.head? ≠ some '.' ∧ name.toList.getLast? ≠ some '.'

instance (name : String) : Decidable (IsRegular name) :=
  -- over the characters of the name, not over all characters
  haveI := List.decidableBAll (· = '.') name.toList
  inferInstanceAs (Decidable (_ ∨ _))

/-- Cut into segments and named anew, exactly the regular names are as before. -/
theorem full_segments_eq_self_iff (name : String) :
    full (segments name) = name ↔ IsRegular name := by
  rw [← String.toList_inj, toList_full_segments, IsRegular]
  obtain hnil | hne := Decidable.em (name.toList = [])
  · simp [hnil]
  by_cases hhead : name.toList.head? = some '.' <;> by_cases hlast : name.toList.getLast? = some '.'
  · -- a dot has moved from the end to the front
    rw [if_pos hhead, if_pos hlast, List.singleton_append, cons_dropLast_eq_self_iff hne]
    simp [hhead]
  · -- one dot more, and the name ends in another character
    have hdots : ¬ ∀ c ∈ name.toList, c = '.' := fun hall => by
      obtain ⟨init, last, hname⟩ := List.eq_nil_or_concat name.toList |>.resolve_left hne
      rw [hname] at hall hlast
      simp [hall last (by simp)] at hlast
    simp [hhead, hlast, hdots]
  · -- one dot less, and the name begins with another character
    have hdots : ¬ ∀ c ∈ name.toList, c = '.' := fun hall => by
      obtain ⟨first, rest, hname⟩ := List.exists_cons_of_ne_nil hne
      rw [hname] at hall hhead
      simp [hall first (by simp)] at hhead
    have hlength : name.toList.dropLast ≠ name.toList := by
      intro h
      have := congrArg List.length h
      have := List.length_pos_iff.2 hne
      rw [List.length_dropLast] at *
      omega
    simp [hhead, hlast, hdots, hlength]
  · simp [hhead, hlast]

end LoggerHierarchy.Name
