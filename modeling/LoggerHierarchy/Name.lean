namespace LoggerHierarchy.Name

/-!
# Dotted names

A logger's name is a path of segments between dots:

* `splitDots` — a text cut at every dot;
* `segments` — the segments that a name stands for: a dot at the very end closes the last segment
  and opens none;
* `child` — the full name of a child.  A child of the root is named by its segment alone, and one
  with an empty segment by a dot, since the empty name is the root's.
-/

/-- The characters before, between and after the dots: one part more than there are dots. -/
def splitDots : List Char → List (List Char)
  | [] => [[]]
  | c :: cs =>
    if c = '.' then [] :: splitDots cs
    else
      match splitDots cs with
      | [] => [[c]]
      | part :: parts => (c :: part) :: parts

/-- The parts without the last one, if that one is empty. -/
def dropEmptyLast (parts : List (List Char)) : List (List Char) :=
  if parts.getLast? = some [] then parts.dropLast else parts

/-- The segments of a name: its parts between dots, an empty last one left out. -/
def segments (name : String) : List String :=
  (dropEmptyLast (splitDots name.toList)).map String.ofList

/-- The full name of the child that `segment` leads to from a node named `parent`. -/
def child (parentIsRoot : Bool) (parent segment : String) : String :=
  if parentIsRoot then (if segment.isEmpty then "." else segment) else parent ++ "." ++ segment

@[simp] theorem splitDots_ne_nil (cs : List Char) : splitDots cs ≠ [] := by
  cases cs with
  | nil => simp [splitDots]
  | cons c cs =>
    unfold splitDots
    split
    · simp
    · split <;> simp

/-- The empty name has no segments: it is the root's. -/
@[simp] theorem segments_empty : segments "" = [] := rfl

end LoggerHierarchy.Name
