import LoggerHierarchy.Decimal.Binary64

namespace LoggerHierarchy

/-!
# Documents

The data that settings are read from and written to:

* `Document` — null, Booleans, integers, doubles, texts, arrays and tables;
* `Document.field?`, `Document.put` — one entry of a table's entries, whose keys differ.
-/

/-- A tree of data. -/
inductive Document where
  | null
  | bool (b : Bool)
  | integer (i : Int)
  | float (x : Decimal.Binary64)
  | text (s : String)
  | array (items : List Document)
  | table (entries : List (String × Document))
  deriving Repr, BEq, Inhabited

namespace Document

/-- The value under a key. -/
def field? : List (String × Document) → String → Option Document
  | [], _ => none
  | (k, v) :: rest, key => if k = key then some v else field? rest key

/-- The entries with a value under a key, in place of the value that it had. -/
def put (entries : List (String × Document)) (key : String) (value : Document) :
    List (String × Document) :=
  match entries with
  | [] => [(key, value)]
  | (k, v) :: rest => if k = key then (k, value) :: rest else (k, v) :: put rest key value

@[simp] theorem field?_nil (key : String) : field? [] key = none := rfl

/-- Putting a value under a key changes what is under that key, and nothing else. -/
@[simp] theorem field?_put (entries : List (String × Document)) (key : String) (value : Document)
    (k : String) :
    field? (put entries key value) k = if k = key then some value else field? entries k := by
  induction entries with
  | nil => simp [put, field?, eq_comm]
  | cons entry rest ih =>
    obtain ⟨first, v⟩ := entry
    by_cases hf : first = key
    · subst hf
      by_cases h : first = k <;> simp [put, field?, h, Ne.symm]
    · by_cases h : first = k
      · subst h
        simp [put, field?, hf]
      · simp [put, field?, hf, h, ih]

end Document

end LoggerHierarchy
