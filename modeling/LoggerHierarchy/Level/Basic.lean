namespace LoggerHierarchy

/-!
# Severity levels

A level is a name together with a 32-bit severity:

* `Level` — the name is only shown; comparing, ordering and hashing read the severity alone;
* `Level.known` — the fourteen well-known levels, several of which share a severity;
* `Level.ofValue` — the level of a bare severity: the first well-known one that carries it,
  else a level named `CUSTOM`;
* `Level.isKnown` — whether name and severity together are a well-known level.
-/

/-- A named severity.  `=` compares the name too; `==`, `compare`, `≤` and `hash` read only the
    severity. -/
structure Level where
  name : String
  value : Int32
  deriving DecidableEq, Repr

namespace Level

/-! ### The well-known levels -/

def off : Level := ⟨"OFF", 2147483647⟩
def fatal : Level := ⟨"FATAL", 1100⟩
def severe : Level := ⟨"SEVERE", 1000⟩
def error : Level := ⟨"ERROR", 1000⟩
def warning : Level := ⟨"WARNING", 900⟩
def warn : Level := ⟨"WARN", 900⟩
def info : Level := ⟨"INFO", 800⟩
def config : Level := ⟨"CONFIG", 700⟩
def debug : Level := ⟨"DEBUG", 500⟩
def fine : Level := ⟨"FINE", 500⟩
def finer : Level := ⟨"FINER", 400⟩
def trace : Level := ⟨"TRACE", 400⟩
def finest : Level := ⟨"FINEST", 300⟩
def all : Level := ⟨"ALL", -2147483648⟩

/-- The well-known levels; of two with one severity the earlier one stands for it. -/
def known : List Level :=
  [off, fatal, severe, error, warning, warn, info, config, debug, fine, finer, trace, finest, all]

/-- The level of a bare severity: the first well-known level carrying it, else one named
    `CUSTOM`. -/
def ofValue (value : Int32) : Level :=
  (known.find? (·.value = value)).getD ⟨"CUSTOM", value⟩

/-- Whether name and severity together are one of the well-known levels. -/
def isKnown (level : Level) : Bool :=
  decide (level ∈ known)

/-! ### Comparison by severity -/

instance : BEq Level where
  beq a b := a.value == b.value

instance : Ord Level where
  compare a b := compare a.value b.value

instance : LE Level where
  le a b := a.value ≤ b.value

instance : LT Level where
  lt a b := a.value < b.value

instance : Hashable Level where
  hash a := hash a.value

instance (a b : Level) : Decidable (a ≤ b) :=
  inferInstanceAs (Decidable (a.value ≤ b.value))

instance (a b : Level) : Decidable (a < b) :=
  inferInstanceAs (Decidable (a.value < b.value))

/-- The larger of two levels, the second one when they are equally severe. -/
instance : Max Level where
  max a b := if b < a then a else b

/-- The smaller of two levels, the first one when they are equally severe. -/
instance : Min Level where
  min a b := if b < a then b else a

/-- Levels in order of severity, equally severe ones in their given order. -/
def sort (levels : List Level) : List Level :=
  levels.mergeSort fun a b => decide (a ≤ b)

/-- One level for each severity that occurs. -/
def distinct (levels : List Level) : List Level :=
  levels.eraseDups

@[simp] theorem beq_iff {a b : Level} : (a == b) = true ↔ a.value = b.value := by
  show (a.value == b.value) = true ↔ a.value = b.value
  exact beq_iff_eq

@[simp] theorem le_iff {a b : Level} : a ≤ b ↔ a.value ≤ b.value := Iff.rfl

@[simp] theorem lt_iff {a b : Level} : a < b ↔ a.value < b.value := Iff.rfl

/-- The level of a bare severity carries that severity. -/
@[simp] theorem value_ofValue (value : Int32) : (ofValue value).value = value := by
  unfold ofValue
  cases h : known.find? (·.value = value) with
  | none => rfl
  | some level => simpa using List.find?_some h

end Level

end LoggerHierarchy
