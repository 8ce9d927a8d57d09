import LoggerHierarchy.Error
import LoggerHierarchy.Event

namespace LoggerHierarchy

/-!
# Reporting failed handlers

* `Reporter` — what became of the failures reported so far: their count for each category;
* `Reporter.report` — counts one failure, to be announced by `Reporter.reported`.
-/

/-- The failures reported so far, latest first. -/
structure Reporter where
  reports : List FailureCategory := []
  deriving DecidableEq, Repr

namespace Reporter

/-- The event of a report. -/
def reported (handler message : String) (failure : HandlerFailure) (category : FailureCategory) :
    Event :=
  ⟨.error, message,
    [("handler", .text handler), ("category", .text category.label),
      ("failure", .text failure.message)]⟩

/-- One more failure. -/
def report (r : Reporter) (category : FailureCategory) : Reporter :=
  ⟨category :: r.reports⟩

/-- How many failures of a category were reported. -/
def count (r : Reporter) (category : FailureCategory) : Nat :=
  r.reports.count category

@[simp] theorem count_report (r : Reporter) (c d : FailureCategory) :
    (r.report c).count d = r.count d + if c = d then 1 else 0 := by
  simp [report, count, List.count_cons]

end Reporter

end LoggerHierarchy
