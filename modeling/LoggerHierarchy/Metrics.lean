namespace LoggerHierarchy

/-!
# Metrics

* `MetricFamily` — the families of counters that the library offers, with names and help texts;
* `MetricRegistry` — the families that were registered; a family can be registered once.
-/

/-- A family of counters. -/
inductive MetricFamily where
  | nodesCreated
  | levelChanges
  | handlerFailures
  deriving DecidableEq, Repr

namespace MetricFamily

/-- All families, in the order in which they are registered. -/
def all : List MetricFamily := [.nodesCreated, .levelChanges, .handlerFailures]

def name : MetricFamily → String
  | nodesCreated => "logtree_nodes_created"
  | levelChanges => "logtree_level_changes"
  | handlerFailures => "logtree_handler_failures"

def help : MetricFamily → String
  | nodesCreated => "Logger nodes inserted into a tree"
  | levelChanges => "Explicit level changes that altered an effective level"
  | handlerFailures => "Handler publish failures reported"

end MetricFamily

/-- The families that were registered. -/
structure MetricRegistry where
  registered : List MetricFamily := []

/-- A family that is registered already. -/
structure AlreadyRegistered where
  family : MetricFamily
  deriving DecidableEq, Repr

namespace MetricRegistry

/-- Registers one family. -/
def register (r : MetricRegistry) (family : MetricFamily) :
    Except AlreadyRegistered MetricRegistry :=
  if family ∈ r.registered then .error ⟨family⟩ else .ok ⟨r.registered ++ [family]⟩

/-- Registers families in order, up to the first that is registered already; those before it stay
    registered. -/
def registerEach (r : MetricRegistry) : List MetricFamily →
    Option AlreadyRegistered × MetricRegistry
  | [] => (none, r)
  | family :: rest =>
    match r.register family with
    | .ok r => r.registerEach rest
    | .error e => (some e, r)

/-- Registers all families of the library. -/
def registerAll (r : MetricRegistry) : Option AlreadyRegistered × MetricRegistry :=
  r.registerEach MetricFamily.all

/-- The names and help texts of the registered families, sorted by name. -/
def families (r : MetricRegistry) : List (String × String) :=
  (r.registered.map fun family => (family.name, family.help)).mergeSort fun a b =>
    decide (a.1 ≤ b.1)

end MetricRegistry

end LoggerHierarchy
