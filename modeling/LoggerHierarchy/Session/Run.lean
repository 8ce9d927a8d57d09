import LoggerHierarchy.EventText
import LoggerHierarchy.Session.Step

namespace LoggerHierarchy.Session

/-!
# Running a session

* `runScript` — the scripts of collaborators, whose steps may call collaborators again; no script
  runs more often than it may, so that the number of all allowed runs bounds the nesting;
* `Effects` — what is to be seen of a step besides its reply;
* `run` — the whole session.
-/

/-- Runs the steps of a script, unless it has run as often as it may; each run is counted before its
    steps.  The bound is on how deep scripts call each other. -/
def runScript (setup : Setup) : Nat → Scripts
  | 0, _, _, s => s
  | bound + 1, owner, script, s =>
    if s.runs.count owner < script.times then
      -- the run is counted first, so that a script that calls itself comes to an end
      script.steps.foldl
        (fun s step =>
          let (reply, s) := step.perform setup (runScript setup bound) s
          s.write (.nested owner.text reply))
        { s with runs := owner :: s.runs }
    else s

/-- What is seen of a watched name: the explicit severity, if any, and the effective one. -/
abbrev Sight := Option (Option Int32 × Int32)

/-- What is to be seen of a step besides its reply. -/
structure Effects where
  log : List LogEntry
  calls : List Call
  events : List Event
  watch : Option (List Sight)

/-- What is seen of a name. -/
def sight (tree : Tree) (name : String) : Sight :=
  ((tree.getIfExists Tree.root name).bind tree.node?).map fun node =>
    (node.level.map (·.value), node.effective)

/-- Events as they are shown: pruning visits children in no particular order, so that the events of
    a step that dropped nodes are sorted. -/
def shownEvents (events : List Event) : List Event :=
  let pruned := (Tree.prunedNode "" "").message
  if events.any (·.message = pruned) then Event.sortByText events else events

/-- What was written down, and what is to be seen of the watched names. -/
def effects (setup : Setup) (s : State) : Effects where
  log := s.notes.log.toList
  calls := s.notes.calls.toList.mergeSort fun a b => decide (a.text ≤ b.text)
  events := shownEvents s.notes.events.toList
  watch := if s.tree.isOpen then some (setup.watch.map (sight s.tree)) else none

/-- What is to be seen of a session. -/
structure Outcome where
  opening : Effects
  steps : List (Reply × Effects)
  nodesCreated : Nat
  levelChanges : Nat
  handlerFailures : Nat

/-- The replies and effects of steps, and the state after them. -/
def runSteps (setup : Setup) (scripts : Scripts) : List Step → State →
    List (Reply × Effects) × State
  | [], s => ([], s)
  | step :: rest, s =>
    let (reply, s) := step.perform setup scripts { s with notes := {} }
    let seen := effects setup s
    let (more, s) := runSteps setup scripts rest s
    ((reply, seen) :: more, s)

/-- Runs a session.  While the root is made no script runs. -/
def run (setup : Setup) : Outcome :=
  let silent : Scripts := fun _ _ s => s
  let (_, opened) := converse (answer setup silent) (Tree.plant {}) {}
  let (steps, final) := runSteps setup (runScript setup setup.scriptRuns) setup.steps opened
  { opening := effects setup opened
    steps
    nodesCreated := final.tree.created
    levelChanges := final.tree.levelChanges
    handlerFailures := final.reporter.count .writing }

end LoggerHierarchy.Session
