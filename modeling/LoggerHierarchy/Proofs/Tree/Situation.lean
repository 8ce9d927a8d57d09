import LoggerHierarchy.Proofs.Tree.Conduct

namespace LoggerHierarchy.Tree

/-!
# Runs of a context

All that the outside can do with a context, in any order and from within the code that operations
call:

* `Operation` — what the outside may ask of a tree, each through a reference to a node;
* `Frame` — an operation that waits for an answer;
* `Situation` — a tree with the operations that wait, the one that was called last on top;
* `Step` — an operation is called, from the outside or from the code that the operation on top has
  called; that code answers; or a reference is copied or given up;
* `Reachable` — the situations that runs lead to;
* `Configuration` — a configuration whose answers never change.

Operations that only read settings leave no trace and are left out.  A logger is a reference to its
node, and the one for a name comes from `getOrCreate` and `createLogger`.
-/

/-- What the outside may ask of a tree. -/
inductive Operation where
  | rootNode
  | getOrCreate (n : NodeId) (name : String)
  | getIfExists (n : NodeId) (name : String)
  | parent (n : NodeId)
  | children (n : NodeId)
  | createLogger (n : NodeId)
  | setLevel (n : NodeId) (level : Option Level)
  | setFilter (n : NodeId) (filter : Option Filter)
  | setUseParentFilters (n : NodeId) (on : Bool)
  | setUseParentHandlers (n : NodeId) (on : Bool)
  | handlers (n : NodeId)
  | addHandler (n : NodeId) (handler : Handler)
  | removeHandler (n : NodeId) (handler : Handler)
  | setHandlers (n : NodeId) (handlers : List Handler)
  | clearHandlers (n : NodeId)
  | compareAndSetHandlers (n : NodeId) (expected : NodeSnapshot) (handlers : List Handler)
  | attach (n : NodeId) (key : Attachments.Key PayloadKind) (value : key.kind.Value)
  | attachIfAbsent (n : NodeId) (key : Attachments.Key PayloadKind) (value : key.kind.Value)
  | detachValue (n : NodeId) (key : Attachments.Key PayloadKind)
  | accepts (n : NodeId) (record : Record)
  | publish (n : NodeId) (record : Record)
  | log (n : NodeId) (record : Record)
  | prune
  /-- The context is given up. -/
  | close

namespace Operation

/-- The node that an operation is asked of. -/
def subject : Operation → NodeId
  | getOrCreate n _ | getIfExists n _ | parent n | children n | createLogger n | setLevel n _
  | setFilter n _ | setUseParentFilters n _ | setUseParentHandlers n _ | handlers n
  | addHandler n _ | removeHandler n _ | setHandlers n _ | clearHandlers n
  | compareAndSetHandlers n _ _ | attach n _ _ | attachIfAbsent n _ _ | detachValue n _
  | accepts n _ | publish n _ | log n _ => n
  | rootNode | prune | close => root

/-- Where the nodes that an operation hands out were looked up: the start and the name. -/
def way? : Operation → Option (NodeId × String)
  | getOrCreate n name | getIfExists n name => some (n, name)
  | _ => none

/-- An operation that hands out no node. -/
def silently {α : Type} (run : Run α) : Run (List NodeId) := do
  let _ ← run
  return []

/-- A change that asks nobody and hands out no node. -/
def changing (f : Tree → Tree) : Run (List NodeId) :=
  silently (modify f)

/-- Carries out an operation, which hands out some nodes. -/
def run : Operation → Run (List NodeId)
  | rootNode => pure [root]
  | getOrCreate n name => do return [← Tree.getOrCreate n name]
  | getIfExists n name => do return ((← get).getIfExists n name).toList
  | parent n => do return ((← get).parent? n).toList
  | children n => do return (← get).children n
  | createLogger n => do
    modify (·.createLogger n)
    return [n]
  | setLevel n level => silently (Tree.setLevel n level)
  | setFilter n filter => changing (·.setFilter n filter)
  | setUseParentFilters n on => changing (·.setUseParentFilters n on)
  | setUseParentHandlers n on => changing (·.setUseParentHandlers n on)
  | handlers n => silently (Tree.handlers n)
  | addHandler n handler => silently (Tree.addHandler n handler)
  | removeHandler n handler => silently (Tree.removeHandler n handler)
  | setHandlers n list => changing fun t => (t.setHandlers n list).2
  | clearHandlers n => changing fun t => (t.clearHandlers n).2
  | compareAndSetHandlers n expected list =>
    changing fun t => (t.compareAndSetHandlers n expected list).2
  | attach n key value => changing fun t => (t.attach n key value).2
  | attachIfAbsent n key value => changing fun t => (t.attachIfAbsent n key value).2
  | detachValue n key => changing fun t => (t.detachValue n key).2
  | accepts n record => silently (Tree.accepts n record)
  | publish n record => silently (Tree.publish n record)
  | log n record => silently (Tree.log n record)
  | prune => silently Tree.prune
  | close => changing (·.close)

/-- Carries out an operation for the outside, which keeps references to the nodes it gets. -/
def call (op : Operation) : Run (List NodeId) := do
  let nodes ← op.run
  modify fun t => { t with held := nodes ++ t.held }
  return nodes

end Operation

/-! ### Situations -/

/-- An operation that waits for an answer. -/
structure Frame where
  operation : Operation
  question : Question
  resume : Tree → question.Answer → Dialogue outside Tree (List NodeId)

/-- A tree in the middle of a run. -/
structure Situation where
  tree : Tree
  /-- The operations that wait for an answer, the one called last first. -/
  waiting : List Frame := []
  /-- The operations that have ended, with the nodes that they handed out. -/
  ended : List (Operation × List NodeId) := []

namespace Situation

/-- Whether the code that was called last was called before the removal of a node. -/
def isRemoving (s : Situation) : Bool :=
  s.waiting.head?.any fun frame => frame.question.isForRemoval

/-- Whether the outside has the reference that an operation needs: to a node, or to the root by way
    of the context. -/
def Permits (s : Situation) (op : Operation) : Prop :=
  op.subject ∈ s.tree.held ∨ op.subject = root ∧ s.tree.isOpen = true

/-- Runs an operation up to its next question or its end. -/
def proceed (s : Situation) (op : Operation) : Dialogue outside Tree (List NodeId) → Situation
  | .done t nodes => { s with tree := t, ended := (op, nodes) :: s.ended }
  | .aborted t => { s with tree := t }
  | .announce _ d => s.proceed op d
  | .ask t question resume =>
    { s with tree := t, waiting := ⟨op, question, resume⟩ :: s.waiting }

/-- One step of a run, in which questions are answered as `may` says. -/
inductive Step (may : Answers) : Situation → Situation → Prop where
  /-- An operation is called; code that is called before a removal calls none. -/
  | call {s : Situation} (op : Operation) (hpermitted : s.Permits op)
      (hremoving : s.isRemoving = false) : Step may s (s.proceed op (op.call s.tree))
  /-- The code that was called last returns with its answer. -/
  | answer {t : Tree} {frame : Frame} {waiting : List Frame}
      {ended : List (Operation × List NodeId)} {a : frame.question.Answer}
      (hmay : may frame.question a) :
      Step may ⟨t, frame :: waiting, ended⟩
        (proceed ⟨t, waiting, ended⟩ frame.operation (frame.resume t a))
  /-- A reference is copied. -/
  | copy {s : Situation} {n : NodeId} (hheld : n ∈ s.tree.held) :
      Step may s { s with tree := s.tree.hold n }
  /-- A reference is given up. -/
  | drop {s : Situation} (n : NodeId) : Step may s { s with tree := s.tree.release n }

/-- The situations that lead from a new context to wherever the outside takes it. -/
inductive Reachable (may : Answers) : Situation → Prop where
  /-- A context was made: its root's floor and level were asked. -/
  | start {answer : (q : Question) → q.Answer}
      (hminimum : may (.minimum "") (answer (.minimum "")))
      (hlevel : may (.level "") (answer (.level ""))) :
      Reachable may { tree := ((plant {}).answeredBy answer).1 }
  | step {s s' : Situation} (hs : Reachable may s) (hstep : Step may s s') : Reachable may s'

variable {may : Answers} {s : Situation}

/-- An operation takes its tree along. -/
theorem proceed_withTree (s : Situation) (t : Tree) (op : Operation)
    (d : Dialogue outside Tree (List NodeId)) :
    proceed { s with tree := t } op d = s.proceed op d := by
  induction d with
  | done | aborted | ask => rfl
  | announce e d ih => exact ih

/-- An operation that was run to its end, with the answers to its questions. -/
def finish (s : Situation) (op : Operation) (answer : (q : Question) → q.Answer)
    (d : Dialogue outside Tree (List NodeId)) : Situation :=
  match d.answeredBy answer with
  | (t, some nodes) => s.proceed op (.done t nodes)
  | (t, none) => s.proceed op (.aborted t)

/-- An operation may be answered at once, question by question, up to its end. -/
theorem Reachable.finish {op : Operation} {answer : (q : Question) → q.Answer}
    (hanswer : ∀ q, may q (answer q)) {d : Dialogue outside Tree (List NodeId)}
    (hs : Reachable may (s.proceed op d)) : Reachable may (s.finish op answer d) := by
  induction d with
  | done | aborted => exact hs
  | announce e d ih => exact ih hs
  | ask u q resume ih =>
    have hnext := hs.step (Step.answer (hanswer q))
    exact ih u (answer q) (proceed_withTree s u op _ ▸ hnext)

end Situation

/-! ### Configurations -/

/-- A configuration whose answers never change. -/
structure Configuration where
  level : String → Option Level := fun _ => none
  minimum : String → Option Level := fun _ => none
  handlers : String → List Handler := fun _ => []

namespace Configuration

/-- The answers that a configuration allows; filters and handlers may answer as they like. -/
def Allows (c : Configuration) : Answers
  | .minimum name, a => a = c.minimum name
  | .level name, a => a = c.level name
  | .handlers name, a => a = c.handlers name
  | .handlersForRemoval name, a => a = c.handlers name
  | .accepts .., _ => True
  | .publish .., _ => True
  | .report .., _ => True

/-- The answers of a configuration, with filters that accept and handlers that take everything. -/
def answer (c : Configuration) : (q : Question) → q.Answer
  | .minimum name => c.minimum name
  | .level name => c.level name
  | .handlers name => c.handlers name
  | .handlersForRemoval name => c.handlers name
  | .accepts .. => Verdict.accept
  | .publish .. => Delivery.taken
  | .report .. => Acknowledgement.returned

/-- A configuration gives the answers that it allows. -/
theorem allows_answer (c : Configuration) (q : Question) : c.Allows q (c.answer q) := by
  cases q with
  | minimum | level | handlers | handlersForRemoval => exact Eq.refl _
  | accepts | publish | report => trivial

end Configuration

/-- A new context with a configuration. -/
def Situation.initial (c : Configuration) : Situation :=
  { tree := ((plant {}).answeredBy c.answer).1 }

/-- A new context is where runs start. -/
theorem Situation.reachable_initial (c : Configuration) : Reachable c.Allows (initial c) :=
  Reachable.start (c.allows_answer _) (c.allows_answer _)

/-- The situation after an operation that only the configuration was asked about. -/
def Situation.after (s : Situation) (c : Configuration) (op : Operation) : Situation :=
  s.finish op c.answer (op.call s.tree)

/-- An operation that is not aborted ends with the nodes that it hands out. -/
theorem Situation.ended_after {s : Situation} {c : Configuration} {op : Operation}
    (nodes : List NodeId) (h : ((op.call s.tree).answeredBy c.answer).2 = some nodes) :
    (s.after c op).ended = (op, nodes) :: s.ended := by
  cases hrun : (op.call s.tree).answeredBy c.answer with
  | mk t result =>
    obtain rfl : result = some nodes := by simpa [hrun] using h
    simp only [after, finish, hrun, proceed]

/-- A call that is answered to its end belongs to the run. -/
theorem Situation.Reachable.after {s : Situation} {c : Configuration} (hs : Reachable c.Allows s)
    (op : Operation) (hpermitted : s.Permits op) (hremoving : s.isRemoving = false) :
    Reachable c.Allows (s.after c op) :=
  (hs.step (.call op hpermitted hremoving)).finish c.allows_answer

/-- The situation in which an operation that was called has come to its first question or its end.
    -/
def Situation.calling (s : Situation) (op : Operation) : Situation :=
  s.proceed op (op.call s.tree)

/-- A call that is left waiting belongs to the run. -/
theorem Situation.Reachable.calling {s : Situation} {may : Answers} (hs : Reachable may s)
    (op : Operation) (hpermitted : s.Permits op) (hremoving : s.isRemoving = false) :
    Reachable may (s.calling op) :=
  hs.step (.call op hpermitted hremoving)

/-- The situation after the configuration has answered the question that was asked last. -/
def Situation.reply (s : Situation) (c : Configuration) : Situation :=
  match s.waiting with
  | [] => s
  | frame :: waiting =>
    { s with waiting }.proceed frame.operation
      (frame.resume s.tree (c.answer frame.question))

/-- A single answer belongs to the run. -/
theorem Situation.Reachable.reply {s : Situation} {c : Configuration}
    (hs : Reachable c.Allows s) : Reachable c.Allows (s.reply c) := by
  obtain ⟨t, waiting, ended⟩ := s
  cases waiting with
  | nil => exact hs
  | cons frame waiting => exact hs.step (.answer (c.allows_answer frame.question))

end LoggerHierarchy.Tree
