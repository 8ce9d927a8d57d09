import LoggerHierarchy.Proofs.Tree.Ledger
import LoggerHierarchy.Proofs.Tree.LoggerNames
import LoggerHierarchy.Tree.Loggers

namespace LoggerHierarchy.Tree

/-!
# Requests for loggers

Runs in which the outside may ask for loggers, besides all that it may ask of a tree:

* `Request` — an operation, or one of the ways to a logger; `Request.loggers` — the nodes for which
  it hands out loggers;
* `Request.call_eq` — a way to a logger is an operation that finds a node, and then the creation of
  a logger for it;
* `Chronicle` — a tree with the requests that wait and those that have ended;
* `Chronicle.Follows` — a situation whose operations do what the requests of a chronicle do;
  `Chronicle.Step.follows` — one step of a chronicle is a few steps of the situation;
* `Chronicle.Reachable.lists_loggers` — in every run the names of the nodes for which a logger was
  handed out are listed.

As in situations, code that is called before a removal asks for nothing.
-/

variable {may : Answers} {t u : Tree} {n : NodeId} {nodes : List NodeId} {op : Operation}

/-! ### Requests -/

/-- What the outside may ask of a tree, or of the loggers for its nodes. -/
inductive Request where
  | plain (op : Operation)
  | rootLogger
  | logger (name : String)
  | loggerIfExists (name : String)
  | parentLogger (n : NodeId)

namespace Request

variable {request : Request}

/-- The operation that finds the nodes which a request hands out. -/
def operation : Request → Operation
  | plain op => op
  | rootLogger => .rootNode
  | logger name => .getOrCreate root name
  | loggerIfExists name => .getIfExists root name
  | parentLogger n => .parent n

/-- Carries out a request, which hands out some nodes. -/
def run : Request → Run (List NodeId)
  | plain op => op.run
  | rootLogger => do return [← Tree.rootLogger]
  | logger name => do return [← Tree.logger name]
  | loggerIfExists name => do return (← Tree.loggerIfExists name).toList
  | parentLogger n => do return (← Tree.parentLogger n).toList

/-- Carries out a request for the outside, which keeps references to the nodes it gets. -/
def call (request : Request) : Run (List NodeId) := do
  let nodes ← request.run
  modify fun t => { t with held := nodes ++ t.held }
  return nodes

/-- The nodes for which a request that hands out some nodes hands out loggers: of the operations
    only `createLogger` does, and of the ways to a logger those that find a node. -/
def loggers : Request → List NodeId → List NodeId
  | plain (.createLogger n), _ => [n]
  | plain _, _ => []
  | _, nodes => nodes

/-- What is left to do of a request once its operation has ended. -/
def handOut : Request → Tree → List NodeId → Dialogue outside Tree (List NodeId)
  | plain _, t, nodes => .done t nodes
  | _, t, nodes => .done (nodes.foldl createLogger t) nodes

/-- A request is its operation, and then the creation of loggers. -/
theorem call_eq (request : Request) (t : Tree) :
    request.call t = (request.operation.call t).bind request.handOut := by
  cases request with
  | plain op => exact (Dialogue.bind_done_right _).symm
  | rootLogger => rfl
  | logger name =>
    -- on both sides the node is made first, and then nobody is asked
    simp only [call, run, Tree.logger, operation, Operation.call, Operation.run,
      Program.bind_apply, Dialogue.bind_assoc]
    rfl
  | loggerIfExists name =>
    simp only [call, run, Tree.loggerIfExists, operation, Operation.call, Operation.run,
      Program.bind_apply, Program.get_apply, Dialogue.bind_assoc, Dialogue.bind_done]
    cases t.getIfExists root name with
    | none => rfl
    | some n => rfl
  | parentLogger n =>
    simp only [call, run, Tree.parentLogger, operation, Operation.call, Operation.run,
      Program.bind_apply, Program.get_apply, Dialogue.bind_assoc, Dialogue.bind_done]
    cases t.parent? n with
    | none => rfl
    | some p => rfl

/-- A request that is no operation is one for a logger. -/
theorem plain_or_logger (request : Request) : (∃ op, request = plain op) ∨
    (∀ n, request.operation ≠ .createLogger n) ∧ (∀ nodes, request.loggers nodes = nodes) ∧
      ∀ t nodes, request.handOut t nodes = .done (nodes.foldl createLogger t) nodes := by
  cases request with
  | plain op => exact .inl ⟨op, rfl⟩
  | rootLogger | logger | loggerIfExists | parentLogger =>
    exact .inr ⟨by simp [operation], fun _ => rfl, fun _ _ => rfl⟩

/-- Among plain operations only the one that creates a logger hands one out. -/
theorem mem_loggers_plain : n ∈ (plain op).loggers nodes ↔ op = .createLogger n := by
  cases op <;> simp [loggers, eq_comm]

end Request

/-! ### Chronicles -/

/-- A request that waits for an answer. -/
structure Appeal where
  request : Request
  question : Question
  resume : Tree → question.Answer → Dialogue outside Tree (List NodeId)

/-- A tree in the middle of a run with requests. -/
structure Chronicle where
  tree : Tree
  /-- The requests that wait for an answer, the one called last first. -/
  waiting : List Appeal := []
  /-- The requests that have ended, with the nodes that they handed out. -/
  ended : List (Request × List NodeId) := []

namespace Chronicle

/-- The nodes for which loggers were ever handed out. -/
def loggers (c : Chronicle) : List NodeId :=
  c.ended.flatMap fun entry => entry.1.loggers entry.2

/-- Whether the code that was called last was called before the removal of a node. -/
def isRemoving (c : Chronicle) : Bool :=
  c.waiting.head?.any fun appeal => appeal.question.isForRemoval

/-- Whether the outside has the reference that a request needs: to a node, or to the root by way of
    the context. -/
def Permits (c : Chronicle) (request : Request) : Prop :=
  request.operation.subject ∈ c.tree.held ∨
    request.operation.subject = root ∧ c.tree.isOpen = true

/-- Runs a request up to its next question or its end. -/
def proceed (c : Chronicle) (request : Request) :
    Dialogue outside Tree (List NodeId) → Chronicle
  | .done t nodes => { c with tree := t, ended := (request, nodes) :: c.ended }
  | .aborted t => { c with tree := t }
  | .announce _ d => c.proceed request d
  | .ask t question resume =>
    { c with tree := t, waiting := ⟨request, question, resume⟩ :: c.waiting }

/-- One step of a run, as in situations. -/
inductive Step (may : Answers) : Chronicle → Chronicle → Prop where
  | call {c : Chronicle} (request : Request) (hpermitted : c.Permits request)
      (hremoving : c.isRemoving = false) :
      Step may c (c.proceed request (request.call c.tree))
  | answer {t : Tree} {appeal : Appeal} {waiting : List Appeal}
      {ended : List (Request × List NodeId)} {a : appeal.question.Answer}
      (hmay : may appeal.question a) :
      Step may ⟨t, appeal :: waiting, ended⟩
        (proceed ⟨t, waiting, ended⟩ appeal.request (appeal.resume t a))
  | copy {c : Chronicle} {n : NodeId} (hheld : n ∈ c.tree.held) :
      Step may c { c with tree := c.tree.hold n }
  | drop {c : Chronicle} (n : NodeId) : Step may c { c with tree := c.tree.release n }

/-- The chronicles of the runs of a new context. -/
inductive Reachable (may : Answers) : Chronicle → Prop where
  | start {answer : (q : Question) → q.Answer}
      (hminimum : may (.minimum "") (answer (.minimum "")))
      (hlevel : may (.level "") (answer (.level ""))) :
      Reachable may { tree := ((plant {}).answeredBy answer).1 }
  | step {c c' : Chronicle} (hc : Reachable may c) (hstep : Step may c c') : Reachable may c'

end Chronicle

/-! ### Operations hand their nodes over -/

/-- Whether the outside has references to the nodes with which a dialogue ends. -/
def HandsOver (d : Dialogue outside Tree (List NodeId)) (t : Tree) : Prop :=
  d.Keeps anything (fun u r => ∀ nodes, r = some nodes → ∀ n ∈ nodes, n ∈ u.held) t

/-- Every operation hands over the references to what it returns. -/
theorem Operation.handsOver_call (op : Operation) (t : Tree) : HandsOver (op.call t) t := by
  refine Dialogue.Keeps.bind (keeps_anything (op.run t) t) ?_ ?_
  · rintro u nodes -
    refine ⟨trivial, ?_⟩
    rintro _ ⟨⟩ n hn
    exact List.mem_append_left _ hn
  · rintro u - nodes ⟨⟩

/-! ### Situations that follow -/

/-- An operation that waits for the answer for which a request waits; what it then hands out is what
    the request hands out. -/
inductive Appeal.Follows : Appeal → Frame → Prop where
  | intro {request : Request} {question : Question}
      {resume : Tree → question.Answer → Dialogue outside Tree (List NodeId)}
      (hhands : ∀ t a, HandsOver (resume t a) t) :
      Follows ⟨request, question, fun t a => (resume t a).bind request.handOut⟩
        ⟨request.operation, question, resume⟩

namespace Chronicle

variable {c c' : Chronicle} {s s' : Situation} {request : Request}

/-- A situation whose operations do what the requests of a chronicle do. -/
structure Follows (c : Chronicle) (s : Situation) : Prop where
  tree : s.tree = c.tree
  waiting : List.Forall₂ Appeal.Follows c.waiting s.waiting
  created (n : NodeId) : s.CreatedLogger n ↔ n ∈ c.loggers

/-- Both are about to remove a node, or neither is. -/
theorem Follows.isRemoving_eq (h : c.Follows s) : s.isRemoving = c.isRemoving := by
  obtain ⟨t, appeals, ended⟩ := c
  obtain ⟨u, frames, past⟩ := s
  obtain ⟨-, hwaiting, -⟩ := h
  cases hwaiting with
  | nil => rfl
  | cons happeal _ =>
    cases happeal with
    | intro => rfl

theorem loggers_proceed_done (c : Chronicle) (request : Request) (t : Tree)
    (nodes : List NodeId) :
    (c.proceed request (.done t nodes)).loggers = request.loggers nodes ++ c.loggers := rfl

/-- When the operation of a request has ended, the loggers are created at once. -/
theorem Follows.done (h : c.Follows s) (hremoving : s.isRemoving = false)
    (hheld : ∀ n ∈ nodes, n ∈ t.held) :
    ∃ s', Relation.ReflTransGen (Situation.Step may)
        (s.proceed request.operation (.done t nodes)) s' ∧
      (c.proceed request (request.handOut t nodes)).Follows s' := by
  obtain ⟨op, rfl⟩ | ⟨hop, hloggers, hend⟩ := request.plain_or_logger
  · -- an operation has nothing left to do
    refine ⟨_, .refl, rfl, h.waiting, fun n => ?_⟩
    change _ ↔ n ∈ (c.proceed (.plain op) (.done t nodes)).loggers
    rw [loggers_proceed_done, List.mem_append, Request.mem_loggers_plain, ← h.created]
    exact Situation.createdLogger_cons
  · obtain ⟨s', hsteps, htree, hwaiting, hcreated⟩ :=
      Situation.exists_createLoggers (s := s.proceed request.operation (.done t nodes))
        hremoving hheld
    rw [hend]
    refine ⟨s', hsteps, htree, hwaiting ▸ h.waiting, fun n => ?_⟩
    -- the operation itself has created none
    rw [hcreated, loggers_proceed_done, List.mem_append, hloggers, ← h.created]
    exact or_congr_right (Situation.createdLogger_cons.trans (or_iff_right (hop n)))

/-- A request is run up to its next question or its end, and its operation with it. -/
theorem Follows.proceed {d : Dialogue outside Tree (List NodeId)} (h : c.Follows s)
    (hremoving : s.isRemoving = false) (hd : HandsOver d t) :
    ∃ s', Relation.ReflTransGen (Situation.Step may) (s.proceed request.operation d) s' ∧
      (c.proceed request (d.bind request.handOut)).Follows s' := by
  induction d with
  | done u nodes => exact h.done hremoving (hd.2 nodes rfl)
  | aborted u => exact ⟨_, .refl, rfl, h.waiting, h.created⟩
  | announce e d ih => exact ih hd
  | ask u q resume _ =>
    have happeal : Appeal.Follows
        ⟨request, q, fun v a => (resume v a).bind request.handOut⟩
        ⟨request.operation, q, resume⟩ := .intro fun v a => hd.2 v a trivial
    exact ⟨_, .refl, rfl, .cons happeal h.waiting, h.created⟩

/-- One step of a chronicle is a few steps of a situation. -/
theorem Step.follows (hstep : Step may c c') (hs : Situation.Reachable may s)
    (h : c.Follows s) :
    ∃ s', Relation.ReflTransGen (Situation.Step may) s s' ∧ c'.Follows s' := by
  cases hstep with
  | call request hpermitted hremoving =>
    have hpermits : s.Permits request.operation := by
      unfold Situation.Permits
      rw [h.tree]
      exact hpermitted
    have hcalm : s.isRemoving = false := h.isRemoving_eq.trans hremoving
    obtain ⟨s', hsteps, hfollows⟩ :=
      h.proceed hcalm (request.operation.handsOver_call s.tree)
    rw [← h.tree, request.call_eq]
    exact ⟨s', .head (.call request.operation hpermits hcalm) hsteps, hfollows⟩
  | @answer t appeal appeals ended a hmay =>
    obtain ⟨u, frames, past⟩ := s
    obtain ⟨rfl, hwaiting, hcreated⟩ := h
    cases hwaiting with
    | cons happeal hrest =>
      cases happeal with
      | @intro request question resume hhands =>
        -- without what waits on top, the one still follows the other
        have hfollows : Follows ⟨u, appeals, ended⟩ ⟨u, _, past⟩ := ⟨rfl, hrest, hcreated⟩
        obtain ⟨s', hsteps, hfollows'⟩ := hfollows.proceed hs.isRemoving_rest (hhands u a)
        exact ⟨s', .head (.answer hmay) hsteps, hfollows'⟩
  | @copy _ n hheld =>
    rw [← h.tree] at hheld
    exact ⟨_, .single (.copy hheld), congrArg (·.hold n) h.tree, h.waiting, h.created⟩
  | drop n => exact ⟨_, .single (.drop n), congrArg (·.release n) h.tree, h.waiting, h.created⟩

/-- Every run of requests is followed by a run of operations. -/
theorem Reachable.exists_follows (h : Reachable may c) :
    ∃ s, Situation.Reachable may s ∧ c.Follows s := by
  induction h with
  | @start answer hminimum hlevel =>
    have hnone : ∀ n, n ∉ loggers { tree := ((plant {}).answeredBy answer).1 } := by
      simp [loggers]
    exact ⟨_, .start hminimum hlevel, rfl, .nil, fun n =>
      iff_of_false (fun ⟨_, hended⟩ => absurd hended (by simp)) (hnone n)⟩
  | step _ hstep ih =>
    obtain ⟨s, hs, hfollows⟩ := ih
    obtain ⟨s', hsteps, hfollows'⟩ := hstep.follows hs hfollows
    exact ⟨s', hs.steps hsteps, hfollows'⟩

/-! ### In every run -/

/-- The names that are listed are those of the nodes for which loggers were handed out. -/
theorem Reachable.mem_loggerNames (h : Reachable may c) {name : String} :
    name ∈ c.tree.loggerNames ↔ ∃ n ∈ c.loggers, c.tree.name n = name := by
  obtain ⟨s, hs, hfollows⟩ := h.exists_follows
  rw [← hfollows.tree, hs.mem_loggerNames]
  simp only [hfollows.created]

/-- Requests for loggers lead to well-formed trees only. -/
theorem Reachable.wellFormed (h : Reachable may c) : c.tree.WellFormed may := by
  obtain ⟨s, hs, hfollows⟩ := h.exists_follows
  rw [← hfollows.tree]
  exact hs.wellFormed

/-- A step that ends a request hands out its loggers, and other steps hand out none. -/
theorem Step.ended (hstep : Step may c c') :
    c'.ended = c.ended ∨ ∃ request nodes, c'.ended = (request, nodes) :: c.ended := by
  have hproceed : ∀ (c : Chronicle) (request : Request) (d : Dialogue outside Tree (List NodeId)),
      (c.proceed request d).ended = c.ended ∨
        ∃ nodes, (c.proceed request d).ended = (request, nodes) :: c.ended := by
    intro c request d
    induction d with
    | done u nodes => exact .inr ⟨nodes, rfl⟩
    | aborted | ask => exact .inl rfl
    | announce e d ih => exact ih
  cases hstep with
  | call request => exact (hproceed _ _ _).imp_right fun hended => ⟨request, hended⟩
  | answer => exact (hproceed _ _ _).imp_right fun hended => ⟨_, hended⟩
  | copy | drop => exact .inl rfl

/-- Nodes with a logger stay in the tree. -/
theorem Reachable.isAttached (h : Reachable may c) (hn : n ∈ c.loggers) : c.tree.IsAttached n := by
  obtain ⟨s, hs, hfollows⟩ := h.exists_follows
  rw [← hfollows.tree]
  exact hs.flagged.isAttached ((hfollows.created n).2 hn)

/-- Their names do not change. -/
theorem Step.name_eq (hstep : Step may c c') (h : Reachable may c) (hn : n ∈ c.loggers) :
    c'.tree.name n = c.tree.name n := by
  obtain ⟨s, hs, hfollows⟩ := h.exists_follows
  obtain ⟨s', hsteps, hfollows'⟩ := hstep.follows hs hfollows
  have hexists := (h.isAttached hn).exists
  rw [← hfollows.tree] at hexists ⊢
  rw [← hfollows'.tree]
  exact (hs.grows hsteps).name_eq hexists

/-- A step adds the names of the loggers that it hands out, and takes none away. -/
theorem Step.mem_loggerNames (hstep : Step may c c') (h : Reachable may c) {name : String} :
    name ∈ c'.tree.loggerNames ↔ name ∈ c.tree.loggerNames ∨
      ∃ request nodes, c'.ended = (request, nodes) :: c.ended ∧
        ∃ n ∈ request.loggers nodes, c'.tree.name n = name := by
  have hold : name ∈ c.tree.loggerNames ↔ ∃ n ∈ c.loggers, c'.tree.name n = name := by
    rw [h.mem_loggerNames]
    refine exists_congr fun n => and_congr_right fun hn => ?_
    rw [hstep.name_eq h hn]
  rw [(h.step hstep).mem_loggerNames, hold]
  -- the loggers are those of before and those of the request that ends, if one does
  obtain hsame | ⟨request, nodes, hended⟩ := hstep.ended
  · have hloggers : c'.loggers = c.loggers := by rw [loggers, hsame]; rfl
    simp [hloggers, hsame]
  · have hloggers : c'.loggers = request.loggers nodes ++ c.loggers := by rw [loggers, hended]; rfl
    rw [hloggers, hended]
    constructor
    · rintro ⟨n, hn, hname⟩
      obtain hn | hn := List.mem_append.1 hn
      · exact .inr ⟨request, nodes, rfl, n, hn, hname⟩
      · exact .inl ⟨n, hn, hname⟩
    · rintro (⟨n, hn, hname⟩ | ⟨_, _, hsame, n, hn, hname⟩)
      · exact ⟨n, List.mem_append_right _ hn, hname⟩
      · obtain ⟨⟨rfl, rfl⟩, -⟩ := List.cons.inj hsame
        exact ⟨n, List.mem_append_left _ hn, hname⟩

/-- In every run, and whatever was pruned meanwhile, the nodes for which a logger was ever handed
    out are in the tree, and the listing has just their names, none of them twice; a walk with a
    stack, in whatever orders it meets the children of nodes, ends and collects it.  Later the
    listing has all these names still.  It has another one only when a request ends that hands out a
    logger of that name; so nothing is added when nodes are made or looked up, or when there is no
    node for a logger. -/
theorem Reachable.lists_loggers (h : Reachable may c) :
    c.tree.loggerNames.Nodup ∧
    (∀ name, name ∈ c.tree.loggerNames ↔ ∃ n ∈ c.loggers, c.tree.name n = name) ∧
    (∀ n ∈ c.loggers, c.tree.contains n = true) ∧
    (∀ order, c.tree.OrdersChildren order → (∃ met, Walks order [root] met) ∧
      ∀ met, Walks order [root] met →
        (met.filterMap c.tree.loggerName?).Perm c.tree.loggerNames) ∧
    (∀ c', Relation.ReflTransGen (Step may) c c' → c.tree.loggerNames ⊆ c'.tree.loggerNames) ∧
    (∀ c', Step may c c' → ∀ name, name ∈ c'.tree.loggerNames ↔ name ∈ c.tree.loggerNames ∨
      ∃ request nodes, c'.ended = (request, nodes) :: c.ended ∧
        ∃ n ∈ request.loggers nodes, c'.tree.name n = name) ∧
    ∀ c' start name nodes, Step may c c' → ∀ entry ∈
      [(Request.plain (.getOrCreate start name), nodes), (.plain (.getIfExists start name), nodes),
        (.loggerIfExists name, [])],
      c'.ended = entry :: c.ended → c'.tree.loggerNames ⊆ c.tree.loggerNames := by
  have hshaped := h.wellFormed.shaped
  refine ⟨hshaped.nodup_loggerNames, fun _ => h.mem_loggerNames, ?_, ?_, ?_,
    fun c' hstep name => hstep.mem_loggerNames h, ?_⟩
  · intro n hn
    exact hshaped.contains_iff.2 (h.isAttached hn)
  · intro order horder
    exact ⟨hshaped.exists_walks horder, fun met => hshaped.perm_loggerNames horder⟩
  · intro c' hsteps
    have hlater : Reachable may c' ∧ c.tree.loggerNames ⊆ c'.tree.loggerNames := by
      induction hsteps with
      | refl => exact ⟨h, fun _ => id⟩
      | tail _ hstep ih =>
        obtain ⟨hmid, hnames⟩ := ih
        refine ⟨hmid.step hstep, ?_⟩
        intro name hname
        exact (hstep.mem_loggerNames hmid).2 (.inl (hnames hname))
    exact hlater.2
  · intro c' start name nodes hstep entry hentry hended other hother
    -- the request that has ended hands out no logger
    have hnone : entry.1.loggers entry.2 = [] := by
      simp only [List.mem_cons, List.not_mem_nil, or_false] at hentry
      obtain rfl | rfl | rfl := hentry <;> rfl
    obtain hother | ⟨_, _, hended', n, hn, -⟩ := (hstep.mem_loggerNames h).1 hother
    · exact hother
    · obtain ⟨rfl, -⟩ := List.cons.inj (hended.symm.trans hended')
      exact absurd (hnone ▸ hn) List.not_mem_nil

/-! ### A run -/

/-- The chronicle after a request. -/
def called (c : Chronicle) (request : Request) : Chronicle :=
  c.proceed request (request.call c.tree)

/-- The chronicle after a configuration has answered the last question. -/
def answered (c : Chronicle) (config : Configuration) : Chronicle :=
  match c.waiting with
  | [] => c
  | appeal :: waiting =>
    proceed ⟨c.tree, waiting, c.ended⟩ appeal.request
      (appeal.resume c.tree (config.answer appeal.question))

/-- The answer of a configuration is a step of a chronicle that it allows. -/
theorem Reachable.answered {config : Configuration} (h : Reachable config.Allows c) :
    Reachable config.Allows (c.answered config) := by
  obtain ⟨t, waiting, ended⟩ := c
  cases waiting with
  | nil => exact h
  | cons appeal waiting => exact h.step (.answer (config.allows_answer _))

/-- A request for the logger of a node that does not exist changes nothing. -/
theorem called_loggerIfExists {name : String} (h : c.tree.getIfExists root name = none) :
    c.called (.loggerIfExists name) =
      { c with ended := (.loggerIfExists name, []) :: c.ended } := by
  simp only [called, Request.call, Request.run, Tree.loggerIfExists, Program.bind_apply,
    Program.get_apply, Dialogue.bind_done, h]
  rfl

/-- A node was made, the logger of another one and that of its parent were asked for, and the
    references to all nodes were given up; then the tree was pruned. -/
def abandoned : Chronicle :=
  let made := (((({ tree := ((plant {}).answeredBy (Configuration.answer {})).1 } :
    Chronicle).called (.plain (.getOrCreate root "c"))).answered {}).answered {})
  let asked := ((((made.called (.logger "a.b")).answered {}).answered {}).answered {}).answered {}
  let climbed := asked.called (.parentLogger 3)
  called { climbed with tree := ((climbed.tree.release 1).release 2).release 3 } (.plain .prune)

/-- The chronicle in question is one of a configuration with nothing set. -/
theorem reachable_abandoned : Reachable (Configuration.Allows {}) abandoned := by
  have hnew := Reachable.start (Configuration.allows_answer {} (.minimum ""))
    (Configuration.allows_answer {} (.level ""))
  have hmade := (hnew.step (.call (.plain (.getOrCreate root "c")) (.inr ⟨rfl, rfl⟩)
    rfl)).answered.answered
  have hasked := (hmade.step (.call (.logger "a.b") (.inr ⟨rfl, by decide +kernel⟩)
    (by decide +kernel))).answered.answered.answered.answered
  have hclimbed := hasked.step (.call (.parentLogger 3) (.inl (by decide +kernel))
    (by decide +kernel))
  exact (((hclimbed.step (.drop 1)).step (.drop 2)).step (.drop 3)).step
    (.call (.plain .prune) (.inr ⟨rfl, by decide +kernel⟩) (by decide +kernel))

end Chronicle

/-- The names of loggers are listed after all references were given up, and no others, also not
    after a logger was asked for that is not there. -/
theorem loggerNames_of_abandoned :
    let c := Chronicle.abandoned
    Chronicle.Reachable (Configuration.Allows {}) c ∧ c.tree.held = [] ∧
      c.tree.contains 1 = false ∧ (∀ name, name ∈ c.tree.loggerNames ↔ name = "a" ∨ name = "a.b") ∧
      (∃ met, Walks c.tree.children [root] met ∧
        (met.filterMap c.tree.loggerName?).Perm c.tree.loggerNames) ∧
      (c.called (.loggerIfExists "x")).tree.loggerNames ⊆ c.tree.loggerNames := by
  have hreachable := Chronicle.reachable_abandoned
  obtain ⟨-, hnames, -, hwalks, -, -, hnothing⟩ := Chronicle.Reachable.lists_loggers hreachable
  have hloggers : Chronicle.abandoned.loggers = [2, 3] := by decide +kernel
  have ha : Chronicle.abandoned.tree.name 2 = "a" := by decide +kernel
  have hab : Chronicle.abandoned.tree.name 3 = "a.b" := by decide +kernel
  have hmissing : Chronicle.abandoned.tree.getIfExists root "x" = none := by decide +kernel
  refine ⟨hreachable, by decide +kernel, by decide +kernel, fun name => ?_, ?_, ?_⟩
  · rw [hnames, hloggers]
    simp [ha, hab, eq_comm]
  · obtain ⟨⟨met, hwalk⟩, hcollects⟩ := hwalks _ fun _ => .refl _
    exact ⟨met, hwalk, hcollects met hwalk⟩
  · refine hnothing _ root "x" [] (.call (.loggerIfExists "x") (.inr ⟨rfl, by decide +kernel⟩)
      (by decide +kernel)) (.loggerIfExists "x", []) (by simp) ?_
    exact congrArg Chronicle.ended (Chronicle.called_loggerIfExists hmissing)

end LoggerHierarchy.Tree
