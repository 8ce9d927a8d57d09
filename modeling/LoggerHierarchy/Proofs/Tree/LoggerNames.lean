import LoggerHierarchy.Proofs.Tree.Listing

namespace LoggerHierarchy.Tree

/-!
# Nodes with a logger

What runs do to the nodes for which loggers were handed out:

* `Alters.hasLogger_eq` — only `createLogger` makes nodes with a logger, and
  `Alters.isAttached_of_hasLogger` — no operation takes one from the tree;
* `Situation.CreatedLogger` — a logger was created for a node; `Situation.Reachable.flagged` — these
  nodes are those with a logger, and all of them are in the tree;
* `Situation.Reachable.mem_loggerNames` — so their names are those that are listed;
* `Situation.exists_createLoggers` — from wherever operations may be called, a run creates loggers
  for nodes in hand and changes nothing else.
-/

variable {may : Answers} {op : Operation} {t u : Tree} {n m : NodeId} {nodes : List NodeId}
  {name : String}

/-! ### Trees -/

/-- Only `createLogger` makes nodes with a logger. -/
theorem Alters.hasLogger_eq (h : Alters may op t u) (hop : ∀ n, op ≠ .createLogger n)
    (n : NodeId) : u.hasLogger n = t.hasLogger n := by
  unfold hasLogger
  cases hnew : u.node? n with
  | none => rw [h.grows.node?_eq_none hnew]
  | some new =>
    cases hold : t.node? n with
    | none => simp [(h.fresh hnew hold).logger]
    | some old => simp [(h.ages hold hnew).logger_of_ne (hop n)]

/-- No operation takes a node with a logger from the tree. -/
theorem Alters.isAttached_of_hasLogger (h : Alters may op t u) (hn : t.IsAttached n)
    (hlogger : u.hasLogger n = true) : u.IsAttached n := by
  obtain ⟨p, hp, hattached⟩ := hn
  obtain ⟨old, hold, rfl⟩ := place?_eq_some.1 hp
  obtain ⟨new, hnew, hages⟩ := h.aged hold
  refine ⟨_, place?_of_node? hnew, ?_⟩
  -- what a pruning takes from the tree has no logger, not even when it is taken
  obtain hsame | ⟨-, -, hnone⟩ := hages.attached
  · exact hsame.trans hattached
  · simp [hasLogger, hnew, hnone] at hlogger

/-- A tree that was just planted has no logger, not even at the root. -/
theorem hasLogger_planted {minimum level : Option Level} (n : NodeId) :
    hasLogger { nodes := #[rootNode minimum level] } n = false := by
  unfold hasLogger
  cases hnode : node? { nodes := #[rootNode minimum level] } n with
  | none => rfl
  | some node => rw [(eq_of_node?_planted hnode).2]; rfl

/-- A new logger belongs to the one node that it is made for. -/
theorem hasLogger_createLogger (hn : t.Exists n) (m : NodeId) :
    (t.createLogger n).hasLogger m = true ↔ m = n ∨ t.hasLogger m = true := by
  unfold hasLogger createLogger
  rw [node?_update]
  by_cases hm : n = m
  · obtain ⟨p, hp⟩ := hn
    obtain ⟨node, hnode, -⟩ := place?_eq_some.1 hp
    simp [← hm, hnode]
  · simp [hm, Ne.symm hm]

@[simp] theorem release_hold (t : Tree) (n : NodeId) : (t.hold n).release n = t := by
  simp [hold, release]

namespace Situation

variable {s s' : Situation}

/-! ### Runs -/

/-- Whether a logger was created for a node. -/
def CreatedLogger (s : Situation) (n : NodeId) : Prop :=
  ∃ nodes, (Operation.createLogger n, nodes) ∈ s.ended

/-- A logger was created for a node by the call that ended last or by one before it. -/
theorem createdLogger_cons :
    CreatedLogger { s with tree := t, ended := (op, nodes) :: s.ended } n ↔
      op = .createLogger n ∨ s.CreatedLogger n := by
  simp [CreatedLogger, exists_or, eq_comm]

/-- The nodes with a logger are those for which one was created, and they are all in the tree. -/
structure Flagged (s : Situation) : Prop where
  hasLogger_iff (n : NodeId) : s.tree.hasLogger n = true ↔ s.CreatedLogger n
  isAttached {n : NodeId} : s.CreatedLogger n → s.tree.IsAttached n
  /-- The creation of a logger asks nobody. -/
  waiting {frame : Frame} : frame ∈ s.waiting → ∀ n, frame.operation ≠ .createLogger n

/-- Steps of all other operations. -/
theorem Flagged.advances (h : s.Flagged) (hadvances : Advances may op s s')
    (hop : ∀ n, op ≠ .createLogger n) : s'.Flagged := by
  obtain ⟨halters, hended, hwaiting⟩ := hadvances
  -- what has ended, if anything, is no creation of a logger
  have hcreated : ∀ n, s'.CreatedLogger n ↔ s.CreatedLogger n := by
    intro n
    unfold CreatedLogger
    obtain hsame | ⟨nodes, hmore⟩ := hended
    · rw [hsame]
    · simp [hmore, (hop n).symm]
  have hlogger : ∀ n, s'.tree.hasLogger n = true ↔ s'.CreatedLogger n := by
    intro n
    rw [halters.hasLogger_eq hop, h.hasLogger_iff, hcreated]
  refine ⟨hlogger, ?_, ?_⟩
  · intro n hn
    exact halters.isAttached_of_hasLogger (h.isAttached ((hcreated n).1 hn)) ((hlogger n).2 hn)
  · intro frame hframe
    obtain hframe | rfl := hwaiting frame hframe
    · exact h.waiting hframe
    · exact hop

/-- The creation of a logger ends at once. -/
theorem proceed_createLogger (s : Situation) (n : NodeId) :
    s.proceed (.createLogger n) (Operation.call (.createLogger n) s.tree) =
      { s with
        tree := (s.tree.createLogger n).hold n
        ended := (.createLogger n, [n]) :: s.ended } := rfl

/-- The flags keep saying which loggers were created when one more is. -/
theorem Flagged.createLogger (h : s.Flagged) (hn : s.tree.IsAttached n)
    (halters : Alters may (.createLogger n) s.tree ((s.tree.createLogger n).hold n)) :
    Flagged { s with
      tree := (s.tree.createLogger n).hold n
      ended := (.createLogger n, [n]) :: s.ended } := by
  have hlogger : ∀ m, ((s.tree.createLogger n).hold n).hasLogger m = true ↔
      m = n ∨ s.CreatedLogger m := by
    intro m
    exact (hasLogger_createLogger hn.exists m).trans (or_congr_right (h.hasLogger_iff m))
  refine ⟨fun m => ?_, fun {m} hm => ?_, h.waiting⟩
  · rw [createdLogger_cons, Operation.createLogger.injEq, eq_comm (a := n)]
    exact hlogger m
  · rw [createdLogger_cons, Operation.createLogger.injEq, eq_comm (a := n)] at hm
    refine halters.isAttached_of_hasLogger ?_ ((hlogger m).2 hm)
    obtain rfl | hm := hm
    · exact hn
    · exact h.isAttached hm

/-- Every step keeps the flags in line with the loggers that were created. -/
theorem Step.flagged (hstep : Step may s s') (hs : Reachable may s) (h : s.Flagged) :
    s'.Flagged := by
  obtain ⟨op, hadvances, hop⟩ := hstep.advances hs
  obtain rfl | ⟨frame, hframe, rfl⟩ | ⟨hpermitted, rfl⟩ := hop
  · exact h.advances hadvances (by simp)
  · exact h.advances hadvances (h.waiting hframe)
  · by_cases hop : ∃ n, op = .createLogger n
    · obtain ⟨n, rfl⟩ := hop
      exact h.createLogger (hpermitted.isAttached hs.wellFormed) hadvances.alters
    · exact h.advances hadvances fun n heq => hop ⟨n, heq⟩

/-- So it is in every run. -/
theorem Reachable.flagged (h : Reachable may s) : s.Flagged := by
  induction h with
  | @start answer _ _ =>
    refine ⟨fun n => ?_, ?_, fun hframe => absurd hframe (by simp)⟩
    · have hnone : hasLogger ((plant {}).answeredBy answer).1 n = false := hasLogger_planted n
      simp [CreatedLogger, hnone]
    · rintro n ⟨nodes, hended⟩
      exact absurd hended (by simp)
  | step hs hstep ih => exact hstep.flagged hs ih

/-- The names that are listed are those of the nodes for which a logger was created. -/
theorem Reachable.mem_loggerNames (h : Reachable may s) :
    name ∈ s.tree.loggerNames ↔ ∃ n, s.CreatedLogger n ∧ s.tree.name n = name := by
  rw [h.wellFormed.shaped.mem_loggerNames]
  constructor
  · rintro ⟨n, -, hlogger, hname⟩
    exact ⟨n, (h.flagged.hasLogger_iff n).1 hlogger, hname⟩
  · rintro ⟨n, hcreated, hname⟩
    exact ⟨n, h.flagged.isAttached hcreated, (h.flagged.hasLogger_iff n).2 hcreated, hname⟩

/-! ### Loggers for nodes in hand -/

/-- The situation after a logger was created for a node, and dropped. -/
def logged (s : Situation) (n : NodeId) : Situation :=
  { s with tree := s.tree.createLogger n, ended := (.createLogger n, [n]) :: s.ended }

/-- A logger can be created for a node that is held, at any time but before a removal. -/
theorem steps_logged (hheld : n ∈ s.tree.held) (hremoving : s.isRemoving = false) :
    Relation.ReflTransGen (Step may) s (s.logged n) := by
  have hcall : Step may s (s.proceed (.createLogger n) (Operation.call (.createLogger n) s.tree)) :=
    .call (.createLogger n) (.inl hheld) hremoving
  rw [proceed_createLogger] at hcall
  -- the reference that comes with the logger is given up at once
  have hdrop : Step may { s.logged n with tree := (s.tree.createLogger n).hold n }
      { s.logged n with tree := ((s.tree.createLogger n).hold n).release n } := .drop n
  rw [release_hold] at hdrop
  exact .head hcall (.single hdrop)

/-- From wherever operations may be called, a run creates loggers for nodes in hand, and changes
    nothing else. -/
theorem exists_createLoggers (hremoving : s.isRemoving = false)
    (hheld : ∀ n ∈ nodes, n ∈ s.tree.held) :
    ∃ s', Relation.ReflTransGen (Step may) s s' ∧
      s'.tree = nodes.foldl Tree.createLogger s.tree ∧ s'.waiting = s.waiting ∧
      ∀ n, s'.CreatedLogger n ↔ n ∈ nodes ∨ s.CreatedLogger n := by
  induction nodes generalizing s with
  | nil => exact ⟨s, .refl, rfl, rfl, by simp⟩
  | cons n rest ih =>
    obtain ⟨hn, hrest⟩ := List.forall_mem_cons.1 hheld
    have hlogged : Relation.ReflTransGen (Step may) s (s.logged n) := steps_logged hn hremoving
    obtain ⟨s', hsteps, htree, hwaiting, hcreated⟩ := @ih (s.logged n) hremoving hrest
    refine ⟨s', hlogged.trans hsteps, htree, hwaiting, ?_⟩
    intro m
    refine (hcreated m).trans ((or_congr_right createdLogger_cons).trans ?_)
    rw [Operation.createLogger.injEq, List.mem_cons, eq_comm (a := n), or_left_comm, or_assoc]

end Situation

end LoggerHierarchy.Tree
