import LoggerHierarchy.Proofs.Play
import LoggerHierarchy.Proofs.Tree.Course
import Mathlib.Algebra.GroupWithZero.Nat
import Mathlib.Data.Finset.Card
import Mathlib.Data.Finset.Range

namespace LoggerHierarchy.Tree

/-!
# The count of nodes

Runs in which the number that a pruning returns is written down:

* `Outcome`, `Operation.account` — what operations return, with that number;
* `Ledger` — a situation with the outcomes of the operations that have ended; `Ledger.situation`
  leaves the numbers out, and `Ledger.Reachable.situation`, `Situation.Reachable.exists_ledger` say
  that the runs are the same;
* `dropped` — the nodes that were taken from the tree; `Alters.dropped_eq` — only a pruning takes
  any, and `keeps_prune` — it takes as many as it returns;
* `Situation.Reachable.length_members_add_removed` — the nodes of the tree are those that were
  counted, without those that prunings have removed.
-/

variable {may : Answers} {t u : Tree} {n : NodeId} {op : Operation} {α : Type}

/-! ### Outcomes -/

/-- What an operation returns: the nodes that it hands out and, if it is a pruning, how many it has
    removed. -/
structure Outcome where
  nodes : List NodeId := []
  removed : Nat := 0

namespace Operation

/-- Carries out an operation; only a pruning returns a number. -/
def account : Operation → Run Outcome
  | .prune => do return ⟨[], ← Tree.prune⟩
  | op => do return ⟨← op.run, 0⟩

/-- Carries out an operation for the outside, which keeps references to the nodes it gets. -/
def accountedCall (op : Operation) : Run Outcome := do
  let outcome ← op.account
  modify fun t => { t with held := outcome.nodes ++ t.held }
  return outcome

/-- All operations but a pruning are carried out as they are, and return no number. -/
theorem account_of_ne (hop : op ≠ .prune) :
    op.account = op.run >>= fun nodes => pure ⟨nodes, 0⟩ := by
  cases op <;> first | rfl | exact absurd rfl hop

/-- Without the number, an operation is carried out as before. -/
theorem run_eq_account (op : Operation) :
    op.run = op.account >>= fun outcome => pure outcome.nodes := by
  by_cases hop : op = .prune
  · subst hop
    simp [account, run, silently]
  · rw [account_of_ne hop]
    simp

/-- But for the number, it is the same. -/
theorem call_eq_accountedCall (op : Operation) :
    op.call = op.accountedCall >>= fun outcome => pure outcome.nodes := by
  rw [call, run_eq_account]
  simp [accountedCall]

end Operation

/-! ### Ledgers -/

/-- An operation that waits for an answer, and will return an outcome. -/
structure Account where
  operation : Operation
  question : Question
  resume : Tree → question.Answer → Dialogue outside Tree Outcome

/-- The account of an operation without its number. -/
def Account.frame (account : Account) : Frame where
  operation := account.operation
  question := account.question
  resume t a := (account.resume t a).bind fun t outcome => .done t outcome.nodes

/-- A tree in the middle of a run in which outcomes are written down. -/
structure Ledger where
  tree : Tree
  /-- The operations that wait for an answer, the one called last first. -/
  waiting : List Account := []
  /-- The operations that have ended, with what they returned. -/
  ended : List (Operation × Outcome) := []

namespace Ledger

/-- What the prunings that have ended returned, all together. -/
def removed (l : Ledger) : Nat :=
  (l.ended.map fun entry => entry.2.removed).sum

/-- The situation without the numbers. -/
def situation (l : Ledger) : Situation where
  tree := l.tree
  waiting := l.waiting.map Account.frame
  ended := l.ended.map fun entry => (entry.1, entry.2.nodes)

/-- Runs an operation up to its next question or its end. -/
def proceed (l : Ledger) (op : Operation) : Dialogue outside Tree Outcome → Ledger
  | .done t outcome => { l with tree := t, ended := (op, outcome) :: l.ended }
  | .aborted t => { l with tree := t }
  | .announce _ d => l.proceed op d
  | .ask t question resume =>
    { l with tree := t, waiting := ⟨op, question, resume⟩ :: l.waiting }

/-- One step of a run, as in situations. -/
inductive Step (may : Answers) : Ledger → Ledger → Prop where
  | call {l : Ledger} (op : Operation) (hpermitted : l.situation.Permits op)
      (hremoving : l.situation.isRemoving = false) :
      Step may l (l.proceed op (op.accountedCall l.tree))
  | answer {t : Tree} {account : Account} {waiting : List Account}
      {ended : List (Operation × Outcome)} {a : account.question.Answer}
      (hmay : may account.question a) :
      Step may ⟨t, account :: waiting, ended⟩
        (proceed ⟨t, waiting, ended⟩ account.operation (account.resume t a))
  | copy {l : Ledger} {n : NodeId} (hheld : n ∈ l.tree.held) :
      Step may l { l with tree := l.tree.hold n }
  | drop {l : Ledger} (n : NodeId) : Step may l { l with tree := l.tree.release n }

/-- The ledgers of the runs of a new context. -/
inductive Reachable (may : Answers) : Ledger → Prop where
  | start {answer : (q : Question) → q.Answer}
      (hminimum : may (.minimum "") (answer (.minimum "")))
      (hlevel : may (.level "") (answer (.level ""))) :
      Reachable may { tree := ((plant {}).answeredBy answer).1 }
  | step {l l' : Ledger} (hl : Reachable may l) (hstep : Step may l l') : Reachable may l'

variable {l l' : Ledger}

/-! ### The runs are the same -/

/-- Up to its next question or its end, an operation does the same with the books and without. -/
theorem situation_proceed (l : Ledger) (op : Operation) (d : Dialogue outside Tree Outcome) :
    (l.proceed op d).situation =
      l.situation.proceed op (d.bind fun t outcome => .done t outcome.nodes) := by
  induction d with
  | done | aborted | ask => rfl
  | announce e d ih => exact ih

/-- A whole call for the outside does the same with the books and without. -/
theorem situation_call (l : Ledger) (op : Operation) :
    (l.proceed op (op.accountedCall l.tree)).situation =
      l.situation.proceed op (op.call l.tree) := by
  rw [situation_proceed, Operation.call_eq_accountedCall]
  rfl

/-- Each step with the books is a step without them. -/
theorem Step.situation (h : Step may l l') : Situation.Step may l.situation l'.situation := by
  cases h with
  | call op hpermitted hremoving =>
    rw [situation_call]
    exact .call op hpermitted hremoving
  | @answer t account waiting ended a hmay =>
    rw [situation_proceed]
    exact @Situation.Step.answer may t account.frame _ _ a hmay
  | copy hheld => exact .copy hheld
  | drop n => exact .drop n

/-- Each run with the books is a run without them. -/
theorem Reachable.situation (h : Reachable may l) : Situation.Reachable may l.situation := by
  induction h with
  | start hminimum hlevel => exact .start hminimum hlevel
  | step _ hstep ih => exact ih.step hstep.situation

end Ledger

/-- In every run the outcomes can be written down. -/
theorem Situation.Reachable.exists_ledger {s : Situation} (h : Situation.Reachable may s) :
    ∃ l, Ledger.Reachable may l ∧ l.situation = s := by
  induction h with
  | start hminimum hlevel => exact ⟨_, .start hminimum hlevel, rfl⟩
  | step _ hstep ih =>
    obtain ⟨l, hl, hs⟩ := ih
    cases hstep with
    | call op hpermitted hremoving =>
      subst hs
      exact ⟨_, hl.step (.call op hpermitted hremoving), l.situation_call op⟩
    -- the operation that gets the answer is on top of both stacks
    | @answer t frame waiting ended a hmay =>
      obtain ⟨tree, accounts, outcomes⟩ := l
      cases accounts with
      | nil => exact absurd (congrArg Situation.waiting hs) (by simp [Ledger.situation])
      | cons account accounts =>
        obtain ⟨rfl, hwaiting, rfl⟩ : tree = t ∧ account.frame :: accounts.map Account.frame =
            frame :: waiting ∧ outcomes.map (fun entry => (entry.1, entry.2.nodes)) = ended := by
          simpa [Ledger.situation] using hs
        obtain ⟨rfl, rfl⟩ := List.cons.inj hwaiting
        exact ⟨_, hl.step (@Ledger.Step.answer may _ account _ _ a hmay),
          Ledger.situation_proceed _ _ _⟩
    | copy hheld =>
      subst hs
      exact ⟨_, hl.step (.copy hheld), rfl⟩
    | drop n =>
      subst hs
      exact ⟨_, hl.step (.drop n), rfl⟩

/-! ### Nodes that were taken from the tree -/

/-- The nodes that are not in the tree any more. -/
def dropped (t : Tree) : Finset NodeId :=
  (Finset.range t.nodes.size).filter fun n => (t.node? n).any (!·.attached) = true

/-- A dropped node was made, and is detached. -/
theorem mem_dropped : n ∈ t.dropped ↔ ∃ p, t.place? n = some p ∧ p.attached = false := by
  unfold dropped place?
  rw [Finset.mem_filter, Finset.mem_range]
  cases hnode : t.node? n with
  | none => simp
  | some node =>
    have hlt : n < t.nodes.size := lt_size_of_place? (place?_of_node? hnode)
    simp [hlt, Node.place]

/-- All other nodes are in it. -/
theorem Shaped.length_members_add_card_dropped (h : t.Shaped) :
    t.members.length + t.dropped.card = t.nodes.size := by
  have hmembers : t.members.length =
      ((Finset.range t.nodes.size).filter fun n => t.contains n = true).card := by
    rw [Finset.card_def, Finset.filter_val, Finset.range_val]
    simp [members, Multiset.range]
  have hdropped : t.dropped =
      (Finset.range t.nodes.size).filter fun n => ¬ t.contains n = true := by
    ext n
    rw [mem_dropped, Finset.mem_filter, Finset.mem_range, h.contains_iff]
    constructor
    · rintro ⟨p, hp, hnot⟩
      refine ⟨lt_size_of_place? hp, ?_⟩
      rintro ⟨q, hq, hattached⟩
      obtain rfl := Option.some.inj (hp.symm.trans hq)
      exact absurd (hnot.symm.trans hattached) (by simp)
    · rintro ⟨hlt, hnot⟩
      have hp := place?_of_node? (Array.getElem?_eq_getElem hlt : t.node? n = some _)
      refine ⟨_, hp, ?_⟩
      rw [Bool.eq_false_iff]
      exact fun hattached => hnot ⟨_, hp, hattached⟩
  rw [hmembers, hdropped, Finset.card_filter_add_card_filter_not, Finset.card_range]

/-- Which nodes are dropped depends on the nodes alone, not on references. -/
theorem dropped_congr (hnodes : u.nodes = t.nodes) : u.dropped = t.dropped := by
  unfold dropped node?
  rw [hnodes]

/-- Only a pruning takes nodes from a tree. -/
theorem Alters.dropped_eq (h : Alters may op t u) (hop : op ≠ .prune) : u.dropped = t.dropped := by
  ext n
  rw [mem_dropped, mem_dropped]
  constructor
  · rintro ⟨p, hp, hnot⟩
    obtain ⟨new, hnew, rfl⟩ := place?_eq_some.1 hp
    cases hold : t.node? n with
    | none => exact absurd (hnot.symm.trans (h.fresh hnew hold).attached) (by simp)
    | some old =>
      have hages := h.ages hold hnew
      exact ⟨_, place?_of_node? hold, (hages.attached_of_ne hop).symm.trans hnot⟩
  · rintro ⟨p, hp, hnot⟩
    obtain ⟨old, hold, rfl⟩ := place?_eq_some.1 hp
    obtain ⟨new, hnew, hages⟩ := h.aged hold
    exact ⟨_, place?_of_node? hnew, (hages.attached_of_ne hop).trans hnot⟩

/-- One more node is dropped when a node of the tree is detached. -/
theorem card_dropped_detach (hn : t.IsAttached n) :
    (t.detach n).dropped.card = t.dropped.card + 1 := by
  obtain ⟨p, hp, hattached⟩ := hn
  obtain ⟨node, hnode, rfl⟩ := place?_eq_some.1 hp
  have hnot : n ∉ t.dropped := by
    rw [mem_dropped]
    rintro ⟨q, hq, hdetached⟩
    obtain rfl := Option.some.inj (hp.symm.trans hq)
    exact absurd (hdetached.symm.trans hattached) (by simp)
  have hdetach : (t.detach n).dropped = Insert.insert n t.dropped := by
    ext m
    rw [Finset.mem_insert, mem_dropped, mem_dropped, place?, place?, Tree.detach, node?_update]
    by_cases hm : n = m
    · subst hm
      simp [hnode, Node.place]
    · simp [hm, Ne.symm hm]
  rw [hdetach, Finset.card_insert_of_notMem hnot]

/-! ### What a pruning returns -/

/-- The contract of a pruning: no node is touched while it waits. -/
def stillness : Dialogue.Contract outside Tree where
  guarantee _ _ := True
  rely _ t u _ := u.nodes = t.nodes
  guarantee_trans _ _ := trivial

/-- The question about the handlers of a node touches no node and always has an answer. -/
theorem keeps_handlersReproducible (n : NodeId) (t : Tree) :
    (handlersReproducible n t).Keeps stillness (fun u r => u.nodes = t.nodes ∧ r.isSome = true)
      t := by
  unfold handlersReproducible
  simp only [Program.bind_apply, Program.get_apply, Dialogue.bind_done]
  split
  · split
    · exact ⟨trivial, fun u a hu => ⟨trivial, hu, rfl⟩⟩
    · exact ⟨trivial, rfl, rfl⟩
  · exact ⟨trivial, rfl, rfl⟩

/-- The turn of a node drops one node or none, as it says. -/
theorem keeps_pruneNode (n : NodeId) (t : Tree) :
    (pruneNode n t).Keeps stillness (fun u r => ∃ dropped, r = some dropped ∧
      u.dropped.card = t.dropped.card + if dropped then 1 else 0) t := by
  unfold pruneNode
  simp only [Program.bind_apply, Program.get_apply, Dialogue.bind_done]
  split
  · rename_i hidle
    refine Dialogue.Keeps.bind (keeps_handlersReproducible n t) ?_ ?_
    · rintro u reproducible ⟨hnodes, -⟩
      cases reproducible with
      | true =>
        -- the node is as it was when it was found idle
        obtain ⟨node, hnode, -, hattached, -⟩ := isIdle_iff.1 hidle
        have hnodeU : u.node? n = some node := by rw [node?, hnodes]; exact hnode
        have hcard := card_dropped_detach ⟨_, place?_of_node? hnodeU, hattached⟩
        rw [dropped_congr hnodes] at hcard
        exact ⟨trivial, true, rfl, hcard⟩
      | false => exact ⟨trivial, false, rfl, by rw [dropped_congr hnodes]; rfl⟩
    · rintro u ⟨-, hsome⟩
      exact absurd hsome (by simp)
  · exact ⟨trivial, false, rfl, rfl⟩

/-- The turns of all nodes drop as many as they count. -/
theorem keeps_pruneNodes (order : List NodeId) (t : Tree) :
    (pruneNodes order t).Keeps stillness (fun u r => ∃ removed, r = some removed ∧
      u.dropped.card = t.dropped.card + removed) t := by
  induction order generalizing t with
  | nil => exact ⟨trivial, 0, rfl, rfl⟩
  | cons n rest ih =>
    refine Dialogue.Keeps.bind (keeps_pruneNode n t) ?_ ?_
    · rintro u dropped ⟨_, hsome, hcard⟩
      obtain rfl := Option.some.inj hsome
      refine Dialogue.Keeps.bind (ih u) ?_ ?_
      · rintro v more ⟨_, hsome, hmore⟩
        obtain rfl := Option.some.inj hsome
        exact ⟨trivial, _, rfl, by rw [hmore, hcard, Nat.add_assoc]⟩
      · rintro v ⟨_, hnone, -⟩
        exact absurd hnone (by simp)
    · rintro u ⟨_, hnone, -⟩
      exact absurd hnone (by simp)

/-- A pruning takes as many nodes from the tree as it returns. -/
theorem keeps_prune (t : Tree) :
    (prune t).Keeps stillness (fun u r => ∃ removed, r = some removed ∧
      u.dropped.card = t.dropped.card + removed) t := by
  change Dialogue.Keeps _ _ ((pruneNodes _ t).bind _) t
  refine Dialogue.Keeps.bind (keeps_pruneNodes _ t) ?_ ?_
  · rintro u removed ⟨_, hsome, hcard⟩
    obtain rfl := Option.some.inj hsome
    exact ⟨trivial, _, rfl, hcard⟩
  · rintro u ⟨_, hnone, -⟩
    exact absurd hnone (by simp)

/-! ### Which questions a pruning asks -/

/-- Only the configuration is asked before a removal, and never is this aborted. -/
theorem returns_handlersReproducible (n : NodeId) (t : Tree) :
    (handlersReproducible n t).Returns fun q : Question => q.isForRemoval = true := by
  unfold handlersReproducible
  simp only [Program.bind_apply, Program.get_apply, Dialogue.bind_done]
  split
  · split
    · exact ⟨rfl, fun _ _ => trivial⟩
    · trivial
  · trivial

/-- The turn of a node is never aborted, and asks only before a removal. -/
theorem returns_pruneNode (n : NodeId) (t : Tree) :
    (pruneNode n t).Returns fun q : Question => q.isForRemoval = true := by
  unfold pruneNode
  simp only [Program.bind_apply, Program.get_apply, Dialogue.bind_done]
  split
  · refine Dialogue.Returns.bind (returns_handlersReproducible n t) ?_
    intro u reproducible
    cases reproducible with
    | true => trivial
    | false => trivial
  · trivial

/-- The turns of all nodes are never aborted, and ask only before removals. -/
theorem returns_pruneNodes (order : List NodeId) (t : Tree) :
    (pruneNodes order t).Returns fun q : Question => q.isForRemoval = true := by
  induction order generalizing t with
  | nil => trivial
  | cons n rest ih =>
    exact Dialogue.Returns.bind (returns_pruneNode n t) fun u _ =>
      Dialogue.Returns.bind (ih u) fun _ _ => trivial

/-- All that a pruning asks it asks before a removal. -/
theorem returns_prune (t : Tree) :
    (prune t).Returns fun q : Question => q.isForRemoval = true := by
  change Dialogue.Returns _ ((pruneNodes _ t).bind _)
  exact Dialogue.Returns.bind (returns_pruneNodes _ t) fun _ _ => trivial

/-! ### What other operations return -/

/-- The contract of an operation that expects nothing of the outside. -/
def anything : Dialogue.Contract outside Tree where
  guarantee _ _ := True
  rely _ _ _ _ := True
  guarantee_trans _ _ := trivial

/-- Nothing is promised, so every operation keeps the promise. -/
theorem keeps_anything (d : Dialogue outside Tree α) (t : Tree) :
    d.Keeps anything (fun _ _ => True) t := by
  induction d generalizing t with
  | done | aborted => exact ⟨trivial, trivial⟩
  | announce e d ih => exact ih t
  | ask u q resume ih => exact ⟨trivial, fun v a _ => ih v a v⟩

/-- An outcome without a number. -/
def NothingRemoved (_ : Tree) (result : Option Outcome) : Prop :=
  ∀ outcome, result = some outcome → outcome.removed = 0

/-- A call that is no pruning writes down zero. -/
theorem keeps_accountedCall (hop : op ≠ .prune) (t : Tree) :
    (op.accountedCall t).Keeps anything NothingRemoved t := by
  have haccount : (op.account t).Keeps anything NothingRemoved t := by
    rw [Operation.account_of_ne hop]
    refine Dialogue.Keeps.bind (keeps_anything (op.run t) t) ?_ ?_
    · intro u nodes _
      refine ⟨trivial, ?_⟩
      rintro outcome ⟨⟩
      rfl
    · rintro u - outcome ⟨⟩
  refine Dialogue.Keeps.bind haccount ?_ ?_
  · intro u outcome hzero
    exact ⟨trivial, hzero⟩
  · intro u hzero
    exact hzero

/-- What a pruning for the outside takes from the tree. -/
theorem keeps_accountedCall_prune (t : Tree) :
    (Operation.accountedCall .prune t).Keeps stillness (fun u r => ∃ outcome, r = some outcome ∧
      u.dropped.card = t.dropped.card + outcome.removed) t := by
  change Dialogue.Keeps _ _ (((prune t).bind _).bind _) t
  rw [Dialogue.bind_assoc]
  refine Dialogue.Keeps.bind (keeps_prune t) ?_ ?_
  · rintro u removed ⟨_, hsome, hcard⟩
    obtain rfl := Option.some.inj hsome
    exact ⟨trivial, _, rfl, hcard⟩
  · rintro u ⟨_, hnone, -⟩
    exact absurd hnone (by simp)

/-- A pruning for the outside is never aborted, and asks only before removals. -/
theorem returns_accountedCall_prune (t : Tree) :
    (Operation.accountedCall .prune t).Returns fun q : Question => q.isForRemoval = true := by
  change Dialogue.Returns _ (((prune t).bind _).bind _)
  rw [Dialogue.bind_assoc]
  exact Dialogue.Returns.bind (returns_prune t) fun _ _ => trivial

/-! ### The books are balanced -/

/-- An operation that waits, and is no pruning. -/
def Account.RemovesNothing (account : Account) : Prop :=
  account.operation ≠ .prune ∧
    ∀ u a, (account.resume u a).Keeps anything NothingRemoved u

/-- A pruning that waits in `t`: resumed there, it will have taken from the tree, besides the nodes
    of other prunings, as many as it returns. -/
def Account.Removes (account : Account) (others : Nat) (t : Tree) : Prop :=
  account.operation = .prune ∧ account.question.isForRemoval = true ∧
    ∀ u a, u.nodes = t.nodes →
      (account.resume u a).Keeps stillness (fun v r => ∃ outcome, r = some outcome ∧
        v.dropped.card = others + outcome.removed) u ∧
      (account.resume u a).Returns fun q : Question => q.isForRemoval = true

namespace Ledger

variable {l l' : Ledger}

/-- While no pruning waits, the nodes that were taken from the tree are those that prunings have
    returned. -/
def Settled (l : Ledger) : Prop :=
  (∀ account ∈ l.waiting, account.RemovesNothing) ∧ l.tree.dropped.card = l.removed

/-- A pruning waits, above operations that are none. -/
def Removing (l : Ledger) : Prop :=
  ∃ account waiting, l.waiting = account :: waiting ∧ account.Removes l.removed l.tree ∧
    ∀ other ∈ waiting, other.RemovesNothing

/-- An operation that is no pruning is run up to its next question or its end. -/
theorem removesNothing_proceed {d : Dialogue outside Tree Outcome} (hop : op ≠ .prune)
    (hl : ∀ account ∈ l.waiting, account.RemovesNothing)
    (hd : d.Keeps anything NothingRemoved t) :
    (∀ account ∈ (l.proceed op d).waiting, account.RemovesNothing) ∧
      (l.proceed op d).removed = l.removed := by
  induction d generalizing t with
  | done u outcome =>
    refine ⟨hl, ?_⟩
    have hzero : outcome.removed = 0 := hd.2 outcome rfl
    simp [proceed, removed, hzero]
  | aborted u => exact ⟨hl, rfl⟩
  | announce e d ih => exact ih hd
  | ask u q resume _ =>
    refine ⟨?_, rfl⟩
    intro account haccount
    obtain rfl | haccount := List.mem_cons.1 haccount
    · exact ⟨hop, fun u a => hd.2 u a trivial⟩
    · exact hl account haccount

/-- A pruning is run up to its next question or its end. -/
theorem settled_or_removing_proceed {d : Dialogue outside Tree Outcome}
    (hl : ∀ account ∈ l.waiting, account.RemovesNothing)
    (hd : d.Keeps stillness (fun v r => ∃ outcome, r = some outcome ∧
      v.dropped.card = l.removed + outcome.removed) t)
    (hasks : d.Returns fun q : Question => q.isForRemoval = true) :
    (l.proceed .prune d).Settled ∨ (l.proceed .prune d).Removing := by
  induction d generalizing t with
  | done u outcome =>
    obtain ⟨-, _, hsome, hcard⟩ := hd
    obtain rfl := Option.some.inj hsome
    refine .inl ⟨hl, ?_⟩
    rw [show (l.proceed .prune (.done u outcome)).removed = outcome.removed + l.removed from
      List.sum_cons, Nat.add_comm]
    exact hcard
  | aborted u => exact hasks.elim
  | announce e d ih => exact ih hd hasks
  | ask u q resume _ =>
    refine .inr ⟨⟨.prune, q, resume⟩, l.waiting, rfl, ⟨rfl, hasks.1, ?_⟩, hl⟩
    intro v a hv
    exact ⟨hd.2 v a hv, hasks.2 v a⟩

/-- While a pruning waits in the books, the tree is about to remove a node. -/
theorem Removing.isRemoving (h : l.Removing) : l.situation.isRemoving = true := by
  obtain ⟨account, waiting, hwaiting, ⟨-, hremoval, -⟩, -⟩ := h
  simp only [Ledger.situation, Situation.isRemoving, hwaiting]
  exact hremoval

/-- Changes of references touch no books. -/
theorem settled_or_removing_rest (h : l.Settled ∨ l.Removing) (hnodes : u.nodes = l.tree.nodes) :
    Settled { l with tree := u } ∨ Removing { l with tree := u } := by
  obtain ⟨hl, hcard⟩ | ⟨account, waiting, hwaiting, ⟨hop, hremoval, hresume⟩, hl⟩ := h
  · exact .inl ⟨hl, (congrArg Finset.card (dropped_congr hnodes)).trans hcard⟩
  · exact .inr ⟨account, waiting, hwaiting,
      ⟨hop, hremoval, fun v a hv => hresume v a (hv.trans hnodes)⟩, hl⟩

/-- In every run either no pruning waits and the books are balanced, or a pruning is under way. -/
theorem Reachable.settled_or_removing (h : Reachable may l) : l.Settled ∨ l.Removing := by
  induction h with
  | start => exact .inl ⟨fun account haccount => absurd haccount (by simp), rfl⟩
  | @step l l' hl hstep ih =>
    have hs := hl.situation
    cases hstep with
    -- before a removal nothing is called, so the books are settled here
    | call op hpermitted hremoving =>
      obtain ⟨hwaiting, hcard⟩ := ih.resolve_right fun hr =>
        absurd (hremoving.symm.trans hr.isRemoving) (by simp)
      by_cases hop : op = .prune
      · subst hop
        have hkeeps := keeps_accountedCall_prune l.tree
        rw [hcard] at hkeeps
        exact settled_or_removing_proceed hwaiting hkeeps (returns_accountedCall_prune l.tree)
      · obtain ⟨hwaiting', hremoved⟩ :=
          removesNothing_proceed hop hwaiting (keeps_accountedCall hop l.tree)
        have halters := (hs.advances_call hpermitted).alters
        have htree := congrArg Situation.tree (l.situation_call op)
        refine .inl ⟨hwaiting', ?_⟩
        rw [hremoved, ← hcard]
        exact congrArg Finset.card ((congrArg dropped htree).trans (halters.dropped_eq hop))
    | @answer t account waiting ended a hmay =>
      obtain ⟨hwaiting, hcard⟩ | ⟨_, _, hwaiting, hremoves, hothers⟩ := ih
      -- the answer is for an operation that removes nothing, or for the pruning on top
      · obtain ⟨hop, hresume⟩ := hwaiting account (by simp)
        obtain ⟨hwaiting', hremoved⟩ := removesNothing_proceed (l := ⟨t, waiting, ended⟩) hop
          (fun other hother => hwaiting other (List.mem_cons_of_mem _ hother)) (hresume t a)
        have halters :=
          (@Situation.Reachable.advances_answer may t account.frame _ _ a hs hmay).alters
        have htree := congrArg Situation.tree (situation_proceed ⟨t, waiting, ended⟩
          account.operation (account.resume t a))
        refine .inl ⟨hwaiting', ?_⟩
        rw [hremoved]
        refine Eq.trans ?_ hcard
        exact congrArg Finset.card ((congrArg dropped htree).trans (halters.dropped_eq hop))
      · obtain ⟨rfl, rfl⟩ := List.cons.inj hwaiting
        obtain ⟨hop, -, hresume⟩ := hremoves
        obtain ⟨hkeeps, hasks⟩ := hresume t a rfl
        rw [hop]
        exact settled_or_removing_proceed (l := ⟨t, waiting, ended⟩) hothers hkeeps hasks
    | copy hheld => exact settled_or_removing_rest ih rfl
    | drop n => exact settled_or_removing_rest ih rfl

end Ledger

/-- In every run all nodes but the root were counted. -/
theorem Situation.Reachable.size_eq {s : Situation} (h : Situation.Reachable may s) :
    s.tree.nodes.size = 1 + s.tree.created := by
  induction h with
  | start => rfl
  | step hs hstep ih =>
    obtain ⟨op, hadvances, -⟩ := hstep.advances hs
    have := hadvances.alters.balance
    omega

/-! ### Lost races -/

section LostRaces

variable {ω : Type} {world : Dialogue.Outside outside Tree ω} {w w' w'' : ω} {v : Tree}
  {minimum level : Option Level} {segment : String} {winner : NodeId}

/-- A child that was made while its floor and level were asked is used, and nothing else happens. -/
theorem play_createChild_of_winner
    (hminimum : world (.minimum (t.childName n segment)) t w = (minimum, u, w'))
    (hlevel : world (.level (t.childName n segment)) u w' = (level, v, w''))
    (hwinner : v.child? n segment = some winner) :
    (createChild n segment t).play world w =
      ⟨[.asked t (.minimum (t.childName n segment)) minimum u,
        .asked u (.level (t.childName n segment)) level v,
        .announced (lostRace (t.childName n segment))], some winner, v, w''⟩ := by
  rw [createChild_eq, Dialogue.play_of_ask rfl hminimum, Dialogue.play_of_ask rfl hlevel]
  simp only [hwinner]
  rfl

end LostRaces

/-! ### In every run -/

/-- Whenever the outside may look at a context, also from within the code that operations call, but
    for what is asked before a removal: all that prunings have returned can be written down, and
    the nodes of the tree, together with those, are the root and the nodes that were counted; every
    node but the root was counted once; and one that was made meanwhile under the same segment is
    used instead of a new node, which is neither counted nor put into the tree. -/
theorem Situation.Reachable.length_members_add_removed {s : Situation}
    (h : Situation.Reachable may s) (hremoving : s.isRemoving = false) :
    (∃ l, Ledger.Reachable may l ∧ l.situation = s) ∧
    (∀ l, Ledger.Reachable may l → l.situation = s →
      s.tree.members.length + l.removed = 1 + s.tree.created) ∧
    s.tree.nodes.size = 1 + s.tree.created ∧
    ∀ (ω : Type) (world : Dialogue.Outside outside Tree ω) (w w' w'' : ω) (u v : Tree)
      (n winner : NodeId) (segment : String) (minimum level : Option Level),
      world (.minimum (s.tree.childName n segment)) s.tree w = (minimum, u, w') →
      world (.level (s.tree.childName n segment)) u w' = (level, v, w'') →
      v.child? n segment = some winner →
      (createChild n segment s.tree).play world w =
        ⟨[.asked s.tree (.minimum (s.tree.childName n segment)) minimum u,
          .asked u (.level (s.tree.childName n segment)) level v,
          .announced (lostRace (s.tree.childName n segment))], some winner, v, w''⟩ := by
  refine ⟨h.exists_ledger, ?_, h.size_eq, ?_⟩
  · rintro l hl rfl
    -- no pruning waits, so the balance is in the books
    obtain ⟨-, hcard⟩ := hl.settled_or_removing.resolve_right fun hr =>
      absurd (hremoving.symm.trans hr.isRemoving) (by simp)
    have hmembers := h.wellFormed.shaped.length_members_add_card_dropped
    have hsize := h.size_eq
    change l.tree.members.length + l.tree.dropped.card = l.tree.nodes.size at hmembers
    rw [hcard] at hmembers
    exact hmembers.trans hsize
  · intro ω world w w' w'' u v n winner segment minimum level hminimum hlevel hwinner
    exact play_createChild_of_winner hminimum hlevel hwinner

namespace Ledger

variable {l : Ledger} {c : Configuration}

/-- The ledger after a call. -/
def called (l : Ledger) (op : Operation) : Ledger :=
  l.proceed op (op.accountedCall l.tree)

/-- The ledger after the configuration has answered the last question. -/
def answered (l : Ledger) (c : Configuration) : Ledger :=
  match l.waiting with
  | [] => l
  | account :: waiting =>
    proceed ⟨l.tree, waiting, l.ended⟩ account.operation
      (account.resume l.tree (c.answer account.question))

/-- The answer of a configuration is a step of a run that it allows. -/
theorem Reachable.answered (h : Reachable c.Allows l) : Reachable c.Allows (l.answered c) := by
  obtain ⟨t, waiting, ended⟩ := l
  cases waiting with
  | nil => exact h
  | cons account waiting => exact h.step (.answer (c.allows_answer _))

/-- A node was asked for, and made while its floor was asked; the references to it were given up,
    and the tree was pruned. -/
def contested : Ledger :=
  let op := Operation.getOrCreate root "a"
  let made := (((({ tree := ((plant {}).answeredBy (Configuration.answer {})).1 } : Ledger).called
    op).called op).answered {}).answered {}
  let lost := (made.answered {}).answered {}
  called { lost with tree := (lost.tree.release 1).release 1 } .prune

/-- The run in question is one of a configuration with nothing set. -/
theorem reachable_contested : Reachable (Configuration.Allows {}) contested := by
  have hnew := Reachable.start (Configuration.allows_answer {} (.minimum ""))
    (Configuration.allows_answer {} (.level ""))
  have hcalled := hnew.step (.call (.getOrCreate root "a") (.inr ⟨rfl, rfl⟩) rfl)
  have hagain := hcalled.step (.call (.getOrCreate root "a") (.inr ⟨rfl, rfl⟩) rfl)
  have hlost := hagain.answered.answered.answered.answered
  exact ((hlost.step (.drop 1)).step (.drop 1)).step
    (.call .prune (.inr ⟨rfl, by decide +kernel⟩) (by decide +kernel))

end Ledger

/-- The node that was asked for twice was counted and removed once. -/
theorem length_members_of_contested :
    Ledger.contested.removed = 1 ∧ Ledger.contested.tree.created = 1 ∧
      Ledger.contested.tree.members.length + 1 = 1 + 1 := by
  have hremoved : Ledger.contested.removed = 1 := by decide +kernel
  have hcreated : Ledger.contested.tree.created = 1 := by decide +kernel
  have hledger := Ledger.reachable_contested
  obtain ⟨-, hbooks, -⟩ := Situation.Reachable.length_members_add_removed hledger.situation
    (by decide +kernel)
  have hmembers := hbooks _ hledger rfl
  rw [hremoved] at hmembers
  exact ⟨hremoved, hcreated, hmembers.trans (congrArg (1 + ·) hcreated)⟩

end LoggerHierarchy.Tree
