import LoggerHierarchy.Proofs.Tree.Delivery
import LoggerHierarchy.Proofs.Tree.FullNames
import LoggerHierarchy.Proofs.Tree.Removal

namespace LoggerHierarchy.Tree

/-!
# Prunings and the answers they got

A configuration need not answer the same whenever it is asked.  As long as it does nothing but
answer before a removal, what a pruning removes is told by what it answers then:

* `Trial`, `Trials` — what is seen when the turn of one node comes, and of several in order;
* `IsPruning` — the pruning of the program, and those that visit children in any other order;
* `Prunes` — what a pruning comes to: the nodes that are gone are those that are removable by what
  was answered;
* `Withdraws` — an empty list where there was another one before; `IsPruning.again` — a pruning
  right after another one removes something iff a list is withdrawn;
* `Situation.Reachable.prune_removes` — this for every run.
-/

variable {may : Answers} {ω ω' : Type} {t u : Tree} {n m : NodeId} {order : List NodeId} {k : Nat}
  {moves moves' : List Move} {dropped : Bool} {answer : (q : Question) → q.Answer}

/-! ### What is seen of a pruning -/

/-- What is seen when the turn of a node comes.  If nothing else keeps it, and its list is empty but
    was not always unset, the configuration is asked, and an empty answer lets it go. -/
inductive Trial (t : Tree) (n : NodeId) : List Move → Bool → Prop where
  | kept : Trial t n [] false
  | dropped {e : Event} : Trial t n [.announced e] true
  | refused {items : List Handler} (hidle : t.isIdle n = true) (hitems : items ≠ []) :
      Trial t n [.asked t (.handlersForRemoval (t.name n)) items t] false
  | granted {items : List Handler} {e : Event} (hidle : t.isIdle n = true) (hitems : items = []) :
      Trial t n [.asked t (.handlersForRemoval (t.name n)) items t, .announced e] true

/-- The turns of some nodes, with the number of those that are dropped.  Events may follow. -/
inductive Trials : Tree → List NodeId → List Move → Nat → Tree → Prop where
  | nil {t : Tree} {events : List Event} : Trials t [] (events.map .announced) 0 t
  | cons {t u : Tree} {n : NodeId} {rest : List NodeId} {moves moves' : List Move} {dropped : Bool}
      {k : Nat} (htrial : Trial t n moves dropped)
      (hrest : Trials (if dropped then t.detach n else t) rest moves' k u) :
      Trials t (n :: rest) (moves ++ moves') ((if dropped then 1 else 0) + k) u

/-- An outside that does nothing but answer before a removal, whatever it answers each time. -/
def AnswersRemovals (world : Dialogue.Outside outside Tree ω) : Prop :=
  ∀ name t w, (world (.handlersForRemoval name) t w).2.1 = t

section

variable {world : Dialogue.Outside outside Tree ω}

/-- How the program goes on when it knows whether the handlers of a node would come back the same.
    -/
def dropIf (n : NodeId) (reproducible : Bool) (t : Tree) : Dialogue outside Tree Bool :=
  if reproducible then
    .announce (prunedNode (t.name (((t.node? n).bind (·.parent?)).getD root))
      (((t.node? n).map (·.segment)).getD "")) (.done (t.detach n) true)
  else .done t false

/-- The configuration is asked about the node or not, and then the node is dropped or not. -/
theorem pruneNode_eq (n : NodeId) (t : Tree) : pruneNode n t =
    if t.isIdle n then (handlersReproducible n t).bind fun u reproducible => dropIf n reproducible u
    else .done t false := by
  unfold pruneNode
  simp only [Program.bind_apply, Program.get_apply, Dialogue.bind_done]
  cases t.isIdle n with
  | false => rfl
  | true =>
    refine congrArg (Dialogue.bind _) ?_
    funext u reproducible
    cases reproducible <;> rfl

/-- The configuration is asked only where the list was set and is empty; an unset list comes
    back by itself, and a list with handlers does not. -/
theorem handlersReproducible_eq (n : NodeId) (t : Tree) : handlersReproducible n t =
    if (t.handlerList n).isInitialized then
      if (t.handlerList n).items.isEmpty then
        .ask t (.handlersForRemoval (t.name n)) fun u (items : List Handler) =>
          .done u items.isEmpty
      else .done t false
    else .done t true := by
  unfold handlersReproducible
  simp only [Program.bind_apply, Program.get_apply, Dialogue.bind_done]
  cases (t.handlerList n).isInitialized with
  | false => rfl
  | true => cases (t.handlerList n).items.isEmpty <;> rfl

/-- An idle node whose list was set and is empty is dropped if no handlers are configured for it. -/
theorem pruneNode_of_asked (hidle : t.isIdle n = true)
    (hset : (t.handlerList n).isInitialized = true)
    (hempty : (t.handlerList n).items.isEmpty = true) : pruneNode n t =
      .ask t (.handlersForRemoval (t.name n)) fun u (items : List Handler) =>
        dropIf n items.isEmpty u := by
  rw [pruneNode_eq, handlersReproducible_eq, if_pos hidle, if_pos hset, if_pos hempty]
  rfl

/-- A node is tried when its turn comes. -/
theorem trial_pruneNode (hworld : AnswersRemovals world) (n : NodeId) (t : Tree) (w : ω) :
    ∃ moves dropped w', (pruneNode n t).play world w =
      ⟨moves, some dropped, if dropped then t.detach n else t, w'⟩ ∧ Trial t n moves dropped := by
  cases hidle : t.isIdle n with
  | false =>
    rw [pruneNode_eq, hidle]
    exact ⟨[], false, w, rfl, .kept⟩
  | true =>
    by_cases hset : (t.handlerList n).isInitialized = true
    case neg =>
      rw [pruneNode_eq, hidle, handlersReproducible_eq, if_neg hset]
      exact ⟨_, true, w, rfl, .dropped⟩
    case pos =>
      by_cases hempty : (t.handlerList n).items.isEmpty = true
      case neg =>
        rw [pruneNode_eq, hidle, handlersReproducible_eq, if_pos hset, if_neg hempty]
        exact ⟨[], false, w, rfl, .kept⟩
      case pos =>
        have hsame := hworld (t.name n) t w
        rcases hanswer : world (.handlersForRemoval (t.name n)) t w with
          ⟨(items : List Handler), u, w'⟩
        rw [hanswer] at hsame
        obtain rfl : u = t := hsame
        have hplay := Dialogue.play_of_ask (pruneNode_of_asked hidle hset hempty) hanswer
        cases items with
        | nil => exact ⟨_, true, w', hplay, .granted hidle rfl⟩
        | cons handler rest => exact ⟨_, false, w', hplay, .refused hidle (List.cons_ne_nil _ _)⟩

/-- The nodes are tried in order. -/
theorem trials_pruneNodes (hworld : AnswersRemovals world) (order : List NodeId) (t : Tree)
    (w : ω) :
    ∃ moves k u w', (pruneNodes order t).play world w = ⟨moves, some k, u, w'⟩ ∧
      Trials t order moves k u := by
  induction order generalizing t w with
  | nil => exact ⟨[], 0, t, w, rfl, @Trials.nil t []⟩
  | cons n rest ih =>
    obtain ⟨moves, dropped, w', hplay, htrial⟩ := trial_pruneNode hworld n t w
    obtain ⟨moves', k, u, w'', hplay', hrest⟩ := ih (if dropped then t.detach n else t) w'
    refine ⟨moves ++ moves', _, u, w'', ?_, .cons htrial hrest⟩
    have hbind : pruneNodes (n :: rest) t = (pruneNode n t).bind fun t dropped =>
        (pruneNodes rest t).bind fun t more => .done t ((if dropped then 1 else 0) + more) := rfl
    rw [hbind, Dialogue.play_bind, hplay, Dialogue.Play.bind_of_result rfl, Dialogue.play_bind,
      hplay', Dialogue.Play.bind_of_result rfl]
    simp

end

/-! ### What the answers tell -/

/-- To detach a node is to take it away. -/
theorem detach_eq_without (t : Tree) (n : NodeId) : t.detach n = t.without [n] := by
  rw [← detach_without, without_nil]

/-- The turn of a node changes no name. -/
theorem name_tried (t : Tree) (n m : NodeId) (dropped : Bool) :
    (if dropped then t.detach n else t).name m = t.name m := by
  cases dropped with
  | false => rfl
  | true =>
    rw [if_pos rfl, detach_eq_without, name, node?_without, name]
    cases t.node? m with
    | none => rfl
    | some node => by_cases hm : m ∈ [n] <;> simp [hm]

/-- What is attached after the turn of a node was so before. -/
theorem isAttached_of_tried (hm : (if dropped then t.detach n else t).IsAttached m) :
    t.IsAttached m := by
  cases dropped with
  | false => exact hm
  | true =>
    rw [if_pos rfl, detach_eq_without, isAttached_without] at hm
    exact hm.1

/-- A node that may be dropped is in the tree. -/
theorem isAttached_of_isIdle (h : t.isIdle n = true) : t.IsAttached n := by
  obtain ⟨node, hnode, -, hattached, -⟩ := isIdle_iff.1 h
  exact ⟨_, place?_of_node? hnode, hattached⟩

namespace Trial

variable (h : Trial t n moves dropped)

include h

/-- The configuration leaves the tree as it is. -/
theorem still : Dialogue.Still moves := by
  rintro s q a v hmove
  cases h with
  | kept => cases hmove
  | dropped => simp at hmove
  | refused =>
    cases List.mem_singleton.1 hmove
    rfl
  | granted =>
    obtain hmove | hmove := List.mem_cons.1 hmove
    · cases hmove
      rfl
    · simp at hmove

/-- Only about the node itself is anything asked. -/
theorem questions : moves.filterMap Dialogue.Move.question? = [] ∨
    t.isIdle n = true ∧
      moves.filterMap Dialogue.Move.question? = [.handlersForRemoval (t.name n)] := by
  cases h with
  | kept | dropped => exact .inl rfl
  | refused hidle | granted hidle => exact .inr ⟨hidle, rfl⟩

/-- An empty answer lets the node go. -/
theorem dropped_of_mem {s v : Tree} {name : String} {items : List Handler}
    (hmove : .asked s (.handlersForRemoval name) items v ∈ moves) (hitems : items = []) :
    dropped = true := by
  cases h with
  | kept => cases hmove
  | dropped | granted => rfl
  | refused hidle hne =>
    cases List.mem_singleton.1 hmove
    exact absurd hitems hne

end Trial

namespace Trials

/-- Events may follow. -/
theorem announced (h : Trials t order moves k u) (e : Event) :
    Trials t order (moves ++ [.announced e]) k u := by
  induction h with
  | @nil t events =>
    have hmore : events.map Dialogue.Move.announced ++ [.announced e] =
        ((events ++ [e]).map .announced : List Move) := by simp
    rw [hmore]
    exact .nil
  | cons htrial _ ih =>
    rw [List.append_assoc]
    exact .cons htrial ih

/-- The configuration leaves every tree as it is. -/
theorem still (h : Trials t order moves k u) : Dialogue.Still moves := by
  induction h with
  | nil => simp [Dialogue.Still]
  | cons htrial _ ih =>
    intro s q a v hmove
    exact (List.mem_append.1 hmove).elim (htrial.still s q a v) (ih s q a v)

/-- Only about attached nodes is anything asked. -/
theorem exists_of_mem_questions (h : Trials t order moves k u) {q : Question}
    (hq : q ∈ moves.filterMap Dialogue.Move.question?) :
    ∃ n ∈ order, t.IsAttached n ∧ q = .handlersForRemoval (t.name n) := by
  induction h with
  | nil => simp [Dialogue.Move.question?] at hq
  | @cons t u n rest moves moves' dropped k htrial _ ih =>
    rw [List.filterMap_append, List.mem_append] at hq
    obtain hq | hq := hq
    · obtain hnone | ⟨hidle, hone⟩ := htrial.questions
      · simp [hnone] at hq
      · rw [hone, List.mem_singleton] at hq
        exact ⟨n, List.mem_cons_self, isAttached_of_isIdle hidle, hq⟩
    · obtain ⟨m, hm, hattached, rfl⟩ := ih hq
      exact ⟨m, List.mem_cons_of_mem _ hm, isAttached_of_tried hattached,
        congrArg _ (name_tried t n m dropped)⟩

/-- About no node is anything asked twice. -/
theorem nodup_questions (h : Trials t order moves k u) (horder : order.Nodup)
    (hnames : ∀ a b, t.IsAttached a → t.IsAttached b → t.name a = t.name b → a = b) :
    (moves.filterMap Dialogue.Move.question?).Nodup := by
  induction h with
  | @nil t events =>
    have hnone : (events.map .announced : List Move).filterMap Dialogue.Move.question? = [] := by
      simp [List.filterMap_eq_nil_iff, Dialogue.Move.question?]
    rw [hnone]
    exact List.nodup_nil
  | @cons t u n rest moves moves' dropped k htrial hrest ih =>
    obtain ⟨hnew, horder⟩ := List.nodup_cons.1 horder
    have hnodup := ih horder fun a b ha hb hname =>
      hnames a b (isAttached_of_tried ha) (isAttached_of_tried hb)
        (by simpa [name_tried] using hname)
    rw [List.filterMap_append]
    obtain hnone | ⟨hidle, hone⟩ := htrial.questions
    · rwa [hnone, List.nil_append]
    · rw [hone, List.singleton_append, List.nodup_cons]
      refine ⟨fun hagain => ?_, hnodup⟩
      -- a later question is about a later node, and thus under another name
      obtain ⟨m, hm, hattached, hsame⟩ := hrest.exists_of_mem_questions hagain
      rw [name_tried] at hsame
      obtain rfl := hnames n m (isAttached_of_isIdle hidle) (isAttached_of_tried hattached)
        (Question.handlersForRemoval.inj hsame)
      exact hnew hm

/-- An empty answer lets a node go. -/
theorem pos_of_mem (h : Trials t order moves k u) {s v : Tree} {name : String}
    {items : List Handler} (hmove : .asked s (.handlersForRemoval name) items v ∈ moves)
    (hitems : items = []) : 0 < k := by
  induction h with
  | nil => simp at hmove
  | cons htrial _ ih =>
    obtain hmove | hmove := List.mem_append.1 hmove
    · rw [if_pos (htrial.dropped_of_mem hmove hitems)]
      omega
    · have hpos := ih hmove
      omega

/-- Where none is counted, none is dropped. -/
theorem eq_of_zero (h : Trials t order moves k u) (hk : k = 0) : u = t := by
  induction h with
  | nil => rfl
  | @cons t u n rest moves moves' dropped k htrial _ ih =>
    cases dropped with
    | false => exact ih (by simpa using hk)
    | true =>
      rw [if_pos rfl] at hk
      omega

end Trials

/-! ### Prunings -/

/-- The ways to prune a tree: that of the program, and those that visit the children of every node
    in some other order. -/
inductive IsPruning (t : Tree) : Run Nat → Prop where
  | prune : IsPruning t Tree.prune
  | visiting {order : List NodeId} (hvisits : t.Visits root order) : IsPruning t (pruneNodes order)

/-- What a pruning of a tree comes to. -/
structure Prunes (t : Tree) (play : Dialogue.Play outside Tree ω Nat) : Prop where
  /-- Nothing but the handlers of nodes of the tree is asked for, under no name twice. -/
  asked : play.questions.Nodup ∧
    ∀ q ∈ play.questions, ∃ n, t.contains n = true ∧ q = .handlersForRemoval (t.name n)
  /-- So there are handlers to every name of which those are a part that were answered. -/
  told : ∃ answer, Dialogue.Told answer play.moves
  /-- The nodes that are gone are those that are removable by what was answered. -/
  removed (answer : (q : Question) → q.Answer) : Dialogue.Told answer play.moves →
    ∀ n, t.contains n = true ∧ play.state.contains n = false ↔ t.Removable answer n
  counted : play.result = some (t.members.filter fun n => !play.state.contains n).length
  /-- All other nodes are left as they are, with all that they hold. -/
  kept (n : NodeId) : play.state.contains n = true →
    t.contains n = true ∧ play.state.node? n = t.node? n
  /-- So are the references and the counters. -/
  unchanged : { play.state with nodes := t.nodes } = t

/-- Whether, for some name, an empty list was answered after one that was not empty. -/
def Withdraws (before after : List Move) : Prop :=
  ∃ (name : String) (items : List Handler) (found left found' left' : Tree), items ≠ [] ∧
    .asked found (.handlersForRemoval name) items left ∈ before ∧
    .asked found' (.handlersForRemoval name) ([] : List Handler) left' ∈ after

/-- Answers that were given, the second one empty and the first one not, make a withdrawal. -/
theorem Withdraws.of_told {before after : List Move} {answer' : (q : Question) → q.Answer}
    {name : String} (htold : Dialogue.Told answer before) (htold' : Dialogue.Told answer' after)
    (hitems : listed answer name ≠ []) (hempty : listed answer' name = [])
    (hbefore : .handlersForRemoval name ∈ before.filterMap Dialogue.Move.question?)
    (hafter : .handlersForRemoval name ∈ after.filterMap Dialogue.Move.question?) :
    Withdraws before after := by
  obtain ⟨found, items, left, hmove⟩ := Dialogue.mem_questions_iff.1 hbefore
  obtain ⟨found', items', left', hmove'⟩ := Dialogue.mem_questions_iff.1 hafter
  obtain rfl := htold _ _ _ _ hmove
  obtain rfl : items' = ([] : List Handler) := (htold' _ _ _ _ hmove').trans hempty
  exact ⟨name, _, found, left, found', left', hitems, hmove, hmove'⟩

/-- What is dropped by some answers, and not by others, has a list that only the first let go. -/
theorem listed_of_isDroppable {answer' : (q : Question) → q.Answer}
    (hkept : t.isDroppable answer n = false) (hdropped : t.isDroppable answer' n = true) :
    listed answer (t.name n) ≠ [] ∧ listed answer' (t.name n) = [] := by
  rw [isDroppable, Bool.and_eq_true] at hdropped
  obtain ⟨hidle, hdropped⟩ := hdropped
  rw [isDroppable, hidle, Bool.true_and, isReproducible, Bool.or_eq_false_iff] at hkept
  obtain ⟨hset, hkept⟩ := hkept
  rw [isReproducible, hset, Bool.false_or, Bool.and_eq_true, List.isEmpty_iff,
    List.isEmpty_iff] at hdropped
  rw [hdropped.1, List.isEmpty_nil, Bool.true_and] at hkept
  exact ⟨fun hempty => by simp [hempty] at hkept, hdropped.2⟩

namespace IsPruning

variable {run run' : Run Nat} {world : Dialogue.Outside outside Tree ω}
  {world' : Dialogue.Outside outside Tree ω'}

/-- Where every question has one answer, the removable nodes are dropped. -/
theorem answeredBy (hrun : t.IsPruning run) (h : t.Shaped) (answer : (q : Question) → q.Answer) :
    ∃ gone, (run t).answeredBy answer = (t.without gone, some gone.length) ∧
      gone.Nodup ∧ ∀ n, n ∈ gone ↔ t.Removable answer n := by
  cases hrun with
  | prune =>
    obtain ⟨gone, hgone, hrest⟩ := answeredBy_pruneNodes answer h h.childrenFirst_reverse
    exact ⟨gone, answeredBy_prune hgone, hrest⟩
  | visiting hvisits => exact answeredBy_pruneNodes answer h (hvisits.childrenFirst h)

/-- Where no node is droppable, a pruning removes nothing. -/
theorem answeredBy_of_kept (hrun : t.IsPruning run) (hkept : ∀ n, t.isDroppable answer n = false) :
    (run t).answeredBy answer = (t, some 0) := by
  cases hrun with
  | prune => exact answeredBy_prune (answeredBy_pruneNodes_of_kept fun n _ => hkept n)
  | visiting => exact answeredBy_pruneNodes_of_kept fun n _ => hkept n

/-- All nodes are tried, and none twice. -/
theorem trials (hrun : t.IsPruning run) (h : t.Shaped) (hworld : AnswersRemovals world) (w : ω) :
    ∃ order moves k u w', order.Nodup ∧ (run t).play world w = ⟨moves, some k, u, w'⟩ ∧
      Trials t order moves k u := by
  have hnodup : ∀ {order}, t.ChildrenFirst order → order.Nodup :=
    fun horder => horder.pairwise.imp fun hab => hab.1
  cases hrun with
  | prune =>
    obtain ⟨moves, k, u, w', hplay, htrials⟩ := trials_pruneNodes hworld _ t w
    refine ⟨_, _, k, u, w', hnodup h.childrenFirst_reverse, ?_, htrials.announced (prunedTree k)⟩
    have hbind : Tree.prune t = (pruneNodes (List.range t.nodes.size).reverse t).bind
        fun u removed => .announce (prunedTree removed) (.done u removed) := rfl
    rw [hbind, Dialogue.play_bind, hplay, Dialogue.Play.bind_of_result rfl]
    rfl
  | visiting hvisits =>
    obtain ⟨moves, k, u, w', hplay, htrials⟩ := trials_pruneNodes hworld _ t w
    exact ⟨_, moves, k, u, w', hnodup (hvisits.childrenFirst h), hplay, htrials⟩

/-- Nothing but the handlers of nodes is asked for, under no name twice. -/
theorem asked (hrun : t.IsPruning run) (h : t.Shaped) (hworld : AnswersRemovals world) (w : ω) :
    ((run t).play world w).questions.Nodup ∧ ∀ q ∈ ((run t).play world w).questions,
      ∃ n, t.contains n = true ∧ q = .handlersForRemoval (t.name n) := by
  obtain ⟨order, moves, k, u, w', horder, hplay, htrials⟩ := hrun.trials h hworld w
  rw [hplay]
  refine ⟨htrials.nodup_questions horder fun a b ha hb hname => ?_, fun q hq => ?_⟩
  · exact h.eq_of_path_eq ha hb (h.path_eq_of_name_eq ha.exists hb.exists hname)
  · obtain ⟨n, -, hattached, hname⟩ := htrials.exists_of_mem_questions hq
    exact ⟨n, h.contains_iff.2 hattached, hname⟩

/-- What a pruning comes to is told by its answers. -/
theorem play_eq (hrun : t.IsPruning run) (h : t.Shaped) (hworld : AnswersRemovals world) (w : ω)
    (htold : Dialogue.Told answer ((run t).play world w).moves) :
    (run t).answeredBy answer =
      (((run t).play world w).state, ((run t).play world w).result) := by
  obtain ⟨order, moves, k, u, w', -, hplay, htrials⟩ := hrun.trials h hworld w
  refine Dialogue.answeredBy_of_told (run t) w ?_ htold
  rw [hplay]
  exact htrials.still

/-- The nodes that are gone are the removable ones, and their number is the result. -/
theorem exists_gone (hrun : t.IsPruning run) (h : t.Shaped) (hworld : AnswersRemovals world) (w : ω)
    (htold : Dialogue.Told answer ((run t).play world w).moves) :
    ∃ gone, ((run t).play world w).state = t.without gone ∧
      ((run t).play world w).result = some gone.length ∧ gone.Nodup ∧
      ∀ n, n ∈ gone ↔ t.Removable answer n := by
  obtain ⟨gone, hgone, hnodup, hmem⟩ := hrun.answeredBy h answer
  obtain ⟨hstate, hresult⟩ := Prod.mk.inj ((hrun.play_eq h hworld w htold).symm.trans hgone)
  exact ⟨gone, hstate, hresult, hnodup, hmem⟩

/-- The answers of a pruning make one configuration, which has no handlers where it was not asked;
    what is gone is what is removable by it. -/
theorem exists_answer (hrun : t.IsPruning run) (h : t.Shaped) (hworld : AnswersRemovals world)
    (w : ω) : ∃ answer gone, Dialogue.Told answer ((run t).play world w).moves ∧
      (∀ q, q ∉ ((run t).play world w).questions → answer q = Configuration.answer {} q) ∧
      ((run t).play world w).state = t.without gone ∧
      ((run t).play world w).result = some gone.length ∧ gone.Nodup ∧
      ∀ n, n ∈ gone ↔ t.Removable answer n := by
  obtain ⟨answer, htold, hbase⟩ :=
    Dialogue.exists_told (Configuration.answer {}) (hrun.asked h hworld w).1
  obtain ⟨gone, hgone⟩ := hrun.exists_gone h hworld w htold
  exact ⟨answer, gone, htold, hbase, hgone⟩

/-- Every pruning removes what is removable by the answers that it gets. -/
theorem prunes (hrun : t.IsPruning run) (h : t.WellFormed may) (hworld : AnswersRemovals world)
    (w : ω) : t.Prunes ((run t).play world w) := by
  obtain ⟨answer, gone, htold, -, hstate, hresult, hnodup, hgone⟩ :=
    hrun.exists_answer h.shaped hworld w
  have hremoved : ∀ n, n ∈ gone ↔ t.contains n = true ∧ (t.without gone).contains n = false :=
    fun n => mem_removed_iff h hgone
  constructor
  case asked => exact hrun.asked h.shaped hworld w
  case told => exact ⟨answer, htold⟩
  case removed =>
    intro other hother n
    obtain ⟨gone', hstate', -, -, hgone'⟩ := hrun.exists_gone h.shaped hworld w hother
    rw [hstate', ← hgone', mem_removed_iff h hgone']
  case counted =>
    have hmembers : t.members.Nodup := List.nodup_range.filter _
    have hperm : gone.Perm (t.members.filter fun n => !(t.without gone).contains n) := by
      rw [List.perm_ext_iff_of_nodup hnodup (hmembers.filter _)]
      intro n
      rw [hremoved, List.mem_filter, mem_members, Bool.not_eq_true']
    rw [hstate, hresult, hperm.length_eq]
  case kept =>
    intro n hn
    rw [hstate, contains_without h (h.shaped.droppable hgone)] at hn
    rw [hstate]
    exact ⟨hn.1, node?_without_of_notMem hn.2⟩
  case unchanged =>
    rw [hstate]
    rfl

/-- It leaves a well-formed tree. -/
theorem wellFormed (hrun : t.IsPruning run) (h : t.WellFormed may) (hworld : AnswersRemovals world)
    (w : ω) : ((run t).play world w).state.WellFormed may := by
  obtain ⟨answer, gone, -, -, hstate, -, -, hgone⟩ := hrun.exists_answer h.shaped hworld w
  rw [hstate]
  exact (h.later_without (h.shaped.droppable hgone)).wellFormed

/-- A pruning right after another one removes nothing iff no list is withdrawn that was answered
    before. -/
theorem again (hrun : t.IsPruning run) (h : t.WellFormed may) (hworld : AnswersRemovals world)
    (w : ω) (hrun' : ((run t).play world w).state.IsPruning run')
    (hworld' : AnswersRemovals world') (w' : ω') :
    let first := (run t).play world w
    let second := (run' first.state).play world' w'
    (second.result = some 0 ↔ ¬ Withdraws first.moves second.moves) ∧
      (second.result = some 0 → second.state = first.state) := by
  -- the answers of the first one; what was not asked is answered with no handlers
  obtain ⟨answer, gone, htold, hbase, hstate, -, -, hgone⟩ := hrun.exists_answer h.shaped hworld w
  have hwf := hrun.wellFormed h hworld w
  obtain ⟨order, moves, k, u, w'', -, hplay, htrials⟩ := hrun'.trials hwf.shaped hworld' w'
  -- the answers of the second one; what was not asked is answered as in the first one
  have hasked' := hrun'.asked hwf.shaped hworld' w'
  obtain ⟨answer', htold', hbase'⟩ := Dialogue.exists_told answer hasked'.1
  dsimp only
  refine ⟨⟨?_, ?_⟩, ?_⟩
  · rintro hzero ⟨name, items, found, left, found', left', -, -, hmove⟩
    rw [hplay] at hzero hmove
    have hpos := htrials.pos_of_mem hmove rfl
    rw [Option.some.inj hzero] at hpos
    exact absurd hpos (Nat.lt_irrefl 0)
  · intro hkept
    have hnone : ∀ n, ((run t).play world w).state.isDroppable answer' n = false := by
      intro n
      by_contra hdrop
      have hbefore : ((run t).play world w).state.isDroppable answer n = false := by
        rw [hstate]
        exact isDroppable_of_removed h.shaped hgone n
      obtain ⟨hitems, hempty⟩ := listed_of_isDroppable hbefore (by simpa using hdrop)
      -- answers that differ were given, and so was one that is not the empty list
      refine hkept (Withdraws.of_told htold htold' hitems hempty ?_ ?_)
      · by_contra hnew
        exact hitems (hbase _ hnew)
      · by_contra hnew
        exact hitems ((hbase' _ hnew).symm.trans hempty)
    have hend := hrun'.play_eq hwf.shaped hworld' w' htold'
    rw [hrun'.answeredBy_of_kept hnone] at hend
    exact (congrArg Prod.snd hend).symm
  · intro hzero
    rw [hplay] at hzero ⊢
    exact htrials.eq_of_zero (Option.some.inj hzero)

end IsPruning

/-! ### In every run -/

/-- Whenever a pruning is called in a run, and whatever the configuration answers each time it is
    asked, as long as it does nothing but answer: in whatever order the children of a node are
    visited, the nodes that are removed are those below the root whose whole subtree is dormant by
    what was answered, and they are counted; all other nodes, references and counters are left as
    they are.  A pruning right after it, with answers of its own, finds nothing to remove and
    changes nothing, unless an empty list is answered for a name for which another one was answered
    before; then it removes something. -/
theorem Situation.Reachable.prune_removes {s : Situation} (h : Reachable may s)
    {world : Dialogue.Outside outside Tree ω} (hworld : AnswersRemovals world) (memory : ω) :
    (∃ order, s.tree.Visits root order) ∧
    ∀ run, s.tree.IsPruning run →
      let first := (run s.tree).play world memory
      s.tree.Prunes first ∧
      ∀ (ω' : Type) (world' : Dialogue.Outside outside Tree ω'), AnswersRemovals world' →
        ∀ memory' run', first.state.IsPruning run' →
          let second := (run' first.state).play world' memory'
          first.state.Prunes second ∧
          (second.result = some 0 ↔ ¬ Withdraws first.moves second.moves) ∧
          (second.result = some 0 → second.state = first.state) := by
  have hwf := h.wellFormed
  refine ⟨hwf.shaped.exists_visits root, fun run hrun => ?_⟩
  refine ⟨hrun.prunes hwf hworld memory, fun ω' world' hworld' memory' run' hrun' => ?_⟩
  exact ⟨hrun'.prunes (hrun.wellFormed hwf hworld memory) hworld' memory',
    hrun.again hwf hworld memory hrun' hworld' memory'⟩

/-- A node with a reference to it, above one whose list was emptied, and beside one that was never
    used. -/
def Situation.listless : Situation :=
  let made := (((initial {}).after {} (.getOrCreate root "p.k")).after {}
    (.getOrCreate root "p")).after {} (.getOrCreate root "q")
  let cleared := made.after {} (.clearHandlers 2)
  { cleared with tree := (cleared.tree.release 2).release 3 }

/-- The situation is reached by a run without any configured handler. -/
theorem Situation.reachable_listless : Reachable (Configuration.Allows {}) listless := by
  have hbelow := (reachable_initial {}).after (.getOrCreate root "p.k") (.inr ⟨rfl, rfl⟩) rfl
  have habove := hbelow.after (.getOrCreate root "p") (.inr ⟨rfl, by decide +kernel⟩)
    (by decide +kernel)
  have hbeside := habove.after (.getOrCreate root "q") (.inr ⟨rfl, by decide +kernel⟩)
    (by decide +kernel)
  have hcleared := hbeside.after (.clearHandlers 2) (.inl (by decide +kernel)) (by decide +kernel)
  exact (hcleared.step (.drop 2)).step (.drop 3)

/-- A configuration that has handlers for everything when it is asked first, and none any more. -/
def fickle : Dialogue.Outside outside Tree Bool
  | .handlersForRemoval _, t, true => (([⟨0, "file"⟩] : List Handler), t, false)
  | q, t, asked => (Configuration.answer {} q, t, asked)

/-- A configuration that has handlers for everything. -/
def steady : Dialogue.Outside outside Tree Unit
  | .handlersForRemoval _, t, w => (([⟨0, "file"⟩] : List Handler), t, w)
  | q, t, w => (Configuration.answer {} q, t, w)

/-- A configuration that gives up a reference to the first node before it answers. -/
def yielding : Dialogue.Outside outside Tree Unit
  | .handlersForRemoval _, t, w => (([] : List Handler), t.release 1, w)
  | q, t, w => (Configuration.answer {} q, t, w)

/-- A second pruning may remove something, where what is configured has changed; and a node to which
    something referred when a pruning was called may be removed, where the reference is given up
    while the configuration is asked.  Neither configuration calls an operation. -/
theorem prune_again_removes :
    Situation.Reachable (Configuration.Allows {}) Situation.listless ∧
    (let first := (prune Situation.listless.tree).play fickle true
      let second := (prune first.state).play fickle first.memory
      (∀ q t w, (fickle q t w).2.1 = t) ∧ first.state.contains 2 = true ∧
        second.result = some 1 ∧ second.state.contains 2 = false) ∧
    let play := (prune Situation.listless.tree).play yielding ()
    (∀ q t w, Uses (Configuration.Allows {}) q.isForRemoval t (yielding q t w).2.1) ∧
      Situation.listless.tree.isReferenced 1 = true ∧ play.result = some 3 ∧
      play.state.contains 1 = false := by
  refine ⟨Situation.reachable_listless, ⟨?_, by decide +kernel⟩, ?_, by decide +kernel⟩
  · intro q t w
    unfold fickle
    split <;> rfl
  · intro q t w
    unfold yielding
    split
    · exact .drop 1 .nothing
    · exact .nothing

/-- An outside that counts still does nothing but answer. -/
theorem answersRemovals_fickle : AnswersRemovals fickle := by
  rintro name t (asked | asked) <;> rfl

/-- An outside that always says the same does nothing but answer. -/
theorem answersRemovals_steady : AnswersRemovals steady :=
  fun _ _ _ => rfl

/-- A pruning removes what it can by the answers that it gets; the next one removes what was refused
    before and is let go now, or, if the answers stay, nothing. -/
theorem prune_removes_by_answers :
    let first := (prune Situation.listless.tree).play fickle true
    let second := (prune first.state).play fickle first.memory
    let other := (prune first.state).play steady ()
    first.result = some 1 ∧ Situation.listless.tree.Prunes first ∧
      second.result = some 1 ∧ Withdraws first.moves second.moves ∧
      other.result = some 0 ∧ other.state = first.state := by
  obtain ⟨-, hall⟩ := Situation.Reachable.prune_removes Situation.reachable_listless
    answersRemovals_fickle true
  obtain ⟨hprunes, hnext⟩ := hall _ .prune
  obtain ⟨-, hwithdraws, -⟩ := hnext Bool fickle answersRemovals_fickle _ _ .prune
  obtain ⟨-, -, hsame⟩ := hnext Unit steady answersRemovals_steady () _ .prune
  have hmore : ((prune ((prune Situation.listless.tree).play fickle true).state).play fickle
      ((prune Situation.listless.tree).play fickle true).memory).result = some 1 := by
    decide +kernel
  have hnone : ((prune ((prune Situation.listless.tree).play fickle true).state).play steady
      ()).result = some 0 := by decide +kernel
  refine ⟨by decide +kernel, hprunes, hmore, ?_, hnone, hsame hnone⟩
  by_contra hkept
  rw [hwithdraws.2 hkept] at hmore
  exact absurd hmore (by simp)

end LoggerHierarchy.Tree
