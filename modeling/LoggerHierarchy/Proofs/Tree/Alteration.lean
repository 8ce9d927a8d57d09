import LoggerHierarchy.Proofs.Tree.Soundness

namespace LoggerHierarchy.Tree

/-!
# What each operation changes

Operations differ in what they may change of a tree between two questions:

* `Operation.Ages` — what an operation may make of a node: only `setLevel` changes a level, and only
  that of its node, only `prune` detaches, and only a node without a logger, only `createLogger`
  makes one, and only some operations use handler lists;
* `Alters` — it ages the nodes of a tree in this way, and all others are new ones of `getOrCreate`,
  each of them counted;
* `Confined` — it does no more than this, as long as nodes stay in their places while it waits, and
  as they are while it waits before a removal;
* `Operation.confined_call` — so does every operation.
-/

variable {may : Answers} {op : Operation} {α β : Type} {t u v : Tree} {n m : NodeId} {node : Node}
  {p : Place} {segment : String}

/-- Whether an operation uses handler lists. -/
def Operation.usesHandlers : Operation → Bool
  | handlers _ | addHandler .. | removeHandler .. | setHandlers .. | clearHandlers _
  | compareAndSetHandlers .. | publish .. | log .. => true
  | _ => false

/-! ### Nodes -/

/-- What an operation may make of a node. -/
structure Operation.Ages (op : Operation) (n : NodeId) (old new : Node) : Prop where
  place : new.place = { old.place with attached := new.attached }
  attached : new.attached = old.attached ∨
    op = .prune ∧ new.attached = false ∧ new.hasLogger = false
  level : (∀ level, op ≠ .setLevel n level) → new.level = old.level
  handlers : op.usesHandlers = false → new.handlers = old.handlers
  logger : new.hasLogger = old.hasLogger ∨ op = .createLogger n ∧ new.hasLogger = true

/-- A node that an operation has made. -/
structure Operation.Makes (may : Answers) (op : Operation) (node : Node) : Prop where
  creates : ∃ start name, op = .getOrCreate start name
  level : may (.level node.name) node.level
  handlers : node.handlers = .unset
  attached : node.attached = true
  logger : node.hasLogger = false

namespace Operation

/-- Every operation may leave a node as it is. -/
theorem Ages.refl (op : Operation) (n : NodeId) (node : Node) : op.Ages n node node :=
  ⟨rfl, .inl rfl, fun _ => rfl, fun _ => rfl, .inl rfl⟩

/-- No other operation than the one for its logger gives a node a logger. -/
theorem Ages.logger_of_ne {old new : Node} (h : op.Ages n old new) (hop : op ≠ .createLogger n) :
    new.hasLogger = old.hasLogger :=
  h.logger.resolve_right fun hcreate => hop hcreate.1

/-- What an operation does to a node in two steps it may do in one. -/
theorem Ages.trans {old mid new : Node} (h : op.Ages n old mid) (h' : op.Ages n mid new) :
    op.Ages n old new where
  place := by rw [h'.place, h.place]
  attached := by
    obtain hsame | hdetached := h'.attached
    · obtain hkept | ⟨rfl, hdetached, hnone⟩ := h.attached
      · exact .inl (hsame.trans hkept)
      · have hlogger := h'.logger_of_ne (by simp)
        exact .inr ⟨rfl, hsame.trans hdetached, hlogger.trans hnone⟩
    · exact .inr hdetached
  level hop := (h'.level hop).trans (h.level hop)
  handlers hop := (h'.handlers hop).trans (h.handlers hop)
  logger := by
    obtain hsame | hcreated := h'.logger
    · rw [hsame]
      exact h.logger
    · exact .inr hcreated

/-- A node keeps its name, whatever the operation. -/
theorem Ages.name_eq {old new : Node} (h : op.Ages n old new) : new.name = old.name :=
  congrArg Place.name h.place

/-- Nothing but a prune takes a node out of the tree. -/
theorem Ages.attached_of_ne {old new : Node} (h : op.Ages n old new) (hop : op ≠ .prune) :
    new.attached = old.attached :=
  h.attached.resolve_right fun hprune => hop hprune.1

/-- What has made a node leaves it as it is. -/
theorem Makes.aged {old new : Node} (h : op.Makes may old) (hages : op.Ages n old new) :
    op.Makes may new := by
  obtain ⟨start, name, rfl⟩ := h.creates
  have hlevel : new.level = old.level := hages.level (by simp)
  have hattached : new.attached = old.attached := hages.attached_of_ne (by simp)
  have hlogger : new.hasLogger = old.hasLogger := hages.logger_of_ne (by simp)
  refine ⟨⟨start, name, rfl⟩, ?_, (hages.handlers rfl).trans h.handlers,
    hattached.trans h.attached, hlogger.trans h.logger⟩
  rw [hages.name_eq, hlevel]
  exact h.level

end Operation

/-! ### Trees -/

/-- What an operation may make of a tree. -/
structure Alters (may : Answers) (op : Operation) (t u : Tree) : Prop where
  aged {n : NodeId} {old : Node} : t.node? n = some old →
    ∃ new, u.node? n = some new ∧ op.Ages n old new
  fresh {n : NodeId} {new : Node} : u.node? n = some new → t.node? n = none → op.Makes may new
  /-- As many nodes were added as were counted. -/
  balance : u.nodes.size + t.created = t.nodes.size + u.created
  isOpen : u.isOpen = t.isOpen ∨ op = .close ∧ u.isOpen = false

namespace Alters

/-- The node that it has become is the one that is found under its id. -/
theorem ages {old new : Node} (h : Alters may op t u) (hold : t.node? n = some old)
    (hnew : u.node? n = some new) : op.Ages n old new := by
  obtain ⟨new', hnew', hages⟩ := h.aged hold
  obtain rfl := Option.some.inj (hnew'.symm.trans hnew)
  exact hages

/-- Every node that was there is still there, in its place, and no detached one is put back. -/
theorem grows (h : Alters may op t u) : Grows t u := by
  intro n p hp
  obtain ⟨old, hold, rfl⟩ := place?_eq_some.1 hp
  obtain ⟨new, hnew, hages⟩ := h.aged hold
  refine ⟨new.attached, ?_, ?_⟩
  · rw [place?_of_node? hnew, hages.place]
  · intro hattached
    obtain hsame | ⟨-, hdetached, -⟩ := hages.attached
    · exact hsame.symm.trans hattached
    · exact absurd (hdetached.symm.trans hattached) (by simp)

/-- A change of settings and references alone. -/
theorem of_aged (hsize : u.nodes.size = t.nodes.size) (hcreated : u.created = t.created)
    (hopen : u.isOpen = t.isOpen ∨ op = .close ∧ u.isOpen = false)
    (haged : ∀ n old, t.node? n = some old → ∃ new, u.node? n = some new ∧ op.Ages n old new) :
    Alters may op t u where
  aged := haged _ _
  fresh := by
    intro n new hnew hnone
    have hlt := lt_size_of_place? (place?_of_node? hnew)
    rw [hsize] at hlt
    exact absurd hlt (Nat.not_lt_of_le (Array.getElem?_eq_none_iff.1 hnone))
  balance := by rw [hsize, hcreated]
  isOpen := hopen

/-- A change of references alone. -/
theorem of_nodes (hnodes : u.nodes = t.nodes) (hcreated : u.created = t.created)
    (hopen : u.isOpen = t.isOpen ∨ op = .close ∧ u.isOpen = false) : Alters may op t u := by
  refine of_aged (by rw [hnodes]) hcreated hopen ?_
  intro n old hold
  refine ⟨old, ?_, Operation.Ages.refl op n old⟩
  rw [node?, hnodes]
  exact hold

/-- An operation may change nothing. -/
theorem refl (t : Tree) : Alters may op t t :=
  of_nodes rfl rfl (.inl rfl)

/-- What an operation does to a tree in two steps it may do in one; a node made by the first
    is aged by the second. -/
theorem trans (h : Alters may op t u) (h' : Alters may op u v) : Alters may op t v where
  aged hold := by
    obtain ⟨mid, hmid, hages⟩ := h.aged hold
    obtain ⟨new, hnew, hages'⟩ := h'.aged hmid
    exact ⟨new, hnew, hages.trans hages'⟩
  fresh := by
    intro n new hnew hnone
    cases hmid : u.node? n with
    | none => exact h'.fresh hnew hmid
    | some mid => exact (h.fresh hmid hnone).aged (h'.ages hmid hnew)
  balance := by
    have := h.balance
    have := h'.balance
    omega
  isOpen := by
    obtain hsame | hclosed := h'.isOpen
    · rw [hsame]
      exact h.isOpen
    · exact .inr hclosed

/-- A context is never opened again. -/
theorem isOpen_before (h : Alters may op t u) (hu : u.isOpen = true) : t.isOpen = true := by
  obtain hsame | ⟨-, hclosed⟩ := h.isOpen
  · exact hsame.symm.trans hu
  · exact absurd (hclosed.symm.trans hu) (by simp)

/-! ### The changes that operations are made of -/

/-- A change of one node alone. -/
theorem update {f : Node → Node} (hf : ∀ old, t.node? n = some old → op.Ages n old (f old)) :
    Alters may op t (t.update n f) := by
  refine of_aged (by simp [Tree.update]) rfl (.inl rfl) ?_
  intro m old hold
  rw [node?_update, hold]
  split
  · rename_i hm
    subst hm
    exact ⟨f old, rfl, hf old hold⟩
  · exact ⟨old, rfl, Operation.Ages.refl op m old⟩

/-- A prune may detach a node that has no logger. -/
theorem detach (hnone : ∀ node, t.node? n = some node → node.hasLogger = false) :
    Alters may .prune t (t.detach n) :=
  update fun old hold =>
    ⟨rfl, .inr ⟨rfl, rfl, hnone old hold⟩, fun _ => rfl, fun _ => rfl, .inl rfl⟩

/-- A new handler list, for an operation that uses handler lists. -/
theorem withHandlerList (hop : op.usesHandlers = true) (t : Tree) (n : NodeId)
    (list : HandlerList Handler) : Alters may op t (t.withHandlerList n list) :=
  update fun _ _ =>
    ⟨rfl, .inl rfl, fun _ => rfl, fun hnot => absurd (hop.symm.trans hnot) (by simp), .inl rfl⟩

/-- Attachments change freely, as long as the number of slots stays what it was. -/
theorem withAttachments {attachments : Attachments PayloadKind.Value}
    (hcapacity : attachments.capacity = (t.attachments n).capacity) :
    Alters may op t (t.withAttachments n attachments) := by
  refine update fun old hold => ⟨?_, .inl rfl, fun _ => rfl, fun _ => rfl, .inl rfl⟩
  have hown : t.attachments n = old.attachments := by simp [Tree.attachments, hold]
  simp [Node.place, hcapacity, hown]

/-- Whether attaching fails or not, nothing but the attachments has changed. -/
theorem attachedBy {result : Except Error (α × Attachments PayloadKind.Value)}
    (hcapacity : ∀ previous attachments, result = .ok (previous, attachments) →
      attachments.capacity = (t.attachments n).capacity) :
    Alters may op t (t.attachedBy n result).2 := by
  cases result with
  | error e => exact refl t
  | ok pair => exact withAttachments (hcapacity pair.1 pair.2 rfl)

/-- An effective level that is handed down is no setting: no level changes. -/
theorem handDown (t : Tree) (n : NodeId) (value : Int32) :
    Alters may op t (t.handDown n value) := by
  refine of_aged (by simp [Tree.handDown]) rfl (.inl rfl) ?_
  intro m old hold
  rw [node?_handDown, hold]
  exact ⟨_, rfl, rfl, .inl rfl, fun _ => rfl, fun _ => rfl, .inl rfl⟩

/-- No level changes when a node is handed what its parent has now. -/
theorem resync (t : Tree) (n : NodeId) : Alters may op t (t.resync n) := by
  unfold Tree.resync
  split
  · split
    · exact handDown t n _
    · exact refl t
  · exact refl t

/-- A new level for the one node that it is set on, however far its effect reaches. -/
theorem withLevel (t : Tree) (n : NodeId) (level : Option Level) :
    Alters may (.setLevel n level) t (t.withLevel n level) := by
  have hstore : ∀ level', Alters may (.setLevel n level) t
      (t.update n fun node => { node with level := level' }) := by
    intro level'
    refine update fun _ _ => ⟨rfl, .inl rfl, ?_, fun _ => rfl, .inl rfl⟩
    intro hother
    exact absurd rfl (hother level)
  unfold Tree.withLevel
  split
  · exact refl t
  · dsimp only
    split
    · exact hstore _
    · exact (hstore _).trans ((handDown _ n _).trans (of_nodes rfl rfl (.inl rfl)))

/-- A new node is counted. -/
theorem insert (hcreates : ∃ start name, op = .getOrCreate start name) {level : Option Level}
    (hlevel : may (.level (t.childName n segment)) level) (minimum : Option Level) :
    Alters may op t (t.insert (t.childNode n segment minimum level)) where
  aged := by
    intro m old hold
    refine ⟨old, ?_, Operation.Ages.refl op m old⟩
    rw [node?_insert, if_neg (Nat.ne_of_lt (lt_size_of_place? (place?_of_node? hold))), hold]
  fresh := by
    intro m new hnew hnone
    rw [node?_insert, hnone] at hnew
    split at hnew
    · obtain rfl := Option.some.inj hnew
      exact ⟨hcreates, hlevel, rfl, rfl, rfl⟩
    · exact absurd hnew (by simp)
  balance := by
    simp only [Tree.insert, Array.size_push]
    omega
  isOpen := .inl rfl

end Alters

/-! ### The contract -/

/-- The contract of an operation that alters trees as it may, while all that it expects of the
    outside is that nodes stay in their places, and before a removal that nothing happens to
    them. -/
def altering (may : Answers) (op : Operation) : Dialogue.Contract outside Tree where
  guarantee := Alters may op
  rely q t u a := Grows t u ∧ may q a ∧ (q.isForRemoval = true → u.nodes = t.nodes)
  guarantee_trans := Alters.trans

/-- Whether a run alters trees as an operation may, and hands out, if it is not aborted, a result as
    `post` says. -/
def Confined (may : Answers) (op : Operation) (post : Tree → α → Prop) (run : Run α) (t : Tree) :
    Prop :=
  (run t).Keeps (altering may op) (fun u r => ∀ a, r = some a → post u a) t

namespace Confined

variable {post : Tree → α → Prop}

/-- A run that ends with what it was asked for has changed nothing. -/
theorem pure {a : α} (ha : post t a) : Confined may op post (pure a) t := by
  refine ⟨Alters.refl t, ?_⟩
  intro b hb
  rw [← Option.some.inj hb]
  exact ha

/-- An aborted run hands out nothing, so nothing is asked of what it hands out. -/
theorem abort : Confined may op post Program.abort t :=
  ⟨Alters.refl t, fun _ hb => absurd hb (by simp)⟩

/-- One run after another: the second may rely on what the first has handed out. -/
theorem bind {mid : Tree → α → Prop} {post : Tree → β → Prop} {run : Run α} {k : α → Run β}
    (h : Confined may op mid run t) (hk : ∀ u a, mid u a → Confined may op post (k a) u) :
    Confined may op post (run >>= k) t := by
  refine Dialogue.Keeps.bind h ?_ ?_
  · intro u a hmid
    exact hk u a (hmid a rfl)
  · intro u _ b hb
    exact absurd hb (by simp)

/-- A change before the run goes on. -/
theorem after {run rest : Run α} (hrun : run t = rest u) (halters : Alters may op t u)
    (h : Confined may op post rest u) : Confined may op post run t := by
  unfold Confined
  rw [hrun]
  exact Dialogue.Keeps.after halters h

/-- Reading the tree changes nothing. -/
theorem get_bind {k : Tree → Run α} (h : Confined may op post (k t) t) :
    Confined may op post (get >>= k) t :=
  h

/-- An event changes nothing. -/
theorem announce {e : Event} : Confined may op Any (Program.announce e) t :=
  ⟨Alters.refl t, fun _ _ => trivial⟩

/-- An event changes nothing for the rest of the run. -/
theorem announce_bind {e : Event} {k : Unit → Run α} (h : Confined may op post (k ()) t) :
    Confined may op post (Program.announce e >>= k) t :=
  h

/-- A new tree, if the operation may make it of the old one. -/
theorem set_bind {k : PUnit → Run α} (halters : Alters may op t u)
    (h : Confined may op post (k ⟨⟩) u) : Confined may op post (set u >>= k) t :=
  after (show (set u >>= k) t = k ⟨⟩ u from rfl) halters h

/-- A change that the operation may make. -/
theorem of_modify {f : Tree → Tree} (halters : Alters may op t (f t)) :
    Confined may op Any (modify f) t :=
  ⟨halters, fun _ _ => trivial⟩

/-- A change that the operation may make, before the run goes on. -/
theorem modify_bind {f : Tree → Tree} {k : PUnit → Run α} (halters : Alters may op t (f t))
    (h : Confined may op post (k ⟨⟩) (f t)) : Confined may op post (modify f >>= k) t :=
  after (show (modify f >>= k) t = k ⟨⟩ (f t) from rfl) halters h

/-- While a question waits, other calls may grow the tree, and the rest of the run must cope
    with that and with every answer that may come. -/
theorem ask_bind {q : Question} {k : q.Answer → Run α}
    (hk : ∀ u a, Grows t u → may q a → Confined may op post (k a) u) :
    Confined may op post (Program.ask (P := outside) q >>= k) t :=
  ⟨Alters.refl t, fun u a hu => hk u a hu.1 hu.2.1⟩

/-- A choice, when both sides keep to what the operation may do. -/
theorem ite {b : Prop} [Decidable b] {run run' : Run α} (hthen : b → Confined may op post run t)
    (helse : ¬ b → Confined may op post run' t) :
    Confined may op post (if b then run else run') t := by
  split
  · exact hthen ‹_›
  · exact helse ‹_›

/-- A reference that is held for the time of a run is no change of the tree. -/
theorem pinned {mid : Tree → α → Prop} {run : Run α} (hrun : Confined may op mid run (t.pin n))
    (hpost : ∀ u a, mid u a → post (u.unpin n) a) :
    Confined may op post (Tree.pinned n run) t := by
  have hpin : Alters may op t (t.pin n) := Alters.of_nodes rfl rfl (.inl rfl)
  refine Dialogue.Keeps.after hpin (Dialogue.Keeps.ensure hrun ?_)
  intro u r hmid
  exact ⟨Alters.of_nodes rfl rfl (.inl rfl), fun a ha => hpost u a (hmid a ha)⟩

/-- A run that holds its node, where nothing is said of the result. -/
theorem pinned_any {run : Run α} (hrun : Confined may op Any run (t.pin n)) :
    Confined may op Any (Tree.pinned n run) t :=
  pinned hrun fun _ _ _ => trivial

end Confined

/-! ### Making nodes -/

/-- Whether a node was ever made. -/
def Exists (t : Tree) (n : NodeId) : Prop :=
  ∃ p, t.place? n = some p

/-- A node that was made stays made. -/
theorem Grows.exists (h : Grows t u) (hn : t.Exists n) : u.Exists n := by
  obtain ⟨p, hp⟩ := hn
  obtain ⟨attached, hpu, -⟩ := h hp
  exact ⟨_, hpu⟩

/-- The name of a node is the one that its place keeps. -/
theorem name_of_place? (hp : t.place? n = some p) : t.name n = p.name := by
  obtain ⟨node, hnode, rfl⟩ := place?_eq_some.1 hp
  simp [name, hnode, Node.place]

/-- The name of a node does not change. -/
theorem Grows.name_eq (h : Grows t u) (hn : t.Exists n) : u.name n = t.name n := by
  obtain ⟨p, hp⟩ := hn
  obtain ⟨attached, hpu, -⟩ := h hp
  rw [name_of_place? hpu, name_of_place? hp]

/-- The name of a child follows from the place of its parent alone. -/
theorem childName_of_place? (hp : t.place? n = some p) (segment : String) :
    t.childName n segment = Name.child p.parent?.isNone p.name segment := by
  obtain ⟨node, hnode, rfl⟩ := place?_eq_some.1 hp
  simp [childName, isRoot, name, hnode, Node.place]

/-- The names of a node's children do not change. -/
theorem Grows.childName_eq (h : Grows t u) (hn : t.Exists n) (segment : String) :
    u.childName n segment = t.childName n segment := by
  obtain ⟨p, hp⟩ := hn
  obtain ⟨attached, hpu, -⟩ := h hp
  rw [childName_of_place? hpu, childName_of_place? hp]

/-- A look-up makes one child, with a level that the configuration may have given it. -/
theorem confined_createChild (hcreates : ∃ start name, op = .getOrCreate start name)
    (hn : t.Exists n) : Confined may op Exists (createChild n segment) t := by
  refine Confined.get_bind (Confined.ask_bind ?_)
  intro u (minimum : Option Level) hu _
  refine Confined.ask_bind ?_
  intro v (level : Option Level) hv hlevel
  refine Confined.get_bind ?_
  split
  · rename_i winner hwinner
    obtain ⟨p, hp, -⟩ := link_of_child? hwinner
    exact Confined.announce_bind (Confined.pure ⟨p, hp⟩)
  · -- the level that was asked for is that of the name which the node gets
    have hname := (hu.trans hv).childName_eq hn segment
    rw [← hname] at hlevel
    refine Confined.set_bind (Alters.insert hcreates hlevel minimum)
      (Confined.announce_bind (Confined.modify_bind (Alters.resync _ _) (Confined.pure ?_)))
    have hnew := place?_insert v (v.childNode n segment minimum level) v.nodes.size
    rw [if_pos rfl] at hnew
    have hresync : Alters may op (v.insert (v.childNode n segment minimum level)) _ :=
      Alters.resync _ v.nodes.size
    exact hresync.grows.exists ⟨_, hnew⟩

/-- Nothing but missing children is added on the way along a path. -/
theorem confined_followOrCreate (hcreates : ∃ start name, op = .getOrCreate start name)
    {path : List String} (hn : t.Exists n) : Confined may op Any (followOrCreate n path) t := by
  induction path generalizing n t with
  | nil => exact Confined.pure trivial
  | cons segment rest ih =>
    refine Confined.pinned_any (Confined.get_bind ?_)
    simp only [pure_bind]
    split
    · rename_i c hc
      obtain ⟨p, hp, -⟩ := link_of_child? hc
      exact ih ⟨p, hp⟩
    · have hcreate : Confined may op Exists (createChild n segment) (t.pin n) :=
        confined_createChild hcreates hn
      exact Confined.bind hcreate fun u c hc => ih hc

/-! ### Using handlers and filters -/

/-- Whatever a use of a handler list does, it changes nothing else. -/
theorem confined_onHandlers (hop : op.usesHandlers = true)
    (use : Program (HandlerList.source Handler) (HandlerList Handler) α) :
    Confined may op Any (onHandlers n use) t := by
  have hwithin : ∀ (name : String) (d : Dialogue (HandlerList.source Handler)
      (HandlerList Handler) α) (t : Tree), (d.within (handlerListOf n name) t).Keeps
        (altering may op) (fun u r => ∀ a, r = some a → Any u a) t := by
    intro name d
    induction d with
    | done list a => exact fun t => ⟨Alters.withHandlerList hop t n list, fun _ _ => trivial⟩
    | aborted list => exact fun t => ⟨Alters.withHandlerList hop t n list, fun _ _ => trivial⟩
    | announce e d ih => exact ih
    | ask list q resume ih =>
      exact fun t => ⟨Alters.withHandlerList hop t n list, fun u a _ => ih _ _ u⟩
  exact Confined.pinned_any (hwithin _ _ _)

/-- Reading the handlers of a node may fill its list, and does nothing else. -/
theorem confined_handlers (hop : op.usesHandlers = true) : Confined may op Any (handlers n) t :=
  Confined.bind (confined_onHandlers hop _) fun _ _ _ => Confined.pure trivial

variable (record : Record)

/-- Asking a filter changes nothing, even if the filter uses the tree while it is asked. -/
theorem confined_ownFilterAccepts (n : NodeId) (t : Tree) :
    Confined may op Any (ownFilterAccepts n record) t := by
  refine Confined.get_bind ?_
  split
  · exact Confined.pure trivial
  · refine Confined.ask_bind ?_
    intro u (verdict : Verdict) _ _
    cases verdict with
    | accept => exact Confined.pure trivial
    | reject => exact Confined.pure trivial
    | panic => exact Confined.abort

/-- The walk goes on at the parent, if there is one. -/
theorem confined_climb {run : NodeId → Run α} (a : α)
    (hrun : ∀ m, t.parent? n = some m → Confined may op Any (run m) t) :
    Confined may op Any (fun t => match _h : t.parent? n with
      | some m => run m t
      | none => .done t a) t := by
  dsimp only [Confined]
  split
  · exact hrun _ ‹_›
  · exact Confined.pure trivial

/-- Asking the filters from a node to the root changes nothing. -/
theorem confined_acceptsFrom (n : NodeId) (t : Tree) :
    Confined may op Any (acceptsFrom n record) t := by
  induction n using Nat.strongRecOn generalizing t with
  | ind n ih =>
    rw [acceptsFrom]
    refine Confined.pinned_any (Confined.bind (confined_ownFilterAccepts record n _) ?_)
    intro u accepted _
    refine Confined.ite (fun _ => Confined.get_bind (Confined.ite (fun _ => ?_) fun _ => ?_))
      fun _ => Confined.pure trivial
    · exact confined_climb true fun m hparent => ih m (lt_of_parent? hparent) u
    · exact Confined.pure trivial

/-- The decision on a record changes nothing. -/
theorem confined_accepts (n : NodeId) (t : Tree) : Confined may op Any (accepts n record) t := by
  refine Confined.pinned_any (Confined.get_bind
    (Confined.bind (confined_ownFilterAccepts record n _) ?_))
  intro u accepted _
  refine Confined.ite (fun _ => Confined.ite (fun _ => Confined.get_bind ?_) fun _ => ?_)
    fun _ => Confined.pure trivial
  · split
    · exact confined_acceptsFrom record _ u
    · exact Confined.pure trivial
  · exact Confined.pure trivial

/-- A handler changes nothing of itself, and a failure is only reported. -/
theorem confined_deliver (n : NodeId) (handler : Handler) (t : Tree) :
    Confined may op Any (deliver n record handler) t := by
  refine Confined.ask_bind ?_
  intro u (delivery : Delivery) _ _
  cases delivery with
  | taken => exact Confined.pure trivial
  | panic => exact Confined.get_bind Confined.announce
  | failed failure =>
    refine Confined.ask_bind ?_
    intro v (acknowledgement : Acknowledgement) _ _
    cases acknowledgement with
    | returned => exact Confined.pure trivial
    | panic => exact Confined.get_bind Confined.announce

/-- All handlers of a node, one after the other, change nothing of themselves. -/
theorem confined_deliverAll (n : NodeId) (handlers : List Handler) (t : Tree) :
    Confined may op Any (deliverAll n record handlers) t := by
  induction handlers generalizing t with
  | nil => exact Confined.pure trivial
  | cons handler rest ih =>
    exact Confined.bind (confined_deliver record n handler t) fun u _ _ => ih u

/-- A publication fills handler lists on the way to the root and does nothing else. -/
theorem confined_publish (hop : op.usesHandlers = true) (n : NodeId) (t : Tree) :
    Confined may op Any (publish n record) t := by
  induction n using Nat.strongRecOn generalizing t with
  | ind n ih =>
    rw [publish]
    have hown : Confined may op Any (publishOwn n record) (t.pin n) :=
      Confined.bind (confined_handlers hop) fun u view _ => confined_deliverAll record n _ u
    refine Confined.pinned_any (Confined.bind hown ?_)
    intro u _ _
    refine Confined.get_bind (Confined.ite (fun _ => ?_) fun _ => Confined.pure trivial)
    exact confined_climb () fun m hparent => ih m (lt_of_parent? hparent) u

/-- A log call does no more than the publication that it may come to. -/
theorem confined_log (hop : op.usesHandlers = true) (n : NodeId) (t : Tree) :
    Confined may op Any (log n record) t := by
  refine Confined.pinned_any (Confined.get_bind (Confined.ite (fun _ => ?_) fun _ => ?_))
  · refine Confined.bind (confined_accepts _ n _) ?_
    intro u _ _
    refine Confined.ite (fun _ => ?_) fun _ => Confined.pure trivial
    exact Confined.bind (confined_publish _ hop n u) fun _ _ _ => Confined.pure trivial
  · exact Confined.pure trivial

/-! ### Removal -/

/-- All nodes are the same when it is known whether the handlers of one would come back. -/
theorem confined_handlersReproducible (n : NodeId) (t : Tree) :
    Confined may op (fun u _ => u.nodes = t.nodes) (handlersReproducible n) t := by
  refine Confined.get_bind (Confined.ite (fun _ => Confined.ite (fun _ => ?_) fun _ => ?_)
    fun _ => Confined.pure rfl)
  · exact Confined.get_bind ⟨Alters.refl t, fun u a hu => Confined.pure (hu.2.2 rfl)⟩
  · exact Confined.pure rfl

/-- A node that a prune may ask about has no logger. -/
theorem hasLogger_of_isIdle (hidle : t.isIdle n = true) (hnode : t.node? n = some node) :
    node.hasLogger = false := by
  simp only [isIdle, hnode, Option.any_some, hasNoState, Bool.and_eq_true, Bool.not_eq_true']
    at hidle
  exact hidle.2.1.1.1.1.1

/-- The turn of a node detaches it or changes nothing. -/
theorem confined_pruneNode (n : NodeId) (t : Tree) : Confined may .prune Any (pruneNode n) t := by
  refine Confined.get_bind (Confined.ite (fun hidle => ?_) fun _ => Confined.pure trivial)
  refine Confined.bind (confined_handlersReproducible n t) ?_
  intro u _ hnodes
  refine Confined.ite (fun _ => ?_) fun _ => Confined.pure trivial
  have hnone : ∀ node, u.node? n = some node → node.hasLogger = false := by
    intro node hnode
    rw [node?, hnodes] at hnode
    exact hasLogger_of_isIdle hidle hnode
  exact Confined.get_bind (Confined.set_bind (Alters.detach hnone)
    (Confined.announce_bind (Confined.pure trivial)))

/-- The turns of all nodes detach some of them and change nothing else. -/
theorem confined_pruneNodes (order : List NodeId) (t : Tree) :
    Confined may .prune Any (pruneNodes order) t := by
  induction order generalizing t with
  | nil => exact Confined.pure trivial
  | cons n rest ih =>
    exact Confined.bind (confined_pruneNode n t) fun u _ _ =>
      Confined.bind (ih u) fun _ _ _ => Confined.pure trivial

/-- A prune detaches some nodes and changes nothing else. -/
theorem confined_prune (t : Tree) : Confined may .prune Any prune t :=
  Confined.get_bind (Confined.bind (confined_pruneNodes _ t) fun _ _ _ =>
    Confined.announce_bind (Confined.pure trivial))

/-! ### All operations -/

namespace Operation

/-- Whether the result of a run is handed out makes no difference to what it changes. -/
theorem confined_silently {run : Run α} (h : Confined may op Any run t) :
    Confined may op Any (silently run) t :=
  Confined.bind h fun _ _ _ => Confined.pure trivial

/-- A call that asks nothing and makes one change. -/
theorem confined_changing {f : Tree → Tree} (halters : Alters may op t (f t)) :
    Confined may op Any (changing f) t :=
  confined_silently (Confined.of_modify halters)

/-- Every operation changes no more than it may. -/
theorem confined_run (op : Operation) (hn : t.Exists op.subject) :
    Confined may op Any op.run t := by
  -- the settings that the relation does not speak of
  have hsetting : ∀ {op : Operation} {n : NodeId} {f : Node → Node},
      (∀ old, (f old).place = old.place ∧ (f old).level = old.level ∧
        (f old).handlers = old.handlers) →
      (∀ old, (f old).hasLogger = old.hasLogger ∨ op = .createLogger n ∧
        (f old).hasLogger = true) → Alters may op t (t.update n f) := by
    intro op n f hf hlogger
    refine Alters.update fun old _ =>
      ⟨?_, .inl ?_, fun _ => (hf old).2.1, fun _ => (hf old).2.2, hlogger old⟩
    · rw [(hf old).1]
      exact congrArg (fun attached => { old.place with attached })
        (congrArg Place.attached (hf old).1).symm
    · exact congrArg Place.attached (hf old).1
  cases op with
  | rootNode => exact Confined.pure trivial
  | getOrCreate n name =>
    exact Confined.bind (confined_followOrCreate ⟨n, name, rfl⟩ hn) fun _ _ _ =>
      Confined.pure trivial
  | getIfExists n name => exact Confined.get_bind (Confined.pure trivial)
  | parent n => exact Confined.get_bind (Confined.pure trivial)
  | children n => exact Confined.get_bind (Confined.pure trivial)
  | createLogger n =>
    exact Confined.modify_bind (hsetting (fun _ => ⟨rfl, rfl, rfl⟩) fun _ => .inr ⟨rfl, rfl⟩)
      (Confined.pure trivial)
  | setLevel n level =>
    refine confined_silently ?_
    have hend : Confined may (.setLevel n level) Any (fun _ => .done (t.withLevel n level) ()) t :=
      ⟨Alters.withLevel t n level, fun _ _ => trivial⟩
    unfold Confined Tree.setLevel
    dsimp only
    split
    · exact hend
    · exact hend
  | setFilter n filter =>
    exact confined_changing (hsetting (fun _ => ⟨rfl, rfl, rfl⟩) fun _ => .inl rfl)
  | setUseParentFilters n on =>
    exact confined_changing (hsetting (fun _ => ⟨rfl, rfl, rfl⟩) fun _ => .inl rfl)
  | setUseParentHandlers n on =>
    exact confined_changing (hsetting (fun _ => ⟨rfl, rfl, rfl⟩) fun _ => .inl rfl)
  | handlers n => exact confined_silently (confined_handlers rfl)
  | addHandler n handler => exact confined_silently (confined_onHandlers rfl _)
  | removeHandler n handler => exact confined_silently (confined_onHandlers rfl _)
  | setHandlers n list => exact confined_changing (Alters.withHandlerList rfl t n _)
  | clearHandlers n => exact confined_changing (Alters.withHandlerList rfl t n _)
  | compareAndSetHandlers n expected list =>
    refine confined_changing ?_
    unfold Tree.compareAndSetHandlers
    split
    · exact Alters.withHandlerList rfl t n _
    · exact Alters.refl t
  | attach n key value =>
    exact confined_changing (Alters.attachedBy fun _ _ => Attachments.capacity_of_attach)
  | attachIfAbsent n key value =>
    exact confined_changing (Alters.attachedBy fun _ _ => Attachments.capacity_of_attachIfAbsent)
  | detachValue n key =>
    exact confined_changing (Alters.withAttachments (Attachments.capacity_detach _ key))
  | accepts n record => exact confined_silently (confined_accepts record n t)
  | publish n record => exact confined_silently (confined_publish record rfl n t)
  | log n record => exact confined_silently (confined_log record rfl n t)
  | prune => exact confined_silently (confined_prune t)
  | close => exact confined_changing (Alters.of_nodes rfl rfl (.inr ⟨rfl, rfl⟩))

/-- Every call keeps to what its operation may do. -/
theorem confined_call (op : Operation) (hn : t.Exists op.subject) :
    Confined may op Any op.call t :=
  Confined.bind (confined_run op hn) fun _ _ _ =>
    Confined.modify_bind (Alters.of_nodes rfl rfl (.inl rfl)) (Confined.pure trivial)

end Operation

end LoggerHierarchy.Tree
