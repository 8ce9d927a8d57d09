import LoggerHierarchy.Proofs.Tree.Reentry

namespace LoggerHierarchy.Tree

/-!
# The way of a record along the handlers

Handlers may fail and panic, the reporter may panic, and all of them and the configuration may use
the tree before they answer.  None of this stops a record, or leads it astray:

* `Turn`, `Turns` — what is seen of one handler, and of several in order;
* `Arrival`, `Stop` — what is seen of the list that is current when the record arrives at a node,
  and of all that happens there;
* `Walk` — what is seen on the way up, while nodes delegate;
* `returns_publish` — every record comes to the end of its way;
* `Situation.Reachable.publish_walks` — that way is a `Walk`.
-/

/-- What is seen of an operation on a tree. -/
abbrev Move : Type :=
  Dialogue.Move outside Tree

variable {may : Answers} {ω : Type} {t u : Tree} {n : NodeId}

/-! ### What is seen of a record on its way -/

/-- One handler's turn, up to the tree that is left at its end: the handler is called once.  If it
    fails, this is reported at once, and once; if it or the reporter panics, this is announced. -/
inductive Turn (n : NodeId) (record : Record) (handler : Handler) : List Move → Tree → Prop where
  | taken {t u : Tree} :
      Turn n record handler [.asked t (.publish handler record) Delivery.taken u] u
  | panicked {t u : Tree} :
      Turn n record handler
        [.asked t (.publish handler record) Delivery.panic u,
          .announced (handlerPanicked (u.name n) handler.name)] u
  | reported {t u v : Tree} {failure : HandlerFailure} :
      Turn n record handler
        [.asked t (.publish handler record) (Delivery.failed failure) u,
          .asked u (.report handler publicationFailure failure .writing)
            Acknowledgement.returned v] v
  | reporterPanicked {t u v : Tree} {failure : HandlerFailure} :
      Turn n record handler
        [.asked t (.publish handler record) (Delivery.failed failure) u,
          .asked u (.report handler publicationFailure failure .writing) Acknowledgement.panic v,
          .announced (handlerPanicked (v.name n) handler.name)] v

/-- The turns of some handlers, each as often as it occurs and in order. -/
inductive Turns (n : NodeId) (record : Record) : Tree → List Handler → List Move → Tree → Prop where
  | nil {t : Tree} : Turns n record t [] [] t
  | cons {t u v : Tree} {handler : Handler} {rest : List Handler} {moves moves' : List Move}
      (hturn : Turn n record handler moves u) (hrest : Turns n record u rest moves' v) :
      Turns n record t (handler :: rest) (moves ++ moves') v

/-- The record arrives at a node, where `items` is the current list.  An unset list is fetched,
    unless it is set while the configuration is asked. -/
inductive Arrival (n : NodeId) (t : Tree) : List Move → List Handler → Tree → Prop where
  | current {snapshot : Snapshot Handler} (hcurrent : (t.handlerList n).current = some snapshot) :
      Arrival n t [] snapshot.items t
  | fetched {found u : Tree} {items : List Handler} (hunset : (t.handlerList n).current = none)
      (hleft : (u.handlerList n).current = none) :
      Arrival n t
        [.asked found (.handlers (t.name n)) items u,
          .announced (HandlerList.fetched items.length)]
        items (u.withHandlerList n ((u.handlerList n).install items))
  | overtaken {found u : Tree} {items : List Handler} {winner : Snapshot Handler}
      (hunset : (t.handlerList n).current = none)
      (hwinner : (u.handlerList n).current = some winner) :
      Arrival n t
        [.asked found (.handlers (t.name n)) items u,
          .announced (HandlerList.fetched items.length)]
        winner.items u

/-- The stop at a node: the handlers that are current when the record arrives have their turns,
    whatever becomes of the node's list meanwhile. -/
inductive Stop (n : NodeId) (record : Record) : Tree → List Move → Tree → Prop where
  | mk {t u v : Tree} {items : List Handler} {moves moves' : List Move}
      (harrival : Arrival n t moves items u) (hturns : Turns n record u items moves' v) :
      Stop n record t (moves ++ moves') v

/-- The way up from a node.  Whether it goes on after a stop is told by the tree that is left. -/
inductive Walk (record : Record) : NodeId → Tree → List Move → Tree → Prop where
  | ends {n : NodeId} {t u : Tree} {moves : List Move} (hstop : Stop n record t moves u)
      (hend : u.delegatesHandlers n = true → u.parent? n = none) : Walk record n t moves u
  | climbs {n p : NodeId} {t u v : Tree} {moves moves' : List Move}
      (hstop : Stop n record t moves u) (hdelegates : u.delegatesHandlers n = true)
      (hparent : u.parent? n = some p) (hrest : Walk record p u moves' v) :
      Walk record n t (moves ++ moves') v

/-! ### Open trees in which all is well -/

/-- What holds of a tree before and after all that a considerate outside does. -/
structure Fit (may : Answers) (t : Tree) : Prop where
  wellFormed : t.WellFormed may
  isOpen : t.isOpen = true

/-- Two trees of the same nodes: what is seen of one holds of the other, in which operations under
    way hold other references. -/
structure SameNodes (may : Answers) (t u : Tree) : Prop where
  fit : t.Fit may
  fit' : u.Fit may
  nodes : u.nodes = t.nodes

namespace SameNodes

variable (h : SameNodes may t u)

include h

/-- In trees of the same nodes a node has one handler list. -/
theorem handlerList (n : NodeId) : u.handlerList n = t.handlerList n := by
  simp only [Tree.handlerList, node?, h.nodes]

/-- In trees of the same nodes a node has one name. -/
theorem name (n : NodeId) : u.name n = t.name n := by
  simp only [Tree.name, node?, h.nodes]

/-- In trees of the same nodes a node delegates in both or in neither. -/
theorem delegatesHandlers (n : NodeId) : u.delegatesHandlers n = t.delegatesHandlers n := by
  simp only [Tree.delegatesHandlers, node?, h.nodes]

/-- The parent of an attached node is kept in both. -/
theorem parent? (hn : u.IsAttached n) : u.parent? n = t.parent? n := by
  obtain ⟨q, hq, hattached⟩ := hn
  have hq' : t.place? n = some q := by
    rw [← hq]
    simp only [place?, node?, h.nodes]
  rw [h.fit'.wellFormed.shaped.parent?_eq h.fit'.isOpen hq hattached,
    h.fit.wellFormed.shaped.parent?_eq h.fit.isOpen hq' hattached]

/-- A further reference changes no node. -/
theorem pin (hn : u.IsAttached n) : SameNodes may t (u.pin n) :=
  ⟨h.fit, ⟨(h.fit'.wellFormed.later_pin hn).wellFormed, h.fit'.isOpen⟩, h.nodes⟩

/-- A reference that is given up changes no node. -/
theorem unpin (n : NodeId) : SameNodes may t (u.unpin n) :=
  ⟨h.fit, ⟨(h.fit'.wellFormed.later_unpin n).wellFormed, h.fit'.isOpen⟩, h.nodes⟩

/-- The nodes remain the same when both trees get the same list. -/
theorem withHandlerList (n : NodeId) (list : HandlerList Handler) :
    SameNodes may (t.withHandlerList n list) (u.withHandlerList n list) where
  fit := ⟨(h.fit.wellFormed.later_withHandlerList n list).wellFormed, h.fit.isOpen⟩
  fit' := ⟨(h.fit'.wellFormed.later_withHandlerList n list).wellFormed, h.fit'.isOpen⟩
  nodes := by simp only [Tree.withHandlerList, update, h.nodes]

end SameNodes

/-- A tree has the nodes that it has. -/
theorem Fit.sameNodes (h : t.Fit may) : SameNodes may t t :=
  ⟨h, h, rfl⟩

/-! ### The parts of the way -/

/-- All that a handler's turn may be. -/
theorem deliver_eq (n : NodeId) (record : Record) (handler : Handler) (t : Tree) :
    deliver n record handler t =
      .ask t (.publish handler record) fun u (delivery : Delivery) =>
        match delivery with
        | .taken => .done u ()
        | .panic => .announce (handlerPanicked (u.name n) handler.name) (.done u ())
        | .failed failure =>
          .ask u (.report handler publicationFailure failure .writing)
            fun v (acknowledgement : Acknowledgement) =>
              match acknowledgement with
              | .returned => .done v ()
              | .panic => .announce (handlerPanicked (v.name n) handler.name) (.done v ()) := by
  -- both sides ask the same; what follows is told by the answer
  refine congrArg (Dialogue.ask (P := outside) t (.publish handler record)) ?_
  funext u (delivery : Delivery)
  cases delivery with
  | taken | panic => rfl
  | failed failure =>
    refine congrArg (Dialogue.ask (P := outside) u (.report handler _ failure .writing)) ?_
    funext v (acknowledgement : Acknowledgement)
    cases acknowledgement <;> rfl

/-- Nothing changes when a node is given the list that it has. -/
theorem withHandlerList_self (t : Tree) (n : NodeId) :
    t.withHandlerList n (t.handlerList n) = t := by
  refine ext_nodes rfl fun m => ?_
  rw [withHandlerList, node?_update]
  split
  · rename_i hm
    subst hm
    unfold handlerList
    cases t.node? n <;> rfl
  · rfl

/-- The fetch of a node's list, with a reference to the node meanwhile. -/
theorem handlers_eq (n : NodeId) (t : Tree) :
    handlers n t =
      (((HandlerList.fetch (t.handlerList n)).within (handlerListOf n (t.name n)) (t.pin n)).ensure
        (·.unpin n)).bind fun u snapshot => .done u ⟨n, snapshot⟩ := rfl

/-- A list that is set is taken as it is. -/
theorem handlers_of_current {snapshot : Snapshot Handler}
    (hcurrent : (t.handlerList n).current = some snapshot) :
    handlers n t = .done t ⟨n, snapshot⟩ := by
  have hfetch : HandlerList.fetch (t.handlerList n) = .done (t.handlerList n) snapshot := by
    rw [HandlerList.fetch, hcurrent]
  have hsame : (t.pin n).withHandlerList n (t.handlerList n) = t.pin n :=
    withHandlerList_self (t.pin n) n
  rw [handlers_eq, hfetch]
  show Dialogue.done (((t.pin n).withHandlerList n (t.handlerList n)).unpin n) _ = _
  rw [hsame, unpin_pin]

/-- A list that is unset is asked of the configuration, which may set it before it answers. -/
theorem handlers_of_unset (hunset : (t.handlerList n).current = none) :
    handlers n t =
      .ask (t.pin n) (.handlers (t.name n)) fun u (items : List Handler) =>
        .announce (HandlerList.fetched items.length) <|
          match (u.handlerList n).current with
          | some winner => .done (u.unpin n) ⟨n, winner⟩
          | none =>
            .done ((u.withHandlerList n ((u.handlerList n).install items)).unpin n)
              ⟨n, (u.handlerList n).issued, items⟩ := by
  have hsame : (t.pin n).withHandlerList n (t.handlerList n) = t.pin n :=
    withHandlerList_self (t.pin n) n
  rw [handlers_eq, HandlerList.fetch, hunset]
  show Dialogue.ask ((t.pin n).withHandlerList n (t.handlerList n)) _ _ = _
  rw [hsame]
  refine congrArg (Dialogue.ask (P := outside) _ (.handlers _)) ?_
  funext u (items : List Handler)
  refine congrArg (Dialogue.announce _) ?_
  -- the list is read afresh from what the configuration has left
  have hlist : (handlerListOf n (t.name n)).get u = u.handlerList n := rfl
  rw [hlist]
  cases (u.handlerList n).current with
  | some winner =>
    show Dialogue.done ((u.withHandlerList n (u.handlerList n)).unpin n) _ = _
    rw [withHandlerList_self]
  | none => rfl

/-- Only termination needs the equation that a match on a parent remembers. -/
theorem match_forget {α : Type} (parent : Option NodeId) (f : NodeId → α) (a : α) :
    (match _h : parent with | some p => f p | none => a) =
      match parent with | some p => f p | none => a := by
  cases parent <;> rfl

/-- A stop at a node, and the way on from there. -/
theorem publish_eq (n : NodeId) (record : Record) (t : Tree) :
    publish n record t =
      ((publishOwn n record (t.pin n)).bind fun u _ =>
        if u.delegatesHandlers n = true then
          match u.parent? n with
          | some p => publish p record u
          | none => .done u ()
        else .done u ()).ensure (·.unpin n) := by
  rw [publish]
  refine congrArg (Dialogue.ensure _) (congrArg (Dialogue.bind _) ?_)
  funext u _
  show (if u.delegatesHandlers n = true then _ else _ : Run Unit) u = _
  cases u.delegatesHandlers n with
  | false => rfl
  | true =>
    exact match_forget (u.parent? n) _ _

/-! ### Every record comes to the end of its way -/

/-- The questions that are asked while a record is on its way. -/
def Question.IsAboutDelivery (record : Record) : Question → Prop
  | handlers _ => True
  | publish _ r => r = record
  | report _ message _ category => message = publicationFailure ∧ category = .writing
  | _ => False

/-- A handler's turn always comes to an end, with questions about its delivery alone. -/
theorem returns_deliver (n : NodeId) (record : Record) (handler : Handler) (t : Tree) :
    (deliver n record handler t).Returns (Question.IsAboutDelivery record) := by
  rw [deliver_eq]
  refine ⟨rfl, fun u (delivery : Delivery) => ?_⟩
  cases delivery with
  | taken | panic => trivial
  | failed failure =>
    refine ⟨⟨rfl, rfl⟩, fun v (acknowledgement : Acknowledgement) => ?_⟩
    cases acknowledgement <;> trivial

/-- The turns of all handlers come to an end, with questions about their deliveries alone. -/
theorem returns_deliverAll (n : NodeId) (record : Record) (handlers : List Handler) (t : Tree) :
    (deliverAll n record handlers t).Returns (Question.IsAboutDelivery record) := by
  induction handlers generalizing t with
  | nil => trivial
  | cons handler rest ih =>
    exact Dialogue.Returns.bind (returns_deliver n record handler t) fun u _ => ih u

/-- A look at the list of a node comes to an end, and asks for nothing but its handlers. -/
theorem returns_handlers (n : NodeId) (record : Record) (t : Tree) :
    (handlers n t).Returns (Question.IsAboutDelivery record) := by
  cases hcurrent : (t.handlerList n).current with
  | some snapshot =>
    rw [handlers_of_current hcurrent]
    trivial
  | none =>
    rw [handlers_of_unset hcurrent]
    refine ⟨trivial, fun u (items : List Handler) => ?_⟩
    cases hwinner : (u.handlerList n).current <;> simp [Dialogue.Returns, hwinner]

/-- Nothing that the outside answers or does to the tree, be it as it may, keeps a record from the
    end of its way. -/
theorem returns_publish (n : NodeId) (record : Record) (t : Tree) :
    (publish n record t).Returns (Question.IsAboutDelivery record) := by
  induction n using Nat.strongRecOn generalizing t with
  | ind n ih =>
    rw [publish_eq]
    have hown : (publishOwn n record (t.pin n)).Returns (Question.IsAboutDelivery record) :=
      Dialogue.Returns.bind (returns_handlers n record _)
        fun u _ => returns_deliverAll n record _ u
    refine (hown.bind fun u _ => ?_).ensure
    split
    · split
      · rename_i p hparent
        exact ih p (lt_of_parent? hparent) u
      · trivial
    · trivial

/-! ### What is seen of these parts -/

section

variable {world : Dialogue.Outside outside Tree ω} (hworld : Considerate may world)
  (record : Record)

include hworld

/-- A considerate outside leaves a fit tree, and the references of operations under way. -/
theorem Considerate.fit (q : Question) (h : t.Fit may) (w : ω) :
    (world q t w).2.1.Fit may ∧ (world q t w).2.1.pins = t.pins := by
  obtain ⟨huses, hopen⟩ := hworld q t w h.wellFormed h.isOpen
  have hrests := huses.rests h.wellFormed
  exact ⟨⟨hrests.later.wellFormed, hopen⟩, hrests.pins⟩

/-- Whatever a handler and the reporter do, the turn comes to its end. -/
theorem turn_deliver (h : t.Fit may) (handler : Handler) (w : ω) :
    ∃ moves u w', (deliver n record handler t).play world w = ⟨moves, some (), u, w'⟩ ∧
      Turn n record handler moves u ∧ u.Fit may ∧ u.pins = t.pins := by
  obtain ⟨hfit, hpins⟩ := hworld.fit (.publish handler record) h w
  rcases hcall : world (.publish handler record) t w with ⟨delivery, u, w'⟩
  rw [hcall] at hfit hpins
  have hplay := Dialogue.play_of_ask (deliver_eq n record handler t) hcall
  cases delivery with
  | taken => exact ⟨_, u, w', hplay, .taken, hfit, hpins⟩
  | panic => exact ⟨_, u, w', hplay, .panicked, hfit, hpins⟩
  | failed failure =>
    let report : Question := .report handler publicationFailure failure .writing
    obtain ⟨hfit', hpins'⟩ := hworld.fit report hfit w'
    rcases hreport : world report u w' with ⟨acknowledgement, v, w''⟩
    rw [hreport] at hfit' hpins'
    have hpins := hpins'.trans hpins
    have hplay := hplay.trans
      (congrArg (fun play => Dialogue.Play.after play _) (Dialogue.play_of_ask rfl hreport))
    cases acknowledgement with
    | returned => exact ⟨_, v, w'', hplay, .reported, hfit', hpins⟩
    | panic => exact ⟨_, v, w'', hplay, .reporterPanicked, hfit', hpins⟩

/-- The handlers have their turns one after the other. -/
theorem turns_deliverAll {t' : Tree} (h : SameNodes may t t') (handlers : List Handler) (w : ω) :
    ∃ moves u u' w', (deliverAll n record handlers t').play world w = ⟨moves, some (), u', w'⟩ ∧
      Turns n record t handlers moves u ∧ SameNodes may u u' ∧ u'.pins = t'.pins := by
  induction handlers generalizing t t' w with
  | nil => exact ⟨[], t, t', w, rfl, .nil, h, rfl⟩
  | cons handler rest ih =>
    obtain ⟨moves, u, w', hplay, hturn, hfit, hpins⟩ :=
      turn_deliver hworld record h.fit' handler w
    -- the next turn starts from the very tree that this one leaves
    obtain ⟨moves', v, v', w'', hplay', hrest, hsame, hpins'⟩ := ih hfit.sameNodes w'
    refine ⟨moves ++ moves', v, v', w'', ?_, .cons hturn hrest, hsame, hpins'.trans hpins⟩
    show ((deliver n record handler t').bind fun u _ => deliverAll n record rest u).play world w
      = _
    rw [Dialogue.play_bind, hplay, Dialogue.Play.bind_of_result rfl, hplay']

/-- The record finds the list that is current when it arrives. -/
theorem arrival_handlers {t' : Tree} (h : SameNodes may t t') (hn : t'.IsAttached n) (w : ω) :
    ∃ moves u u' view w', (handlers n t').play world w = ⟨moves, some view, u', w'⟩ ∧
      Arrival n t moves view.snapshot.items u ∧ SameNodes may u u' ∧ u'.pins = t'.pins := by
  cases hcurrent : (t'.handlerList n).current with
  | some snapshot =>
    rw [handlers_of_current hcurrent]
    rw [h.handlerList n] at hcurrent
    exact ⟨[], t, t', ⟨n, snapshot⟩, w, rfl, .current hcurrent, h, rfl⟩
  | none =>
    obtain ⟨hfit, hpins⟩ := hworld.fit (.handlers (t'.name n)) (h.pin hn).fit' w
    rcases hanswer : world (.handlers (t'.name n)) (t'.pin n) w with ⟨items, u, w'⟩
    rw [hanswer] at hfit hpins
    have hplay := Dialogue.play_of_ask (handlers_of_unset hcurrent) hanswer
    -- what was read of `t'` is what shows of `t`
    rw [h.name n] at hplay
    rw [h.handlerList n] at hcurrent
    have hpins : (u.unpin n).pins = t'.pins := pins_unpin hpins
    cases hwinner : (u.handlerList n).current with
    | some winner =>
      rw [hwinner] at hplay
      exact ⟨_, u, u.unpin n, ⟨n, winner⟩, w', hplay, .overtaken hcurrent hwinner,
        hfit.sameNodes.unpin n, hpins⟩
    | none =>
      rw [hwinner] at hplay
      have hsame := hfit.sameNodes.withHandlerList n ((u.handlerList n).install items)
      exact ⟨_, _, _, ⟨n, (u.handlerList n).issued, items⟩, w', hplay, .fetched hcurrent hwinner,
        hsame.unpin n, hpins⟩

/-- All that happens at a node. -/
theorem stop_publishOwn {t' : Tree} (h : SameNodes may t t') (hn : t'.IsAttached n) (w : ω) :
    ∃ moves u u' w', (publishOwn n record t').play world w = ⟨moves, some (), u', w'⟩ ∧
      Stop n record t moves u ∧ SameNodes may u u' ∧ u'.pins = t'.pins := by
  obtain ⟨moves, u, u', view, w', hplay, harrival, hsame, hpins⟩ := arrival_handlers hworld h hn w
  obtain ⟨moves', v, v', w'', hplay', hturns, hsame', hpins'⟩ :=
    turns_deliverAll hworld record hsame view.snapshot.items w'
  refine ⟨moves ++ moves', v, v', w'', ?_, .mk harrival hturns, hsame', hpins'.trans hpins⟩
  show ((handlers n t').bind fun u view =>
    deliverAll n record view.snapshot.items u).play world w = _
  rw [Dialogue.play_bind, hplay, Dialogue.Play.bind_of_result rfl, hplay']

/-- The way up comes to its end, since parents have smaller numbers. -/
theorem walk_publish {t' : Tree} (h : SameNodes may t t') (hn : t'.IsAttached n) (w : ω) :
    ∃ moves u u' w', (publish n record t').play world w = ⟨moves, some (), u', w'⟩ ∧
      Walk record n t moves u ∧ SameNodes may u u' ∧ u'.pins = t'.pins := by
  induction n using Nat.strongRecOn generalizing t t' w with
  | ind n ih =>
    obtain ⟨moves, u, u', w', hplay, hstop, hsame, hpins⟩ :=
      stop_publishOwn hworld record (h.pin hn) hn w
    -- whatever happened here, the node is still in its place
    have hnu := hsame.fit'.wellFormed.isAttached_of_pins_eq hpins
    rw [publish_eq, Dialogue.play_ensure, Dialogue.play_bind, hplay,
      Dialogue.Play.bind_of_result rfl]
    dsimp only
    rw [hsame.delegatesHandlers, hsame.parent? hnu]
    -- whether the walk goes on is read after the stop, so from the tree that it has left
    by_cases hdelegates : u.delegatesHandlers n = true
    case neg =>
      rw [if_neg hdelegates]
      exact ⟨_, u, _, w', rfl, .ends (by simpa using hstop) (absurd · hdelegates),
        hsame.unpin n, pins_unpin hpins⟩
    case pos =>
      rw [if_pos hdelegates]
      cases hparent : u.parent? n with
      | none =>
        exact ⟨_, u, _, w', rfl, .ends (by simpa using hstop) fun _ => hparent,
          hsame.unpin n, pins_unpin hpins⟩
      | some p =>
        have hp := hsame.fit'.wellFormed.isAttached_of_parent? hnu
          ((hsame.parent? hnu).trans hparent)
        obtain ⟨moves', v, v', w'', hplay', hrest, hsame', hpins'⟩ :=
          ih p (lt_of_parent? hparent) hsame hp w'
        refine ⟨_, v, _, w'', ?_, .climbs hstop hdelegates hparent hrest, hsame'.unpin n,
          pins_unpin (hpins'.trans hpins)⟩
        dsimp only
        rw [hplay']

end

/-! ### Every run -/

/-- Whenever an open context is reached, and whatever handlers, the reporter and the configuration
    answer and do with its nodes meanwhile: a record that is handed to a node comes to the end of
    its way, which leads from stop to stop while nodes delegate; at each of them the handlers that
    are current when it arrives have their turns, and each failure is reported once. -/
theorem Situation.Reachable.publish_walks {s : Situation} (h : Reachable may s)
    (hopen : s.tree.isOpen = true) (hn : s.tree.contains n = true)
    {world : Dialogue.Outside outside Tree ω} (hworld : Considerate may world) (record : Record)
    (memory : ω) :
    let play := (publish n record s.tree).play world memory
    play.result = some () ∧ ∃ u, Walk record n s.tree play.moves u ∧
      play.state.nodes = u.nodes ∧ play.state.pins = s.tree.pins := by
  have hfit : s.tree.Fit may := ⟨h.wellFormed, hopen⟩
  have hattached := h.wellFormed.shaped.contains_iff.1 hn
  obtain ⟨moves, u, u', w', hplay, hwalk, hsame, hpins⟩ :=
    walk_publish hworld record hfit.sameNodes hattached memory
  dsimp only
  rw [hplay]
  exact ⟨rfl, u, hwalk, hsame.nodes, hpins⟩

/-- A configuration under which one handler occurs twice at the node "a". -/
def Configuration.doubled : Configuration where
  handlers name := if name = "a" then [⟨0, "file"⟩, ⟨0, "file"⟩] else [⟨1, "console"⟩]

/-- A handler that at its first call empties the list it is called from, and fails; that panics at
    its second call; and that takes everything from then on.  The reporter panics. -/
def troubled : Dialogue.Outside outside Tree Nat
  | .publish _ _, t, 0 =>
    (Delivery.failed (.publication "disk full"),
      if 1 ∈ t.held then (t.clearHandlers 1).2 else t, 1)
  | .publish _ _, t, 1 => (Delivery.panic, t, 2)
  | .report .., t, calls => (Acknowledgement.panic, t, calls)
  | q, t, calls => (Configuration.doubled.answer q, t, calls)

/-- For all its failures, this outside is a considerate one. -/
theorem considerate_troubled (may : Answers) : Considerate may troubled := by
  intro q t calls _ hopen
  unfold troubled
  split
  · split
    · rename_i hheld
      exact ⟨.call (.clearHandlers 1) (.inl hheld) .done .nothing, hopen⟩
    · exact ⟨.nothing, hopen⟩
  · exact ⟨.nothing, hopen⟩
  · exact ⟨.nothing, hopen⟩
  · exact ⟨.nothing, hopen⟩

/-- The handler that occurs twice is called twice, though it empties the list, fails and panics, and
    the record goes on to the root. -/
theorem publish_walks_past_failures :
    let s := (Situation.initial .doubled).after .doubled (.getOrCreate root "a")
    let play := (publish 1 { level := .info, message := "x" } s.tree).play troubled 0
    play.result = some () ∧ play.moves.length = 10 ∧
      ∃ u, Walk { level := .info, message := "x" } 1 s.tree play.moves u := by
  have hcreated := (Situation.reachable_initial .doubled).after (.getOrCreate root "a")
    (.inr ⟨rfl, rfl⟩) rfl
  obtain ⟨hresult, u, hwalk, -⟩ := Situation.Reachable.publish_walks (n := 1) hcreated
    (by decide +kernel) (by decide +kernel) (considerate_troubled _)
    { level := .info, message := "x" } 0
  exact ⟨hresult, by decide +kernel, u, hwalk⟩

end LoggerHierarchy.Tree
