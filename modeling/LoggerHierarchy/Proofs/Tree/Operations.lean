import LoggerHierarchy.Proofs.Name
import LoggerHierarchy.Proofs.Tree.Conduct

namespace LoggerHierarchy.Tree

/-!
# Every operation keeps the contract

Started at an attached node of a well-formed tree:

* `respects_getOrCreate` — a name is followed, and what is missing is made, whatever the outside
  does meanwhile;
* `respects_onHandlers`, `respects_accepts`, `respects_publish`, `respects_log` — handlers and
  filters are used, which may use the tree themselves;
* `respects_prune` — idle nodes are dropped.
-/

variable {may : Answers} {α β : Type} {t u : Tree} {n m c : NodeId} {segment : String}

/-! ### Making nodes -/

/-- What is asked for a child, and what is made of the answers if none was made meanwhile. -/
theorem createChild_eq (n : NodeId) (segment : String) (t : Tree) :
    createChild n segment t =
      Dialogue.ask (P := outside) t (.minimum (t.childName n segment)) fun u minimum =>
        .ask u (.level (t.childName n segment)) fun v level =>
          match v.child? n segment with
          | some winner => .announce (lostRace (t.childName n segment)) (.done v winner)
          | none =>
            .announce (createdNode (t.childName n segment))
              (.done ((v.insert (v.childNode n segment minimum level)).resync v.nodes.size)
                v.nodes.size) := by
  refine congrArg (Dialogue.ask t _) (funext fun u => funext fun minimum =>
    congrArg (Dialogue.ask u _) (funext fun v => funext fun level => ?_))
  simp only [Program.bind_apply, Program.get_apply, Dialogue.bind]
  cases v.child? n segment with
  | some winner => rfl
  | none => rfl

/-- A new child, or the one that was made meanwhile, hangs from its segment. -/
theorem respects_createChild (h : t.WellFormed may) (hn : n ∈ t.pins)
    (hdots : '.' ∉ segment.toList) :
    Respects may (fun u c => u.Link n segment c) (createChild n segment) t := by
  obtain ⟨p, hp, hattached⟩ := h.isAttached_of_pinned hn
  unfold createChild
  refine Respects.get_bind (Respects.ask_bind h ?_)
  intro u (minimum : Option Level) hu hminimum
  refine Respects.ask_bind hu.later.wellFormed ?_
  intro v (level : Option Level) hv _
  refine Respects.get_bind ?_
  have htv : Later may t v := hu.later.trans hv.later
  -- `n` was pinned all the time, so the new node gets the name that was asked about
  have hnv : v.IsAttached n := by
    apply htv.wellFormed.isAttached_of_pinned
    rw [hv.pins, hu.pins]
    exact hn
  have hname : v.childName n segment = t.childName n segment := by
    rw [htv.wellFormed.shaped.childName_eq (htv.grows.place?_eq hp hnv), h.shaped.childName_eq hp]
  split
  · -- the child was made from within one of the two questions
    rename_i winner hwinner
    have hlink : v.Link n segment winner := link_of_child? hwinner
    exact Respects.announce_bind (Respects.pure htv.wellFormed hlink)
  · rename_i hfree
    have hmay : may (.minimum (v.childName n segment)) minimum := by rw [hname]; exact hminimum
    have hinsert := htv.wellFormed.later_insert hnv hfree hdots hmay level
    refine Respects.set_bind hinsert rfl (Respects.announce_bind ?_)
    have hplace := place?_insert v (v.childNode n segment minimum level) v.nodes.size
    rw [if_pos rfl, place_childNode] at hplace
    -- the new node is in step with its parent already
    have hresync := hinsert.wellFormed.resync_eq ⟨_, hplace, rfl⟩
    refine Respects.modify_bind ?_ (congrArg pins hresync) ?_
    · rw [hresync]
      exact hinsert.wellFormed.later_self
    · rw [hresync]
      exact Respects.pure hinsert.wellFormed ⟨_, hplace, rfl, rfl, rfl⟩

/-- The node at the end of a path is made if it is missing, and found there from then on. -/
theorem respects_followOrCreate {path : List String} (h : t.WellFormed may) (hn : t.IsAttached n)
    (hdots : ∀ segment ∈ path, '.' ∉ segment.toList) :
    Respects may (fun u m => u.find? n path = some m ∧ u.IsAttached m)
      (followOrCreate n path) t := by
  induction path generalizing n t with
  | nil => exact Respects.pure h ⟨rfl, hn⟩
  | cons segment rest ih =>
    have hunpin : ∀ u m, Later may u (u.unpin n) →
        u.find? n (segment :: rest) = some m ∧ u.IsAttached m →
        (u.unpin n).find? n (segment :: rest) = some m ∧ (u.unpin n).IsAttached m := by
      rintro u m hu ⟨hfind, hm⟩
      exact ⟨(hu.grows.find? hu.wellFormed.shaped hfind hm).1, hm⟩
    -- from the next node on, the rest of the path is followed in the same way
    have hrest : ∀ u c, Later may (t.pin n) u → u.Link n segment c →
        Respects may (fun u m => u.find? n (segment :: rest) = some m ∧ u.IsAttached m)
          (followOrCreate c rest) u := by
      intro u c hu hc
      have hdotsRest : ∀ s ∈ rest, '.' ∉ s.toList :=
        fun s hs => hdots s (List.mem_cons_of_mem _ hs)
      refine (ih hu.wellFormed hc.isAttached hdotsRest).mono ?_
      rintro v m hv - ⟨hfind, hm⟩
      -- `m` is attached, so all nodes on the way to it are
      have hcv : v.IsAttached c := ((Grows.refl v).find? hv.wellFormed.shaped hfind hm).2
      have hchild := hv.wellFormed.shaped.child?_eq_some_iff.2 (hv.grows.link hc hcv)
      refine ⟨?_, hm⟩
      rw [find?_cons, hchild, Option.bind_some]
      exact hfind
    have hpin := h.later_pin hn
    have hpinned : n ∈ (t.pin n).pins := List.mem_cons_self
    refine Respects.pinned h hn (Respects.get_bind ?_) hunpin
    simp only [pure_bind]
    split
    · rename_i c hc
      exact hrest _ c hpin.wellFormed.later_self (link_of_child? hc)
    · have hcreate := respects_createChild hpin.wellFormed hpinned (hdots segment (by simp))
      refine Respects.bind hcreate ?_
      intro u c hu _ hc
      exact hrest u c hu hc

/-- A look-up finds or makes an attached node, and right after it the name leads there. -/
theorem respects_getOrCreate (h : t.WellFormed may) (hn : t.IsAttached n) (name : String) :
    Respects may (fun u m => u.getIfExists n name = some m ∧ u.IsAttached m)
      (getOrCreate n name) t :=
  respects_followOrCreate h hn fun _ => Name.dot_notMem_of_mem_segments

@[simp] theorem unpin_pin (t : Tree) (n : NodeId) : (t.pin n).unpin n = t := by
  have hpins : (n :: t.pins).erase n = t.pins := List.erase_cons_head n t.pins
  change { t with pins := (n :: t.pins).erase n } = t
  rw [hpins]

@[simp] theorem find?_pin (t : Tree) (n k : NodeId) (path : List String) :
    (t.pin n).find? k path = t.find? k path := by
  induction path generalizing k with
  | nil => rfl
  | cons segment rest ih =>
    simp only [find?_cons, ih]
    rfl

/-- A path is followed through the next child, which is there. -/
theorem followOrCreate_cons_of_child {rest : List String} (hchild : t.child? n segment = some c) :
    followOrCreate n (segment :: rest) t =
      (followOrCreate c rest (t.pin n)).ensure (·.unpin n) := by
  have hchildPin : (t.pin n).child? n segment = some c := hchild
  simp only [followOrCreate, pinned, Program.ensuring, Program.bind_apply, Program.get_apply,
    Dialogue.bind_done, hchildPin, Program.pure_apply]

/-- A path is followed through the next child, which is made. -/
theorem followOrCreate_cons_of_free {rest : List String} (hfree : t.child? n segment = none) :
    followOrCreate n (segment :: rest) t =
      ((createChild n segment (t.pin n)).bind fun u c => followOrCreate c rest u).ensure
        (·.unpin n) := by
  have hfreePin : (t.pin n).child? n segment = none := hfree
  simp only [followOrCreate, pinned, Program.ensuring, Program.bind_apply, Program.get_apply,
    Dialogue.bind_done, hfreePin]

/-- Along a path that exists nothing is asked, and nothing is changed. -/
theorem followOrCreate_eq_done {path : List String} (h : t.find? n path = some m) :
    followOrCreate n path t = .done t m := by
  induction path generalizing n t with
  | nil =>
    obtain rfl : n = m := by simpa using h
    rfl
  | cons segment rest ih =>
    rw [find?_cons, Option.bind_eq_some_iff] at h
    obtain ⟨c, hc, h⟩ := h
    have hrest : followOrCreate c rest (t.pin n) = .done (t.pin n) m :=
      ih ((find?_pin t n c rest).trans h)
    rw [followOrCreate_cons_of_child hc, hrest, Dialogue.ensure, unpin_pin]

/-! ### Levels -/

/-- A level that is set takes no reference. -/
theorem pins_withLevel (t : Tree) (n : NodeId) (level : Option Level) :
    (t.withLevel n level).pins = t.pins := by
  unfold withLevel
  split
  · rfl
  · dsimp only
    split <;> rfl

/-- Setting a level keeps the contract. -/
theorem respects_setLevel (h : t.WellFormed may) (n : NodeId) (level : Option Level) :
    Respects may Any (setLevel n level) t := by
  have hlater := h.later_withLevel n level
  have hend : Respects may Any (fun _ => .done (t.withLevel n level) ()) t :=
    ⟨hlater, hlater, pins_withLevel t n level, fun _ _ => trivial⟩
  unfold Respects setLevel
  dsimp only
  split
  · exact hend
  · exact hend

/-! ### Handler lists -/

/-- A handler list may be replaced at any node. -/
theorem WellFormed.later_withHandlerList (h : t.WellFormed may) (n : NodeId)
    (list : HandlerList Handler) : Later may t (t.withHandlerList n list) :=
  h.later_update fun _ _ => ⟨rfl, rfl, rfl⟩

/-- Whatever a use of a handler list does, no node moves and no level changes. -/
theorem keeps_within (name : String)
    (d : Dialogue (HandlerList.source Handler) (HandlerList Handler) α) (h : t.WellFormed may) :
    (d.within (handlerListOf n name) t).Keeps (contract may)
      (fun u r => Later may t u ∧ u.pins = t.pins ∧ ∀ a, r = some a → Any u a) t := by
  induction d generalizing t with
  | done list a =>
    have hlater := h.later_withHandlerList n list
    exact ⟨hlater, hlater, rfl, fun _ _ => trivial⟩
  | aborted list =>
    have hlater := h.later_withHandlerList n list
    exact ⟨hlater, hlater, rfl, fun _ _ => trivial⟩
  | announce e d ih => exact ih h
  | ask list q resume ih =>
    -- the list is put back before the question, and read afresh after the answer
    have hlater := h.later_withHandlerList n list
    refine ⟨hlater, ?_⟩
    rintro u handlers ⟨hu, -⟩
    refine Dialogue.Keeps.mono (ih _ _ hu.later.wellFormed) ?_
    rintro v r ⟨hv, hvpins, hresult⟩
    exact ⟨hlater.trans (hu.later.trans hv), hvpins.trans hu.pins, hresult⟩

/-- Whatever is done to a handler list keeps the contract, a configuration that is asked
    included. -/
theorem respects_onHandlers (h : t.WellFormed may) (hn : t.IsAttached n)
    (use : Program (HandlerList.source Handler) (HandlerList Handler) α) :
    Respects may Any (onHandlers n use) t := by
  have hpin := h.later_pin hn
  exact Respects.pinned_any h hn (keeps_within _ _ hpin.wellFormed)

/-- A look at a handler list keeps the contract. -/
theorem respects_handlers (h : t.WellFormed may) (hn : t.IsAttached n) :
    Respects may Any (handlers n) t := by
  refine Respects.bind (respects_onHandlers h hn _) ?_
  intro u snapshot hu _ _
  exact Respects.pure hu.wellFormed trivial

/-- A replacement, made or refused, only lets the tree grow older. -/
theorem WellFormed.later_compareAndSetHandlers (h : t.WellFormed may) (n : NodeId)
    (expected : NodeSnapshot) (handlers : List Handler) :
    Later may t (t.compareAndSetHandlers n expected handlers).2 := by
  unfold compareAndSetHandlers
  split
  · exact h.later_withHandlerList n _
  · exact h.later_self

/-! ### Records -/

/-- The parent of an attached node is attached. -/
theorem WellFormed.isAttached_of_parent? (h : t.WellFormed may) (hn : t.IsAttached n)
    (hparent : t.parent? n = some m) : t.IsAttached m := by
  obtain ⟨p, hp, hattached⟩ := hn
  obtain ⟨node, hnode, rfl⟩ := place?_eq_some.1 hp
  exact h.shaped.parent_isAttached hp hattached (parent?_of_some hnode hparent)

variable (record : Record)

/-- The question to the filter of a node keeps the contract. -/
theorem respects_ownFilterAccepts (h : t.WellFormed may) (n : NodeId) :
    Respects may Any (ownFilterAccepts n record) t := by
  refine Respects.get_bind ?_
  split
  · exact Respects.pure h trivial
  · refine Respects.ask_bind h ?_
    intro u (verdict : Verdict) hu _
    have hwf := hu.later.wellFormed
    cases verdict with
    | accept => exact Respects.pure hwf trivial
    | reject => exact Respects.pure hwf trivial
    | panic => exact Respects.abort hwf

/-- The walk goes on at the parent, if there is one. -/
theorem respects_climb {run : NodeId → Run α} (a : α) (h : t.WellFormed may) (hn : t.IsAttached n)
    (hrun : ∀ m, t.parent? n = some m → t.IsAttached m → Respects may Any (run m) t) :
    Respects may Any (fun t => match _h : t.parent? n with
      | some m => run m t
      | none => .done t a) t := by
  dsimp only [Respects]
  split
  · rename_i m hparent
    have hm := h.isAttached_of_parent? hn hparent
    exact hrun m hparent hm
  · exact Respects.pure h trivial

/-- The walk along the filters ends at the root at the latest, since parents have smaller
    numbers. -/
theorem respects_acceptsFrom (h : t.WellFormed may) (hn : t.IsAttached n) :
    Respects may Any (acceptsFrom n record) t := by
  induction n using Nat.strongRecOn generalizing t with
  | ind n ih =>
    have hpin := h.later_pin hn
    rw [acceptsFrom]
    refine Respects.pinned_any h hn ?_
    refine Respects.bind (respects_ownFilterAccepts record hpin.wellFormed n) ?_
    intro u accepted hu hpins _
    have hwf := hu.wellFormed
    -- the filter may have done anything but drop a node that is in use
    have hnu := hwf.isAttached_of_pins_eq hpins
    refine Respects.ite ?_ ?_
    · intro _
      refine Respects.get_bind (Respects.ite ?_ ?_)
      · intro _
        refine respects_climb true hwf hnu ?_
        intro m hparent hm
        have hlt : m < n := lt_of_parent? hparent
        exact ih m hlt hwf hm
      · intro _
        exact Respects.pure hwf trivial
    · intro _
      exact Respects.pure hwf trivial

/-- The decision on a record keeps the contract, whichever filters it comes to. -/
theorem respects_accepts (h : t.WellFormed may) (hn : t.IsAttached n) :
    Respects may Any (accepts n record) t := by
  have hpin := h.later_pin hn
  refine Respects.pinned_any h hn (Respects.get_bind ?_)
  refine Respects.bind (respects_ownFilterAccepts record hpin.wellFormed n) ?_
  intro u accepted hu hpins _
  have hwf := hu.wellFormed
  have hnu := hwf.isAttached_of_pins_eq hpins
  refine Respects.ite ?_ ?_
  · intro _
    refine Respects.ite ?_ ?_
    · intro _
      refine Respects.get_bind ?_
      split
      · rename_i m hparent
        have hm := hwf.isAttached_of_parent? hnu hparent
        exact respects_acceptsFrom record hwf hm
      · exact Respects.pure hwf trivial
    · intro _
      exact Respects.pure hwf trivial
  · intro _
    exact Respects.pure hwf trivial

/-- A handler's turn keeps the contract, even if the handler fails or panics. -/
theorem respects_deliver (h : t.WellFormed may) (n : NodeId) (handler : Handler) :
    Respects may Any (deliver n record handler) t := by
  -- the handler and the reporter that is told of its failure may both panic
  have hpanicked : ∀ {u : Tree}, u.WellFormed may → Respects may Any (do
      Program.announce (handlerPanicked ((← get).name n) handler.name)) u := by
    intro u hu
    exact Respects.get_bind (Respects.announce hu)
  refine Respects.ask_bind h ?_
  intro u (delivery : Delivery) hu _
  have hwf := hu.later.wellFormed
  cases delivery with
  | taken => exact Respects.pure hwf trivial
  | panic => exact hpanicked hwf
  | failed failure =>
    refine Respects.ask_bind hwf ?_
    intro v (acknowledgement : Acknowledgement) hv _
    cases acknowledgement with
    | returned => exact Respects.pure hv.later.wellFormed trivial
    | panic => exact hpanicked hv.later.wellFormed

/-- The turns of all handlers, one after the other, keep the contract. -/
theorem respects_deliverAll (h : t.WellFormed may) (n : NodeId) (handlers : List Handler) :
    Respects may Any (deliverAll n record handlers) t := by
  induction handlers generalizing t with
  | nil => exact Respects.pure h trivial
  | cons handler rest ih =>
    refine Respects.bind (respects_deliver record h n handler) ?_
    intro u _ hu _ _
    exact ih hu.wellFormed

/-- The stop of a record at a node keeps the contract. -/
theorem respects_publishOwn (h : t.WellFormed may) (hn : t.IsAttached n) :
    Respects may Any (publishOwn n record) t := by
  refine Respects.bind (respects_handlers h hn) ?_
  intro u view hu _ _
  exact respects_deliverAll record hu.wellFormed n _

/-- The walk along the handlers, which is like that along the filters. -/
theorem respects_publish (h : t.WellFormed may) (hn : t.IsAttached n) :
    Respects may Any (publish n record) t := by
  induction n using Nat.strongRecOn generalizing t with
  | ind n ih =>
    have hpin := h.later_pin hn
    rw [publish]
    refine Respects.pinned_any h hn ?_
    refine Respects.bind (respects_publishOwn record hpin.wellFormed hn) ?_
    intro u _ hu hpins _
    have hwf := hu.wellFormed
    have hnu := hwf.isAttached_of_pins_eq hpins
    refine Respects.get_bind (Respects.ite ?_ ?_)
    · intro _
      refine respects_climb () hwf hnu ?_
      intro m hparent hm
      have hlt : m < n := lt_of_parent? hparent
      exact ih m hlt hwf hm
    · intro _
      exact Respects.pure hwf trivial

/-- A log call keeps the contract, and holds its node as long as it lasts. -/
theorem respects_log (h : t.WellFormed may) (hn : t.IsAttached n) :
    Respects may Any (log n record) t := by
  have hpin := h.later_pin hn
  refine Respects.pinned_any h hn (Respects.get_bind (Respects.ite ?_ ?_))
  · intro _
    refine Respects.bind (respects_accepts _ hpin.wellFormed hn) ?_
    intro u _ hu hpins _
    have hnu := hu.wellFormed.isAttached_of_pins_eq hpins
    refine Respects.ite ?_ ?_
    · intro _
      refine Respects.bind (respects_publish _ hu.wellFormed hnu) ?_
      intro v _ hv _ _
      exact Respects.pure hv.wellFormed trivial
    · intro _
      exact Respects.pure hu.wellFormed trivial
  · intro _
    exact Respects.pure hpin.wellFormed trivial

/-! ### Removal -/

/-- A node stays idle while nothing but references is copied or given up. -/
theorem Calm.isIdle (h : Calm t u) (hpins : u.pins = t.pins) (hidle : t.isIdle n = true) :
    u.isIdle n = true := by
  obtain ⟨node, hnode, hparent, hattached, hfree, hchildless, hstate⟩ := isIdle_iff.1 hidle
  obtain ⟨hnodes, hheld⟩ := h
  have hnode' : u.node? n = some node := by
    unfold node? at hnode ⊢
    rw [hnodes]
    exact hnode
  have hchildless' : u.children n = [] := by
    unfold children isChild node? at hchildless ⊢
    rw [hnodes]
    exact hchildless
  have hfree' : u.isReferenced n = false := by
    rw [Bool.eq_false_iff] at hfree ⊢
    intro hreferenced
    apply hfree
    rw [isReferenced_iff] at hreferenced ⊢
    rw [hpins] at hreferenced
    exact hreferenced.imp_left (hheld n)
  exact isIdle_iff.2 ⟨node, hnode', hparent, hattached, hfree', hchildless', hstate⟩

/-- While the handlers of an idle node are looked at, it stays idle. -/
theorem respects_handlersReproducible (h : t.WellFormed may) (hidle : t.isIdle n = true) :
    Respects may (fun u _ => u.isIdle n = true) (handlersReproducible n) t := by
  refine Respects.get_bind (Respects.ite ?_ ?_)
  · intro _
    refine Respects.ite ?_ ?_
    · intro _
      refine Respects.get_bind (Respects.ask_bind h ?_)
      intro u handlers hu _
      -- the question is one from which no operation is started
      have hcalm : Calm t u := hu.calm rfl
      exact Respects.pure hu.later.wellFormed (hcalm.isIdle hu.pins hidle)
    · intro _
      exact Respects.pure h hidle
  · intro _
    exact Respects.pure h hidle

/-- The turn of a node keeps the contract: it is detached only while it is idle. -/
theorem respects_pruneNode (h : t.WellFormed may) (n : NodeId) :
    Respects may Any (pruneNode n) t := by
  refine Respects.get_bind (Respects.ite ?_ ?_)
  · intro hidle
    refine Respects.bind (respects_handlersReproducible h hidle) ?_
    intro u _ hu _ hidle
    refine Respects.ite ?_ ?_
    · intro _
      have hdetach := hu.wellFormed.later_detach hidle
      refine Respects.get_bind (Respects.set_bind hdetach rfl ?_)
      exact Respects.announce_bind (Respects.pure hdetach.wellFormed trivial)
    · intro _
      exact Respects.pure hu.wellFormed trivial
  · intro _
    exact Respects.pure h trivial

/-- The turns of all nodes keep the contract, in any order. -/
theorem respects_pruneNodes (h : t.WellFormed may) (order : List NodeId) :
    Respects may Any (pruneNodes order) t := by
  induction order generalizing t with
  | nil => exact Respects.pure h trivial
  | cons n rest ih =>
    refine Respects.bind (respects_pruneNode h n) ?_
    intro u _ hu _ _
    refine Respects.bind (ih hu.wellFormed) ?_
    intro v _ hv _ _
    exact Respects.pure hv.wellFormed trivial

/-- A pruning keeps the contract. -/
theorem respects_prune (h : t.WellFormed may) : Respects may Any prune t := by
  refine Respects.get_bind (Respects.bind (respects_pruneNodes h _) ?_)
  intro u removed hu _ _
  exact Respects.announce_bind (Respects.pure hu.wellFormed trivial)

end LoggerHierarchy.Tree
