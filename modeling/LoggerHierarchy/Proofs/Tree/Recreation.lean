import LoggerHierarchy.Proofs.Tree.Removal

namespace LoggerHierarchy.Tree

/-!
# Removed nodes made again

What a look-up that follows a pruning makes of the removed nodes, while the answers of the
configuration never change:

* `Resembles` — two nodes that show no difference but in their levels;
* `answeredBy_createChild` — what is made of a missing child;
* `Situation.Reachable.recreated_iff` — a removed node is made again just as it was, apart from its
  levels, and these too unless a level is configured for it or for a removed node above it.
-/

variable {c : Configuration} {t u v w : Tree} {n m d x : NodeId} {node : Node} {p : Place}
  {segment : String} {path : List String} {gone : List NodeId} {answer : (q : Question) → q.Answer}

/-- A removable node has no level of its own. -/
theorem Removable.level_eq_none (h : t.Removable answer n) (node : Node)
    (hnode : t.node? n = some node) : node.level = none := by
  obtain ⟨other, hother, -, -, hlevel, -⟩ := h.2.2 n .refl
  rw [hnode, Option.some.injEq] at hother
  rw [hother, hlevel]

/-- All that is below a removable node is removable. -/
theorem Removable.of_inSubtree (hn : t.Removable answer n) (h : t.Shaped)
    (hd : t.InSubtree n d) : t.Removable answer d := by
  induction hd with
  | refl => exact hn
  | tail _ hstep ih => exact (h.removable_iff.1 ih).2.2.2 _ hstep

/-- No segment of the tree has a dot. -/
theorem Shaped.undotted_of_link (h : t.Shaped) (hx : t.Link n segment x) :
    '.' ∉ segment.toList := by
  obtain ⟨p, hp, -, -, rfl⟩ := hx
  exact h.undotted hp

/-! ### A missing child -/

/-- The child that a configuration makes of a segment. -/
def Configuration.child (c : Configuration) (t : Tree) (n : NodeId) (segment : String) : Node :=
  t.childNode n segment (c.minimum (t.childName n segment)) (c.level (t.childName n segment))

/-- The child that a configuration makes keeps the tree well-formed. -/
theorem WellFormed.later_child (h : v.WellFormed c.Allows) (hm : v.IsAttached m)
    (hfree : v.child? m segment = none) (hdots : '.' ∉ segment.toList) :
    Later c.Allows v (v.insert (c.child v m segment)) :=
  h.later_insert hm hfree hdots (show c.Allows (.minimum _) (c.minimum _) from rfl) _

/-- It is found under the next free id. -/
theorem place?_child (c : Configuration) (v : Tree) (m : NodeId) (segment : String) :
    (v.insert (c.child v m segment)).place? v.nodes.size = some (c.child v m segment).place :=
  (place?_insert _ _ _).trans (if_pos rfl)

/-- What is made of a missing child. -/
theorem answeredBy_createChild (h : v.WellFormed c.Allows) (hm : v.IsAttached m)
    (hfree : v.child? m segment = none) (hdots : '.' ∉ segment.toList) :
    (createChild m segment v).answeredBy c.answer =
      (v.insert (c.child v m segment), some v.nodes.size) := by
  have hresync := (h.later_child hm hfree hdots).wellFormed.resync_eq
    ⟨_, place?_child c v m segment, rfl⟩
  rw [createChild_eq, Dialogue.answeredBy_ask, Dialogue.answeredBy_ask]
  simp only [hfree]
  -- the new node is in step with its parent already
  change ((v.insert (c.child v m segment)).resync v.nodes.size, some v.nodes.size) = _
  rw [hresync]

/-! ### A removed child, made again -/

/-- Whether `m` is to the tree `v` what `n` is to `t`, as far as their children are concerned. -/
structure Stands (t : Tree) (n : NodeId) (v : Tree) (m : NodeId) : Prop where
  name : v.name m = t.name n
  minimum : v.minimum m = t.minimum n
  isRoot : m = root ↔ n = root

/-- Whether `m` is what a configuration makes anew of the node `n`. -/
structure Remade (c : Configuration) (t : Tree) (n : NodeId) (v : Tree) (m : NodeId) : Prop where
  stands : Stands t n v m
  fresh : ∃ node, v.node? m = some node ∧ node.level = c.level (t.name n) ∧ node.filter = none ∧
    node.useParentFilters = false ∧ node.useParentHandlers = true ∧ node.handlers = .unset ∧
    node.attachments = .empty Node.attachmentCapacity

/-- A reference that is taken makes no difference to a node that still stands. -/
theorem Stands.pin (h : Stands t n v m) (k : NodeId) : Stands t n (v.pin k) m :=
  ⟨h.name, h.minimum, h.isRoot⟩

/-- A reference that is given up makes no difference to a node that was made again. -/
theorem Remade.unpin (h : Remade c t n v m) (k : NodeId) : Remade c t n (v.unpin k) m :=
  ⟨⟨h.stands.name, h.stands.minimum, h.stands.isRoot⟩, h.fresh⟩

/-- A child that is made again has its name again. -/
theorem Stands.childName_eq (h : Stands t n v m) (ht : t.Shaped) (hv : v.Shaped)
    (hm : v.IsAttached m) (hx : t.Link n segment x) : v.childName m segment = t.name x := by
  obtain ⟨p, hp, hattached, hparent, rfl⟩ := hx
  obtain ⟨q, hq, -⟩ := hm
  obtain ⟨-, r, hr, hname, -⟩ := ht.parent_place? hp hparent
  obtain ⟨above, habove, rfl⟩ := place?_eq_some.1 hr
  obtain ⟨below, hbelow, rfl⟩ := place?_eq_some.1 hp
  obtain ⟨other, hother, rfl⟩ := place?_eq_some.1 hq
  have hsame : other.name = above.name := by
    simpa [Tree.name, hother, habove] using h.name
  have hbelowName : t.name x = below.place.name := by simp [Tree.name, hbelow, Node.place]
  have hroot : decide (m = root) = decide (n = root) := by simp [h.isRoot]
  rw [hv.childName_eq hq, hbelowName, hname, hroot]
  show Name.child _ other.name _ = Name.child _ above.name _
  rw [hsame]

/-- A removable child is made again under a node that stands for its parent. -/
theorem Stands.remade (h : Stands t n v m) (ht : t.WellFormed c.Allows) (hv : v.WellFormed c.Allows)
    (hm : v.IsAttached m) (hx : t.Link n segment x) :
    Remade c t x (v.insert (c.child v m segment)) v.nodes.size := by
  have hname := h.childName_eq ht.shaped hv.shaped hm hx
  have hnode : (v.insert (c.child v m segment)).node? v.nodes.size = some (c.child v m segment) :=
    (node?_insert _ _ _).trans (if_pos rfl)
  obtain ⟨p, hp, hattached, hparent, rfl⟩ := hx
  obtain ⟨q, hq, -⟩ := hm
  refine ⟨⟨?_, ?_, ?_⟩, c.child v m p.segment, hnode, ?_, rfl, rfl, rfl, rfl, rfl⟩
  · rw [Tree.name, hnode]
    exact hname
  · -- the floor of both was answered for their common name, or is that of their parent
    obtain ⟨answer, hanswer, hfloor⟩ := ht.floored hp
    obtain ⟨below, hbelow, rfl⟩ := place?_eq_some.1 hp
    have hbelowName : t.name x = below.place.name := by simp [Tree.name, hbelow, Node.place]
    have hconfigured : answer = c.minimum below.place.name := hanswer
    have hminimum : t.minimum x = below.place.minimum := by
      simp [Tree.minimum, hbelow, Node.place]
    rw [hminimum, hfloor, hparent, hconfigured, Tree.minimum, hnode]
    simp [Configuration.child, childNode, hname, hbelowName, h.minimum]
  · -- neither node is the root: the one was made after `m`, the other after its parent
    have hsize : v.nodes.size ≠ root := Nat.ne_of_gt (Nat.zero_lt_of_lt (lt_size_of_place? hq))
    have hxroot : x ≠ root := Nat.ne_of_gt (Nat.zero_lt_of_lt (ht.shaped.parent_lt hp hparent))
    simp [hsize, hxroot]
  · simp [Configuration.child, childNode, hname]

/-- Without a level of its own, neither set nor configured, a child that is made again inherits what
    it inherited before. -/
theorem Stands.effective_eq (h : Stands t n v m) (ht : t.WellFormed c.Allows)
    (hv : v.WellFormed c.Allows) (hm : v.IsAttached m) (hfree : v.child? m segment = none)
    (hx : t.Link n segment x) (hunset : ∀ node, t.node? x = some node → node.level = none)
    (hunlisted : c.level (t.name x) = none) (heffective : v.effective m = t.effective n) :
    (v.insert (c.child v m segment)).effective v.nodes.size = t.effective x := by
  have hname := h.childName_eq ht.shaped hv.shaped hm hx
  have hfloor := (h.remade ht hv hm hx).stands.minimum
  have hnode : (v.insert (c.child v m segment)).node? v.nodes.size = some (c.child v m segment) :=
    (node?_insert _ _ _).trans (if_pos rfl)
  have hlevel : (c.child v m segment).level = none := by
    simp [Configuration.child, childNode, hname, hunlisted]
  obtain ⟨p, hp, hattached, hparent, rfl⟩ := hx
  obtain ⟨node, hbelow, rfl⟩ := place?_eq_some.1 hp
  obtain ⟨q, hq, -⟩ := id hm
  have hlater := hv.later_child hm hfree (ht.shaped.undotted hp)
  have hnew := hlater.wellFormed.effective_of_inherits hnode rfl hlevel rfl
  have hold := ht.effective_of_inherits hbelow hattached (hunset node hbelow) hparent
  rw [hnew, hold, effective_insert _ hq, hfloor, heffective]

/-- One step of a look-up where the next child is missing. -/
theorem answeredBy_followOrCreate_cons {r : NodeId} (h : v.WellFormed c.Allows)
    (hm : v.IsAttached m) (hfree : v.child? m segment = none) (hdots : '.' ∉ segment.toList)
    (hrest : (followOrCreate v.nodes.size path
      ((v.pin m).insert (c.child (v.pin m) m segment))).answeredBy c.answer = (w, some r)) :
    (followOrCreate m (segment :: path) v).answeredBy c.answer = (w.unpin m, some r) := by
  have hfreePin : (v.pin m).child? m segment = none := hfree
  have hcreate := answeredBy_createChild (h.later_pin hm).wellFormed hm hfreePin hdots
  have hrun := (Dialogue.answeredBy_bind (k := fun s a => followOrCreate a path s) hcreate).trans
    hrest
  rw [followOrCreate_cons_of_free hfree, Dialogue.answeredBy_ensure, hrun]

/-- A node that was just made has no children. -/
theorem child?_insert_size (h : (v.insert node).Shaped) (segment : String) :
    (v.insert node).child? v.nodes.size segment = none := by
  rw [child?_eq_none_iff]
  rintro x ⟨p, hp, -, hparent, -⟩
  have hlt : v.nodes.size < x := h.parent_lt hp hparent
  have hsize : x < (v.insert node).nodes.size := lt_size_of_place? hp
  rw [insert, Array.size_push] at hsize
  exact absurd hlt (Nat.not_lt_of_le (Nat.le_of_lt_succ hsize))

/-- A path of removable nodes is made again. -/
theorem answeredBy_followOrCreate_fresh (ht : t.WellFormed c.Allows) (hv : v.WellFormed c.Allows)
    (hm : v.IsAttached m) (hstands : Stands t n v m) (hx : t.Link n segment x)
    (hremovable : t.Removable c.answer x) (hfree : v.child? m segment = none)
    (hfind : t.find? x path = some d) :
    ∃ w r, (followOrCreate m (segment :: path) v).answeredBy c.answer = (w, some r) ∧
      Remade c t d w r ∧ (v.effective m = t.effective n →
        (∀ y, t.InSubtree x y → t.InSubtree y d → c.level (t.name y) = none) →
          w.effective r = t.effective d) := by
  induction path generalizing v m n x segment with
  | nil =>
    obtain rfl : x = d := by simpa using hfind
    have hdots := ht.shaped.undotted_of_link hx
    have hpin := hv.later_pin hm
    have hstands := hstands.pin m
    have hremade := hstands.remade ht hpin.wellFormed hm hx
    refine ⟨_, _, answeredBy_followOrCreate_cons hv hm hfree hdots rfl, hremade.unpin m, ?_⟩
    intro heffective hunlisted
    have hunlistedX := hunlisted x .refl .refl
    exact hstands.effective_eq ht hpin.wellFormed hm hfree hx hremovable.level_eq_none hunlistedX
      heffective
  | cons next rest ih =>
    have hxd : t.InSubtree x d := inSubtree_of_find? hfind
    rw [find?_cons, Option.bind_eq_some_iff] at hfind
    obtain ⟨y, hy, hfind⟩ := hfind
    have hdots := ht.shaped.undotted_of_link hx
    have hpin := hv.later_pin hm
    have hstands := hstands.pin m
    -- the new node stands for `x` in what is left of the path
    have hchild := hpin.wellFormed.later_child hm hfree hdots
    have hnew : ((v.pin m).insert (c.child (v.pin m) m segment)).IsAttached v.nodes.size :=
      ⟨_, place?_child c (v.pin m) m segment, rfl⟩
    have hremade := hstands.remade ht hpin.wellFormed hm hx
    have hxy := (link_of_child? hy).isChild
    have hremovableY : t.Removable c.answer y :=
      (ht.shaped.removable_iff.1 hremovable).2.2.2 y hxy
    have hchildless := child?_insert_size hchild.wellFormed.shaped next
    obtain ⟨w, r, hrun, hdone, hend⟩ := ih hchild.wellFormed hnew hremade.stands
      (link_of_child? hy) hremovableY hchildless hfind
    refine ⟨_, _, answeredBy_followOrCreate_cons hv hm hfree hdots hrun, hdone.unpin m, ?_⟩
    intro heffective hunlisted
    refine hend ?_ ?_
    · have hunlistedX := hunlisted x .refl hxd
      exact hstands.effective_eq ht hpin.wellFormed hm hfree hx hremovable.level_eq_none
        hunlistedX heffective
    · intro z hyz hzd
      have hxz : t.InSubtree x z := inSubtree_iff.2 (.inr ⟨y, hxy, hyz⟩)
      exact hunlisted z hxz hzd

/-! ### A look-up after a pruning -/

/-- One step of a look-up where the next child exists. -/
theorem answeredBy_followOrCreate_of_child {r : NodeId} (hchild : v.child? m segment = some x)
    (hrest : (followOrCreate x path (v.pin m)).answeredBy answer = (w, some r)) :
    (followOrCreate m (segment :: path) v).answeredBy answer = (w.unpin m, some r) := by
  rw [followOrCreate_cons_of_child hchild, Dialogue.answeredBy_ensure, hrest]

/-- Without the removable nodes, a link is one between nodes that are left. -/
theorem link_of_without (hnode : ∀ x, v.node? x = (t.without gone).node? x) :
    v.Link n segment x ↔ t.Link n segment x ∧ x ∉ gone := by
  unfold Link place?
  rw [hnode, node?_without]
  cases t.node? x with
  | none => simp
  | some node =>
    by_cases hx : x ∈ gone
    · simp [hx, Node.place]
    · simp [hx, Node.place]

/-- A look-up that once led to a node makes it again after it was removed. -/
theorem answeredBy_followOrCreate_removed (ht : t.WellFormed c.Allows) (hv : v.WellFormed c.Allows)
    (hgone : ∀ n, n ∈ gone ↔ t.Removable c.answer n)
    (hnode : ∀ x, v.node? x = (t.without gone).node? x) (hn : v.IsAttached n)
    (hfind : t.find? n path = some d) (hd : d ∈ gone) :
    ∃ w r, (followOrCreate n path v).answeredBy c.answer = (w, some r) ∧
      Remade c t d w r ∧ ((∀ y ∈ gone, t.InSubtree y d → c.level (t.name y) = none) →
        w.effective r = t.effective d) := by
  -- what is attached in `v` is among the nodes that were kept
  have hkept : ∀ {x}, v.IsAttached x → x ∉ gone := by
    rintro x ⟨p, hp, hattached⟩
    rw [place?, hnode] at hp
    exact (isAttached_without.1 ⟨p, hp, hattached⟩).2
  -- along the path: first through nodes that were kept, then only through removed ones
  induction path generalizing n v with
  | nil =>
    obtain rfl : n = d := by simpa using hfind
    exact absurd hd (hkept hn)
  | cons segment rest ih =>
    rw [find?_cons, Option.bind_eq_some_iff] at hfind
    obtain ⟨x, hx, hfind⟩ := hfind
    have hlink := link_of_child? hx
    by_cases hgoneX : x ∈ gone
    · -- from here on all nodes of the path were removed
      have hsame : v.node? n = t.node? n := by
        rw [hnode, node?_without_of_notMem (hkept hn)]
      have hstands : Stands t n v n :=
        ⟨by simp [Tree.name, hsame], by simp [Tree.minimum, hsame], Iff.rfl⟩
      have heffective : v.effective n = t.effective n := by simp [effective, hsame]
      have hfree : v.child? n segment = none := by
        rw [child?_eq_none_iff]
        intro y hy
        obtain ⟨hy, hkeptY⟩ := (link_of_without hnode).1 hy
        obtain rfl := ht.shaped.link_unique hy hlink
        exact hkeptY hgoneX
      have hremovable : t.Removable c.answer x := (hgone x).1 hgoneX
      obtain ⟨w, r, hrun, hdone, hend⟩ :=
        answeredBy_followOrCreate_fresh ht hv hn hstands hlink hremovable hfree hfind
      refine ⟨w, r, hrun, hdone, ?_⟩
      intro hunlisted
      refine hend heffective ?_
      intro y hxy hyd
      have hgoneY : y ∈ gone := (hgone y).2 (hremovable.of_inSubtree ht.shaped hxy)
      exact hunlisted y hgoneY hyd
    -- `x` was kept, and the walk goes on below it
    · have hchild : v.child? n segment = some x :=
        hv.shaped.child?_eq_some_iff.2 ((link_of_without hnode).2 ⟨hlink, hgoneX⟩)
      have hpin := hv.later_pin hn
      have hxv : v.IsAttached x := (link_of_child? hchild).isAttached
      obtain ⟨w, r, hrun, hdone, hend⟩ := ih hpin.wellFormed hnode hxv hfind hkept
      exact ⟨_, _, answeredBy_followOrCreate_of_child hchild hrun, hdone.unpin n, hend⟩

/-! ### What shows of a node -/

/-- The handlers that a node shows, which may ask the configuration. -/
def Configuration.handlersOf (c : Configuration) (t : Tree) (n : NodeId) :
    Option (List Handler) :=
  ((Tree.handlers n t).answeredBy c.answer).2.map (·.snapshot.items)

/-- A use of the handler list of a node ends as it would on the list alone. -/
theorem answeredBy_within {α : Type} {name : String} (hn : ∃ node, t.node? n = some node)
    (use : Dialogue (HandlerList.source Handler) (HandlerList Handler) α) :
    ((use.within (handlerListOf n name) t).answeredBy c.answer).2 =
      (use.answeredBy fun _ => c.handlers name).2 := by
  have hset : ∀ (list : HandlerList Handler) {t : Tree}, (∃ node, t.node? n = some node) →
      (∃ node, (t.withHandlerList n list).node? n = some node) ∧
        (t.withHandlerList n list).handlerList n = list := by
    rintro list t ⟨node, hnode⟩
    have hnode' : (t.withHandlerList n list).node? n = some { node with handlers := list } := by
      rw [withHandlerList, node?_update, if_pos rfl, hnode]
      rfl
    exact ⟨⟨_, hnode'⟩, by simp [handlerList, hnode']⟩
  induction use generalizing t with
  | done | aborted => rfl
  | announce e use ih => exact ih hn
  | ask list q resume ih =>
    obtain ⟨hnext, hlist⟩ := hset list hn
    change (((resume ((t.withHandlerList n list).handlerList n) (c.handlers name)).within
      (handlerListOf n name) (t.withHandlerList n list)).answeredBy c.answer).2 = _
    rw [hlist, ih list (c.handlers name) hnext, Dialogue.answeredBy_ask]

/-- What a fetch of a list shows. -/
theorem items_fetch (list : HandlerList Handler) (items : List Handler) :
    ((HandlerList.fetch list).answeredBy fun _ => items).2.map (·.items) =
      some (match list.current with
        | some snapshot => snapshot.items
        | none => items) := by
  unfold HandlerList.fetch
  cases hcurrent : list.current with
  | some snapshot => rfl
  | none =>
    simp only [Dialogue.answeredBy_ask, Dialogue.answeredBy_announce, hcurrent,
      Dialogue.answeredBy_done, Option.map_some]

/-- The handlers of a node are those it has or, as long as it has none of its own, the configured
    ones. -/
theorem handlersOf_eq (hnode : t.node? n = some node) :
    c.handlersOf t n = some (match node.handlers.current with
      | some snapshot => snapshot.items
      | none => c.handlers node.name) := by
  have hlist : (t.pin n).handlerList n = node.handlers := by
    change ((t.node? n).map (·.handlers)).getD .unset = _
    rw [hnode]
    rfl
  have hname : (t.pin n).name n = node.name := by
    change ((t.node? n).map (·.name)).getD "" = _
    rw [hnode]
    rfl
  -- the look takes a reference to the node for as long as it lasts, which shows nowhere
  have huse : ((onHandlers n HandlerList.fetch t).answeredBy c.answer).2 =
      ((HandlerList.fetch node.handlers).answeredBy fun _ => c.handlers node.name).2 := by
    have hpinned : ∃ node, (t.pin n).node? n = some node := ⟨node, hnode⟩
    rw [← hlist, ← hname, ← answeredBy_within hpinned]
    change (Dialogue.answeredBy c.answer (Dialogue.ensure (·.unpin n) (Dialogue.within
      (handlerListOf n ((t.pin n).name n)) (t.pin n) ((t.pin n).handlerList n).fetch))).2 = _
    rw [Dialogue.answeredBy_ensure]
  have hrun : ((Tree.handlers n t).answeredBy c.answer).2 =
      ((onHandlers n HandlerList.fetch t).answeredBy c.answer).2.map (NodeSnapshot.mk n) :=
    congrArg Prod.snd (Dialogue.answeredBy_bind_done (NodeSnapshot.mk n))
  rw [Configuration.handlersOf, hrun, huse, Option.map_map, ← items_fetch]
  rfl

/-- Whether nothing but their levels tells two nodes apart. -/
structure Resembles (c : Configuration) (t : Tree) (n : NodeId) (v : Tree) (m : NodeId) : Prop where
  name : v.name m = t.name n
  minimum : v.minimum m = t.minimum n
  filter : (v.node? m).map (·.filter) = (t.node? n).map (·.filter)
  useParentFilters : (v.node? m).map (·.useParentFilters) = (t.node? n).map (·.useParentFilters)
  useParentHandlers : (v.node? m).map (·.useParentHandlers) = (t.node? n).map (·.useParentHandlers)
  attachments : (v.node? m).map (·.attachments) = (t.node? n).map (·.attachments)
  handlers : c.handlersOf v m = c.handlersOf t n

/-- Whether nothing tells two nodes apart. -/
structure Indistinguishable (c : Configuration) (t : Tree) (n : NodeId) (v : Tree) (m : NodeId) :
    Prop extends Resembles c t n v m where
  level : (v.node? m).map (·.level) = (t.node? n).map (·.level)
  effective : v.effective m = t.effective n

/-- What is made anew of a removable node resembles it. -/
theorem Remade.resembles (h : Remade c t n v m) (ht : t.Shaped)
    (hn : t.Removable c.answer n) : Resembles c t n v m := by
  obtain ⟨old, hold, -, -, -, hfilter, hparentFilters, hparentHandlers, hsize, hhandlers⟩ :=
    hn.2.2 n .refl
  obtain ⟨new, hnew, -, hnewFilter, hnewParentFilters, hnewParentHandlers, hnewHandlers,
    hnewAttachments⟩ := h.fresh
  -- a node without attachments has the free slots of a new one
  have hattachments : old.attachments = .empty Node.attachmentCapacity := by
    have hempty : old.attachments.isEmpty = true := by simp [Attachments.isEmpty, hsize]
    have hcapacity : old.attachments.capacity = Node.attachmentCapacity :=
      ht.capacity (place?_of_node? hold)
    rw [← hcapacity]
    exact Attachments.eq_empty_of_isEmpty hempty
  have hnames : new.name = old.name := by simpa [Tree.name, hold, hnew] using h.stands.name
  refine ⟨h.stands.name, h.stands.minimum, ?_, ?_, ?_, ?_, ?_⟩
  · simp [hold, hnew, hfilter, hnewFilter]
  · simp [hold, hnew, hparentFilters, hnewParentFilters]
  · simp [hold, hnew, hparentHandlers, hnewParentHandlers]
  · simp [hold, hnew, hattachments, hnewAttachments]
  · rw [handlersOf_eq hold, handlersOf_eq hnew, hnewHandlers, hnames]
    obtain hunset | ⟨hnone, hunlisted⟩ := hhandlers
    · rw [hunset]
      rfl
    · -- none are there, and none are configured
      have hunlisted : c.handlers old.name = [] := hunlisted
      cases hcurrent : old.handlers.current with
      | none => rfl
      | some snapshot =>
        have hitems : snapshot.items = [] := by simpa [HandlerList.items, hcurrent] using hnone
        simp [HandlerList.unset, hunlisted, hitems]

/-! ### After every pruning -/

/-- Whether every look-up that led to a node of `t` leads in `u` to a node as `post` says. -/
def MadeAgain (c : Configuration) (t u : Tree) (n : NodeId) (post : Tree → NodeId → Prop) : Prop :=
  ∀ start name, u.contains start = true → t.getIfExists start name = some n →
    ∃ v m, (getOrCreate start name u).answeredBy c.answer = (v, some m) ∧ post v m

/-- Every attached node is found by a name. -/
theorem Shaped.exists_name (h : t.Shaped) (hn : t.IsAttached n) :
    ∃ name, t.getIfExists root name = some n := by
  refine ⟨Name.closed (t.path n), ?_⟩
  rw [getIfExists, Name.segments_closed (h.undotted_path n)]
  exact h.find?_path hn

/-- What every look-up of a removed node makes again. -/
theorem WellFormed.madeAgain (ht : t.WellFormed c.Allows)
    (hgone : ∀ n, n ∈ gone ↔ t.Removable c.answer n) (hn : n ∈ gone) :
    MadeAgain c t (t.without gone) n fun v m => Resembles c t n v m ∧
      (v.node? m).map (·.level) = some (c.level (t.name n)) ∧
      ((∀ a ∈ gone, t.InSubtree a n → c.level (t.name a) = none) →
        Indistinguishable c t n v m) := by
  intro start name hstart hfind
  have hlater := ht.later_without (ht.shaped.droppable hgone)
  have hremovable := (hgone n).1 hn
  obtain ⟨v, m, hrun, hremade, heffective⟩ := answeredBy_followOrCreate_removed ht
    hlater.wellFormed hgone (fun _ => rfl) (hlater.wellFormed.shaped.contains_iff.1 hstart) hfind hn
  have hresembles := hremade.resembles ht.shaped hremovable
  have hlevel : (v.node? m).map (·.level) = some (c.level (t.name n)) := by
    obtain ⟨new, hnew, hlevel, -⟩ := hremade.fresh
    rw [hnew, ← hlevel]
    rfl
  refine ⟨v, m, hrun, hresembles, hlevel, ?_⟩
  intro hunlisted
  refine ⟨hresembles, ?_, heffective hunlisted⟩
  obtain ⟨old, hold, -⟩ := hremovable.2.2 n .refl
  rw [hlevel, hold, hunlisted n hn .refl, Option.map_some, hremovable.level_eq_none old hold]

/-- After a pruning, every name of a removed node leads again to a node that nothing but its levels
    tells from the removed one; it has the level that is configured for it, and is just as the
    removed one was if no level is configured for that or for a removed node above it.  So the
    removed nodes come back as they were iff none of them has a level configured. -/
theorem Situation.Reachable.recreated_iff {s : Situation} (h : Reachable c.Allows s) :
    ∃ u removed, (prune s.tree).answeredBy c.answer = (u, some removed) ∧
      (∀ n, s.tree.contains n = true → u.contains n = false →
        (∃ name, s.tree.getIfExists root name = some n) ∧
        MadeAgain c s.tree u n fun v m => Resembles c s.tree n v m ∧
          (v.node? m).map (·.level) = some (c.level (s.tree.name n)) ∧
          ((∀ a, s.tree.contains a = true → u.contains a = false → s.tree.InSubtree a n →
            c.level (s.tree.name a) = none) → Indistinguishable c s.tree n v m)) ∧
      ((∀ n, s.tree.contains n = true → u.contains n = false →
          MadeAgain c s.tree u n (Indistinguishable c s.tree n)) ↔
        ∀ n, s.tree.contains n = true → u.contains n = false →
          c.level (s.tree.name n) = none) := by
  have hwf := h.wellFormed
  obtain ⟨gone, hrun, -, hgone⟩ :=
    answeredBy_pruneNodes c.answer hwf.shaped hwf.shaped.childrenFirst_reverse
  have hremoved : ∀ n, s.tree.contains n = true → (s.tree.without gone).contains n = false →
      n ∈ gone := fun n hn hnot => (mem_removed_iff hwf hgone).2 ⟨hn, hnot⟩
  have hwas : ∀ n ∈ gone, s.tree.contains n = true :=
    fun n hn => ((mem_removed_iff hwf hgone).1 hn).1
  have hnot : ∀ n ∈ gone, (s.tree.without gone).contains n = false :=
    fun n hn => ((mem_removed_iff hwf hgone).1 hn).2
  refine ⟨s.tree.without gone, gone.length, answeredBy_prune hrun, ?_, ?_, ?_⟩
  · intro n hn hnone
    refine ⟨hwf.shaped.exists_name (hwf.shaped.contains_iff.1 hn), ?_⟩
    intro start name hstart hfind
    obtain ⟨v, m, hmade, hresembles, hlevel, hend⟩ :=
      hwf.madeAgain hgone (hremoved n hn hnone) start name hstart hfind
    refine ⟨v, m, hmade, hresembles, hlevel, ?_⟩
    intro hunlisted
    refine hend ?_
    intro a ha han
    exact hunlisted a (hwas a ha) (hnot a ha) han
  · intro hsame n hn hnone
    -- made again with its configured level, the node has none, as before
    obtain ⟨name, hfind⟩ := hwf.shaped.exists_name (hwf.shaped.contains_iff.1 hn)
    have hshaped := (hwf.later_without (hwf.shaped.droppable hgone)).wellFormed.shaped
    have hroot := hshaped.contains_iff.2 hshaped.root_isAttached
    obtain ⟨v, m, hmade, hlike⟩ := hsame n hn hnone root name hroot hfind
    obtain ⟨v', m', hmade', -, hlevel, -⟩ :=
      hwf.madeAgain hgone (hremoved n hn hnone) root name hroot hfind
    obtain ⟨rfl, rfl⟩ : v = v' ∧ m = m' := by simpa using hmade.symm.trans hmade'
    have hremovable := (hgone n).1 (hremoved n hn hnone)
    obtain ⟨old, hold, -⟩ := hremovable.2.2 n .refl
    have hboth := hlevel.symm.trans hlike.level
    rw [hold, Option.map_some, hremovable.level_eq_none old hold] at hboth
    exact Option.some.inj hboth
  · intro hunlisted n hn hnone start name hstart hfind
    obtain ⟨v, m, hmade, -, -, hend⟩ :=
      hwf.madeAgain hgone (hremoved n hn hnone) start name hstart hfind
    refine ⟨v, m, hmade, hend ?_⟩
    intro a ha _
    exact hunlisted a (hwas a ha) (hnot a ha)

/-- A configuration with one level. -/
def Configuration.debugging : Configuration where
  level name := if name = "a" then some .debug else none

/-- A tree in which this level was cleared, and the reference to its node given up. -/
def clearedTree : Tree :=
  (((Situation.initial .debugging).after .debugging (.getOrCreate root "a")).after .debugging
    (.setLevel 1 none)).tree.release 1

/-- A node whose configured level was cleared comes back with it. -/
theorem cleared_level_returns :
    ∃ u v m, (prune clearedTree).answeredBy Configuration.debugging.answer = (u, some 1) ∧
      (getOrCreate root "a" u).answeredBy Configuration.debugging.answer = (v, some m) ∧
      (clearedTree.node? 1).map (·.level) = some none ∧
      (v.node? m).map (·.level) = some (some .debug) := by
  have hcreated := (Situation.reachable_initial .debugging).after (.getOrCreate root "a")
    (.inr ⟨rfl, rfl⟩) rfl
  have hcleared := hcreated.after (.setLevel 1 none) (.inl (by decide +kernel)) (by decide +kernel)
  -- which node is removed is computed; that it comes back with its level is the general theorem
  obtain ⟨u, removed, hrun, hagain, -⟩ :=
    Situation.Reachable.recreated_iff (hcleared.step (.drop 1))
  have hrun : (prune clearedTree).answeredBy Configuration.debugging.answer = (u, some removed) :=
    hrun
  have hcount : ((prune clearedTree).answeredBy Configuration.debugging.answer).2 = some 1 := by
    decide +kernel
  have hgone : ((prune clearedTree).answeredBy Configuration.debugging.answer).1.contains 1 =
      false := by
    decide +kernel
  have hroot : ((prune clearedTree).answeredBy Configuration.debugging.answer).1.contains root =
      true := by
    decide +kernel
  rw [hrun] at hcount hgone hroot
  have hremoved : some removed = some 1 := hcount
  obtain ⟨v, m, hmade, -, hlevel, -⟩ := (hagain 1 (by decide +kernel) hgone).2 root "a" hroot
    (by decide +kernel)
  have hname : clearedTree.name 1 = "a" := by decide +kernel
  refine ⟨u, v, m, hremoved ▸ hrun, hmade, by decide +kernel, hlevel.trans ?_⟩
  exact congrArg (fun name => some (Configuration.debugging.level name)) hname

end LoggerHierarchy.Tree
