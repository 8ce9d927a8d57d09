import LoggerHierarchy.Proofs.Tree.History
import LoggerHierarchy.Proofs.Tree.Thresholds

namespace LoggerHierarchy.Tree

/-!
# How far a setting reaches

What setting or clearing the level of a node changes, and what it leaves alone:

* `Reaches` — the nodes that a new effective level of a node can reach: itself, and what is below it
  with no level of its own at any node from there up to it;
* `reaches_of_handedDown` — it is handed down to no other nodes;
* `WellFormed.withLevel_withLevel` — setting a level again changes nothing;
* `Resets` — all that a setting does to a tree; `WellFormed.resets_withLevel` — no more than this;
* `Situation.Reachable.setLevel_resets` — so it is in every run of an open context.
-/

variable {may : Answers} {t u : Tree} {n m c d p : NodeId} {node old new : Node}
  {level : Option Level} {value severity : Int32}

/-! ### Where a change arrives -/

/-- Whether a new effective level of `n` can reach `d`: no node has a level of its own from below
    `n` down to `d`. -/
structure Reaches (t : Tree) (n d : NodeId) : Prop where
  below : t.InSubtree n d
  unset {m : NodeId} {node : Node} : t.InSubtree n m → t.InSubtree m d → m ≠ n →
    t.node? m = some node → node.level = none

/-- Whatever is set at a node reaches the node itself. -/
theorem Shaped.reaches_self (h : t.Shaped) (n : NodeId) : t.Reaches n n where
  below := .refl
  unset hnm hmn hne := by
    have heq := Nat.le_antisymm (h.le_of_inSubtree hmn) (h.le_of_inSubtree hnm)
    exact absurd heq hne

/-- A change that reaches a node reaches its children without a level of their own. -/
theorem Reaches.child (h : t.Reaches n p) (hc : t.isChild p c = true)
    (hnode : t.node? c = some node) (hlevel : node.level = none) : t.Reaches n c where
  below := h.below.tail hc
  unset {m other} hnm hmc hne hother := by
    obtain rfl | hmp := (Shaped.inSubtree_child_iff hc).1 hmc
    · obtain rfl := Option.some.inj (hnode.symm.trans hother)
      exact hlevel
    · exact h.unset hnm hmp hne hother

/-- A change that reaches a child has reached its parent, and found no level at the child. -/
theorem Reaches.parent (h : t.Reaches n c) (hnp : t.InSubtree n p) (hc : t.isChild p c = true) :
    t.Reaches n p where
  below := hnp
  unset hnm hmp := h.unset hnm (hmp.tail hc)

/-- A new effective level of `n` is handed down to no node that it cannot reach.  The level of `n`
    itself does not count. -/
theorem reaches_of_handedDown (h : t.Shaped) (hrest : ∀ m, m ≠ n → u.node? m = t.node? m)
    (hvalue : u.handedDown n value c = some severity) : t.Reaches n c := by
  -- what a node takes over its parent took over, which was made before it
  induction c using Nat.strongRecOn generalizing severity with
  | ind c ih =>
    by_cases hc : c = n
    · rw [hc]
      exact h.reaches_self n
    · rw [handedDown, if_neg hc, hrest c hc] at hvalue
      cases hnode : t.node? c with
      | none => simp [hnode] at hvalue
      | some node =>
        cases hparent : node.parent? with
        | none => simp [hnode, hparent] at hvalue
        | some p =>
          obtain ⟨hlt, -⟩ := h.parent_node? hnode hparent
          simp only [hnode, hparent, hlt, if_true, Bool.and_eq_true,
            Option.isNone_iff_eq_none] at hvalue
          split at hvalue
          · rename_i hfree
            obtain ⟨above, habove, -⟩ := Option.map_eq_some_iff.1 hvalue
            have hchild : t.isChild p c = true :=
              isChild_iff.2 ⟨_, place?_of_node? hnode, hfree.1, hparent⟩
            exact (ih p hlt habove).child hchild hnode hfree.2
          · exact absurd hvalue (by simp)

/-! ### What a setting does -/

/-- No node comes or goes when a level is set. -/
theorem size_withLevel (t : Tree) (n : NodeId) (level : Option Level) :
    (t.withLevel n level).nodes.size = t.nodes.size := by
  cases hnode : t.node? n with
  | none => rw [withLevel_of_none hnode]
  | some node =>
    by_cases hsame : max node.minimum (t.settled n level).2 = node.effective
    · simp [withLevel_of_eq hnode hsame, update]
    · simp [withLevel_of_ne hnode hsame, handDown, update]

/-- A setting makes no node. -/
theorem node?_withLevel_of_none (level : Option Level) (hnone : t.node? m = none) :
    (t.withLevel n level).node? m = none := by
  have hplace := place?_withLevel t n level m
  simpa [place?, hnone] using hplace

/-- A setting stores a level at its node, changes effective levels where it reaches, and leaves all
    else about a node as it is. -/
theorem Shaped.node?_withLevel (h : t.Shaped) (hnode : t.node? n = some node)
    (hold : t.node? m = some old) (level : Option Level) : ∃ effective,
      (t.withLevel n level).node? m = some { old with
        level := if m = n then (t.settled n level).1 else old.level, effective } ∧
      (effective ≠ old.effective → t.Reaches n m) ∧
      (m = n → effective = max node.minimum (t.settled n level).2) := by
  by_cases hsame : max node.minimum (t.settled n level).2 = node.effective
  · -- the level is just stored, and calls for what is there
    rw [withLevel_of_eq hnode hsame]
    refine ⟨old.effective, by rw [node?_update_level, hold]; rfl, fun hne => absurd rfl hne, ?_⟩
    rintro rfl
    rw [hsame, Option.some.inj (hold.symm.trans hnode)]
  · rw [withLevel_of_ne hnode hsame]
    refine ⟨_, (node?_handDown _ n _ m).trans (by rw [node?_update_level, hold]; rfl), ?_, ?_⟩
    · intro hne
      have hreached : Tree.handedDown _ n _ m ≠ none := fun hnone => hne (by rw [hnone]; rfl)
      obtain ⟨value, hvalue⟩ := Option.ne_none_iff_exists'.1 hreached
      refine reaches_of_handedDown h ?_ hvalue
      intro k hk
      rw [node?_update, if_neg (Ne.symm hk)]
    · rintro rfl
      rw [handedDown_self, Option.getD_some]

/-- The effective level of a node that was set is the one that its level calls for. -/
theorem Shaped.effective_withLevel_self (h : t.Shaped) (hnode : t.node? n = some node) :
    (t.withLevel n level).effective n = max node.minimum (t.settled n level).2 := by
  obtain ⟨effective, hnew, -, hself⟩ := h.node?_withLevel hnode hnode level
  simp [Tree.effective, hnew, hself rfl]

/-- No effective level changes where a setting does not reach. -/
theorem Shaped.reaches_of_effective_ne (h : t.Shaped)
    (hne : (t.withLevel n level).effective m ≠ t.effective m) : t.Reaches n m := by
  cases hnode : t.node? n with
  | none => exact absurd rfl (by rwa [withLevel_of_none hnode] at hne)
  | some node =>
    cases hold : t.node? m with
    | none => simp [Tree.effective, hold, node?_withLevel_of_none level hold] at hne
    | some old =>
      obtain ⟨effective, hnew, hreach, -⟩ := h.node?_withLevel hnode hold level
      refine hreach ?_
      simpa [Tree.effective, hold, hnew] using hne

/-- A setting is counted iff it changes the effective level of its node, and else changes none. -/
theorem Shaped.counted_withLevel (h : t.Shaped) (hnode : t.node? n = some node) :
    (t.withLevel n level).levelChanges = t.levelChanges +
        (if (t.withLevel n level).effective n = t.effective n then 0 else 1) ∧
      ((t.withLevel n level).effective n = t.effective n →
        ∀ m, (t.withLevel n level).effective m = t.effective m) := by
  have heffective : t.effective n = node.effective := by simp [Tree.effective, hnode]
  rw [h.effective_withLevel_self hnode, heffective]
  by_cases hsame : max node.minimum (t.settled n level).2 = node.effective
  · rw [withLevel_of_eq hnode hsame, if_pos hsame]
    exact ⟨rfl, fun _ => effective_update_level t n _⟩
  · rw [withLevel_of_ne hnode hsame, if_neg hsame]
    exact ⟨rfl, fun heq => absurd heq hsame⟩

/-! ### Setting again -/

/-- In an open tree a setting comes to the same when it is made again. -/
theorem WellFormed.settled_withLevel (h : t.WellFormed may) (hopen : t.isOpen = true)
    (hn : t.IsAttached n) (level : Option Level) :
    (t.withLevel n level).settled n level = t.settled n level := by
  cases level with
  | some level => rfl
  | none =>
    obtain ⟨p, hp, hattached⟩ := hn
    have hplace := place?_withLevel t n none n
    have hshaped := (h.later_withLevel n none).wellFormed.shaped
    have hup : (t.withLevel n none).parent? n = t.parent? n := by
      rw [hshaped.parent?_eq ((isOpen_withLevel t n none).trans hopen) (hplace.trans hp) hattached,
        h.shaped.parent?_eq hopen hp hattached]
    simp only [settled, hup]
    cases hparent : t.parent? n with
    | none => rfl
    | some m =>
      -- the parent is above the node, where no change goes
      have hnot : ¬ t.Reaches n m := fun hreach => by
        have hle := h.shaped.le_of_inSubtree hreach.below
        exact absurd (lt_of_parent? hparent) (Nat.not_lt_of_le hle)
      have hsame : (t.withLevel n none).effective m = t.effective m :=
        not_not.1 (mt h.shaped.reaches_of_effective_ne hnot)
      simp only [hsame]

/-- Storing the level that a node has changes nothing. -/
theorem update_level_self (hnode : t.node? n = some node) :
    (t.update n fun old => { old with level := node.level }) = t := by
  refine ext_nodes rfl fun m => ?_
  rw [node?_update_level]
  cases hm : t.node? m with
  | none => rfl
  | some other =>
    by_cases heq : m = n
    · subst heq
      obtain rfl := Option.some.inj (hnode.symm.trans hm)
      simp
    · simp [heq]

/-- Setting a level again changes nothing. -/
theorem WellFormed.withLevel_withLevel (h : t.WellFormed may) (hopen : t.isOpen = true)
    (hn : t.IsAttached n) (level : Option Level) :
    (t.withLevel n level).withLevel n level = t.withLevel n level := by
  obtain ⟨p, hp, -⟩ := id hn
  obtain ⟨node, hnode, -⟩ := place?_eq_some.1 hp
  obtain ⟨effective, hnew, -, hself⟩ := h.shaped.node?_withLevel hnode hnode level
  have hsettled := h.settled_withLevel hopen hn level
  rw [withLevel_of_eq hnew (by rw [hsettled, hself rfl]), hsettled]
  have hstored := update_level_self hnew
  rwa [if_pos rfl] at hstored

/-! ### In full -/

/-- All that setting or clearing the level of a node does to a tree. -/
structure Resets (t u : Tree) (n : NodeId) (level : Option Level) : Prop where
  /-- References and the count of nodes are as before. -/
  rest : u = { t with nodes := u.nodes, levelChanges := u.levelChanges }
  /-- No node comes or goes. -/
  size : u.nodes.size = t.nodes.size
  /-- All that is said of a node is as before, but for its level and its effective level. -/
  frame {m : NodeId} {node : Node} : t.node? m = some node →
    ∃ level effective, u.node? m = some { node with level, effective }
  own : (u.node? n).map (·.level) =
    some (level.or (if n = root then some .info else none))
  others {m : NodeId} : m ≠ n → (u.node? m).map (·.level) = (t.node? m).map (·.level)
  reach {m : NodeId} : u.effective m ≠ t.effective m → t.Reaches n m
  /-- Where the setting reaches, the effective level is the one of its node, raised to the floors
      on the way. -/
  taken {m : NodeId} : t.Reaches n m → ∀ severity : Int32, u.effective m ≤ severity ↔
    u.effective n ≤ severity ∧
      ∀ k, t.InSubtree n k → t.InSubtree k m → t.minimum k ≤ severity
  counted : u.levelChanges = t.levelChanges + if u.effective n = t.effective n then 0 else 1
  still : u.effective n = t.effective n → ∀ m, u.effective m = t.effective m

/-- The level that a setting leaves at a node of an open tree. -/
theorem Shaped.level_settled (h : t.Shaped) (hopen : t.isOpen = true) (hn : t.IsAttached n) :
    (t.settled n level).1 = level.or (if n = root then some .info else none) := by
  rw [h.settled_eq hopen hn level {} ""]
  cases level with
  | some level => rfl
  | none => simp [Configuration.levelAfter, defaultRootLevel]

/-- Where a setting reaches, its level is taken over, raised to the floors on the way. -/
theorem WellFormed.effective_le_iff_of_reaches (h : t.WellFormed may)
    (hnode : t.node? n = some node) (hreach : t.Reaches n m) :
    (t.withLevel n level).effective m ≤ severity ↔
      (t.withLevel n level).effective n ≤ severity ∧
        ∀ k, t.InSubtree n k → t.InSubtree k m → t.minimum k ≤ severity := by
  obtain ⟨hbelow, hunset⟩ := id hreach
  -- on the way down every node inherits, and adds its floor
  induction hbelow with
  | refl =>
    have hfloor : t.minimum n = node.minimum := by simp [Tree.minimum, hnode]
    rw [h.shaped.forall_between_self, h.shaped.effective_withLevel_self hnode, hfloor,
      severity_max_le_iff]
    tauto
  | @tail p c hnp hc ih =>
    obtain ⟨place, hplace, hattached, hparent⟩ := isChild_iff.1 hc
    obtain ⟨old, hold, rfl⟩ := place?_eq_some.1 hplace
    have hne : c ≠ n := by
      have hle := h.shaped.le_of_inSubtree hnp
      have hlt := h.shaped.lt_of_isChild hc
      exact Nat.ne_of_gt (Nat.lt_of_le_of_lt hle hlt)
    obtain ⟨effective, hnew, -, -⟩ := h.shaped.node?_withLevel hnode hold level
    have hnone : (if c = n then (t.settled n level).1 else old.level) = none := by
      rw [if_neg hne]
      exact hunset (hnp.tail hc) .refl hne hold
    have hinherits := (h.later_withLevel n level).wellFormed.effective_of_inherits hnew hattached
      hnone hparent
    have hfloor : (t.withLevel n level).minimum c = t.minimum c := by
      rw [minimum_eq, minimum_eq, place?_withLevel]
    rw [hinherits, severity_max_le_iff, hfloor, ih (hreach.parent hnp hc)
      fun hnm hmp => hunset hnm (hmp.tail hc), Shaped.forall_between_child hnp hc, and_left_comm]

/-- A setting does to an open tree what `Resets` says. -/
theorem WellFormed.resets_withLevel (h : t.WellFormed may) (hopen : t.isOpen = true)
    (hn : t.IsAttached n) (level : Option Level) : Resets t (t.withLevel n level) n level := by
  obtain ⟨p, hp, -⟩ := id hn
  obtain ⟨node, hnode, -⟩ := place?_eq_some.1 hp
  constructor
  -- either way only nodes and the counter of changes differ
  case rest =>
    by_cases hsame : max node.minimum (t.settled n level).2 = node.effective
    · rw [withLevel_of_eq hnode hsame]
      rfl
    · rw [withLevel_of_ne hnode hsame]
      rfl
  case size => exact size_withLevel t n level
  case frame =>
    intro m old hold
    obtain ⟨effective, hnew, -, -⟩ := h.shaped.node?_withLevel hnode hold level
    exact ⟨_, effective, hnew⟩
  case own =>
    obtain ⟨effective, hnew, -, -⟩ := h.shaped.node?_withLevel hnode hnode level
    rw [hnew, Option.map_some, if_pos rfl, h.shaped.level_settled hopen hn]
  case others =>
    intro m hm
    cases hold : t.node? m with
    | none => rw [node?_withLevel_of_none level hold]
    | some old =>
      obtain ⟨effective, hnew, -, -⟩ := h.shaped.node?_withLevel hnode hold level
      rw [hnew, Option.map_some, if_neg hm, Option.map_some]
  case reach => exact h.shaped.reaches_of_effective_ne
  case taken => exact fun hreach _ => h.effective_le_iff_of_reaches hnode hreach
  case counted => exact (h.shaped.counted_withLevel hnode).1
  case still => exact (h.shaped.counted_withLevel hnode).2

/-! ### In every run -/

/-- The situation after the level of a node was set or cleared. -/
def Situation.setLevel (s : Situation) (n : NodeId) (level : Option Level) : Situation :=
  s.proceed (.setLevel n level) (Operation.call (.setLevel n level) s.tree)

/-- The operation asks nobody, so it ends at once. -/
theorem Situation.setLevel_eq (s : Situation) (n : NodeId) (level : Option Level) :
    s.setLevel n level = { s with
      tree := s.tree.withLevel n level, ended := (.setLevel n level, []) :: s.ended } :=
  proceed_setLevel s n level

/-- Whenever the outside may look at an open context, and whatever waits: setting or clearing the
    level of a node ends at once and does to the tree what `Resets` says, which changes effective
    levels only at the node and where it reaches below, and is counted iff it changes that of the
    node.  To do the same again changes nothing. -/
theorem Situation.Reachable.setLevel_resets {s : Situation} (h : Reachable may s)
    (hopen : s.tree.isOpen = true) (hn : s.tree.contains n = true) (level : Option Level) :
    s.setLevel n level = { s with
      tree := (s.setLevel n level).tree, ended := (.setLevel n level, []) :: s.ended } ∧
    Resets s.tree (s.setLevel n level).tree n level ∧
    ((s.setLevel n level).setLevel n level).tree = (s.setLevel n level).tree := by
  have hn : s.tree.IsAttached n := h.wellFormed.shaped.contains_iff.1 hn
  have hagain := h.wellFormed.withLevel_withLevel hopen hn level
  rw [Situation.setLevel_eq, Situation.setLevel_eq]
  exact ⟨rfl, h.wellFormed.resets_withLevel hopen hn level, hagain⟩

/-- Three nodes one below the other, of which the one in the middle was set. -/
def setBetween : Situation :=
  ((((Situation.initial .floorless).after .floorless (.getOrCreate root "a.b.c")).after .floorless
    (.getOrCreate root "a.b")).after .floorless (.getOrCreate root "a")).after .floorless
      (.setLevel 2 (some .warn))

/-- The highest of the three is set and gets another effective level, which is counted; the lowest
    one does not hear of it. -/
theorem setLevel_above_setBetween :
    let t := (setBetween.setLevel 1 (some .debug)).tree
    t.effective 1 = Level.debug.value ∧ t.levelChanges = setBetween.tree.levelChanges + 1 ∧
      t.effective 3 = setBetween.tree.effective 3 := by
  intro t
  have hreachable : setBetween.Reachable Configuration.floorless.Allows :=
    ((((Situation.reachable_initial .floorless).after (.getOrCreate root "a.b.c") (.inr ⟨rfl, rfl⟩)
      rfl).after (.getOrCreate root "a.b") (.inr (by decide +kernel)) (by decide +kernel)).after
        (.getOrCreate root "a") (.inr (by decide +kernel)) (by decide +kernel)).after
          (.setLevel 2 (some .warn)) (.inl (by decide +kernel)) (by decide +kernel)
  obtain ⟨-, hresets, -⟩ := Situation.Reachable.setLevel_resets hreachable
    (n := 1) (by decide +kernel) (by decide +kernel) (some .debug)
  have hset : t.effective 1 = Level.debug.value := by decide +kernel
  have hchanged : t.effective 1 ≠ setBetween.tree.effective 1 := by decide +kernel
  have hcounted := hresets.counted
  rw [if_neg hchanged] at hcounted
  refine ⟨hset, hcounted, not_not.1 (mt hresets.reach fun hreach => ?_)⟩
  -- the node between them has a level of its own
  have hupper : setBetween.tree.InSubtree 1 2 := .single (by decide +kernel)
  have hlower : setBetween.tree.InSubtree 2 3 := .single (by decide +kernel)
  obtain ⟨node, hnode, hlevel⟩ := Option.map_eq_some_iff.1
    (show (setBetween.tree.node? 2).map (·.level) = some (some .warn) by decide +kernel)
  exact absurd (hlevel.symm.trans (hreach.unset hupper hlower (by decide) hnode)) (by simp)

end LoggerHierarchy.Tree
