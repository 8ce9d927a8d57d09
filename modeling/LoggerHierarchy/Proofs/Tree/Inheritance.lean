import LoggerHierarchy.Proofs.Tree.WellFormed

namespace LoggerHierarchy.Tree

/-!
# Levels on their way down

What a new effective level of a node makes of the nodes below it, and the two operations that hand
one down:

* `handedDown_of_lt`, `handedDown_of_inherits` — where the change arrives;
* `leveled_handDown` — handing down what a node's settings call for restores the invariant;
* `WellFormed.handDown_effective` — handing down what is there already changes nothing;
* `WellFormed.later_withLevel`, `WellFormed.resync_eq` — setting or clearing a level, and taking the
  inherited one again.
-/

variable {may : Answers} {t u : Tree} {n m c : NodeId} {node : Node} {p : Place} {value : Int32}

/-! ### Where a change arrives -/

@[simp] theorem handedDown_self (t : Tree) (n : NodeId) (value : Int32) :
    t.handedDown n value n = some value := by
  rw [handedDown]
  simp

/-- Below `n`, a node without a level of its own takes over what its parent does. -/
theorem handedDown_of_inherits (hnode : t.node? c = some node) (hc : c ≠ n)
    (hparent : node.parent? = some m) (hlt : m < c) (hattached : node.attached = true)
    (hlevel : node.level = none) :
    t.handedDown n value c = (t.handedDown n value m).map (max node.minimum) := by
  rw [handedDown]
  simp [hc, hnode, hparent, hlt, hattached, hlevel]

/-- A node with a level of its own takes over nothing. -/
theorem handedDown_of_level {level : Level} (hnode : t.node? c = some node) (hc : c ≠ n)
    (hlevel : node.level = some level) : t.handedDown n value c = none := by
  rw [handedDown]
  simp only [hc, if_false, hnode, hlevel]
  cases node.parent? <;> simp

/-- A change never goes up. -/
theorem handedDown_of_lt (hlt : c < n) : t.handedDown n value c = none := by
  induction c using Nat.strongRecOn with
  | ind c ih =>
    rw [handedDown, if_neg (Nat.ne_of_lt hlt)]
    cases t.node? c with
    | none => rfl
    | some node =>
      cases hparent : node.parent? with
      | none => simp [hparent]
      | some m =>
        by_cases hm : m < c
        · simp [hparent, hm, ih m hm (Nat.lt_trans hm hlt)]
        · simp [hparent, hm]

@[simp] theorem node?_handDown (t : Tree) (n : NodeId) (value : Int32) (c : NodeId) :
    (t.handDown n value).node? c = (t.node? c).map fun node =>
      { node with effective := (t.handedDown n value c).getD node.effective } := by
  simp only [node?, handDown, Array.getElem?_mapIdx]
  cases t.nodes[c]? with
  | none => rfl
  | some node => cases h : t.handedDown n value c <;> simp

/-- A node has the level that reaches it or, where none does, the one that it had. -/
theorem effective_handDown (hnode : t.node? c = some node) :
    (t.handDown n value).effective c = (t.handedDown n value c).getD (t.effective c) := by
  simp [effective, hnode]

@[simp] theorem place?_handDown (t : Tree) (n : NodeId) (value : Int32) (c : NodeId) :
    (t.handDown n value).place? c = t.place? c := by
  cases h : t.node? c <;> simp [place?, h, Node.place]

/-! ### The invariant is restored -/

/-- If all nodes but `n` are leveled, and `value` is what the settings of `n` call for, then handing
    it down levels the tree. -/
theorem leveled_handDown (h : t.Shaped)
    (hrest : ∀ c node, c ≠ n → t.node? c = some node → node.attached = true → t.IsLeveled node)
    (hn : ∀ node, t.node? n = some node → node.attached = true →
      t.IsLeveled { node with effective := value }) : (t.handDown n value).Leveled := by
  intro c node' hnode' hattached
  rw [node?_handDown] at hnode'
  obtain ⟨node, hnode, rfl⟩ := Option.map_eq_some_iff.1 hnode'
  have hattached : node.attached = true := hattached
  by_cases hc : c = n
  · -- the parent of `n` was made before `n` and keeps its effective level
    subst hc
    rw [handedDown_self, Option.getD_some]
    refine (hn node hnode hattached).congr rfl rfl rfl ?_
    intro m hparent
    obtain ⟨hlt, above, habove⟩ := h.parent_node? hnode hparent
    rw [effective_handDown habove, handedDown_of_lt hlt, Option.getD_none]
  -- a node with a level keeps its own; one that inherits goes with its parent
  · obtain ⟨severity, hgoverning, heq⟩ := hrest c node hc hnode hattached
    cases hlevel : node.level with
    | some level =>
      rw [handedDown_of_level hnode hc hlevel, Option.getD_none]
      exact ⟨severity, by simpa [governing, hlevel] using hgoverning, heq⟩
    | none =>
      obtain ⟨m, hparent, rfl⟩ : ∃ m, node.parent? = some m ∧ t.effective m = severity := by
        simpa [governing, hlevel] using hgoverning
      obtain ⟨hlt, above, habove⟩ := h.parent_node? hnode hparent
      refine ⟨(t.handDown n value).effective m, by simp [governing, hparent], ?_⟩
      rw [handedDown_of_inherits hnode hc hparent hlt hattached hlevel,
        effective_handDown habove]
      cases t.handedDown n value m with
      | none => simpa using heq
      | some above => simp

/-- Handing down the effective level that a node has already changes nothing. -/
theorem WellFormed.handDown_effective (h : t.WellFormed may) (hn : t.IsAttached n) :
    t.handDown n (t.effective n) = t := by
  -- nothing new is handed down to any node, by induction on its id
  have hsame : ∀ c node, t.node? c = some node →
      ∀ value, t.handedDown n (t.effective n) c = some value → value = node.effective := by
    intro c
    induction c using Nat.strongRecOn with
    | ind c ih =>
      intro node hnode value hvalue
      by_cases hc : c = n
      · subst hc
        rw [handedDown_self] at hvalue
        rw [← Option.some.inj hvalue]
        simp [effective, hnode]
      · -- below `n` only nodes that inherit are reached, and those are leveled
        rw [handedDown, if_neg hc] at hvalue
        simp only [hnode] at hvalue
        cases hparent : node.parent? with
        | none => simp [hparent] at hvalue
        | some m =>
          obtain ⟨hlt, above, habove⟩ := h.shaped.parent_node? hnode hparent
          simp only [hparent, hlt, if_true, Bool.and_eq_true, Option.isNone_iff_eq_none] at hvalue
          split at hvalue
          · rename_i hreached
            obtain ⟨before, hbefore, rfl⟩ := Option.map_eq_some_iff.1 hvalue
            obtain ⟨severity, hgoverning, heq⟩ := h.leveled hnode hreached.1
            have hseverity : t.effective m = severity := by
              simpa [governing, hreached.2, hparent] using hgoverning
            rw [heq, ← hseverity, ih m hlt above habove before hbefore]
            simp [effective, habove]
          · exact absurd hvalue (by simp)
  have hnodes : (t.handDown n (t.effective n)).nodes = t.nodes := by
    apply Array.ext_getElem?
    intro c
    change (t.handDown n (t.effective n)).node? c = t.node? c
    rw [node?_handDown]
    cases hnode : t.node? c with
    | none => rfl
    | some node =>
      cases hvalue : t.handedDown n (t.effective n) c with
      | none => simp
      | some value => simp [hsame c node hnode value hvalue]
  cases t
  simpa [handDown] using hnodes

/-! ### Setting and taking over -/

/-- What a setting leaves at a node stands for the severity that it was computed from. -/
theorem governing_settled (t : Tree) (hnode : t.node? n = some node) (level : Option Level) :
    t.governing { node with level := (t.settled n level).1 } = some (t.settled n level).2 := by
  cases level with
  | some level => rfl
  | none =>
    simp only [settled]
    cases hparent : t.parent? n with
    | none => rfl
    | some m =>
      simp [governing, parent?_of_some hnode hparent]

/-- Storing a level moves no node. -/
@[simp] theorem place?_update_level (t : Tree) (n : NodeId) (level : Option Level) (c : NodeId) :
    (t.update n fun node => { node with level }).place? c = t.place? c := by
  refine place?_update (fun _ _ => ?_) c
  rfl

@[simp] theorem effective_update_level (t : Tree) (n : NodeId) (level : Option Level)
    (c : NodeId) : (t.update n fun node => { node with level }).effective c = t.effective c := by
  simp only [effective, node?_update]
  split
  · cases t.node? c <;> rfl
  · rfl

/-- No other node gets the level that is set at one. -/
theorem node?_update_level (t : Tree) (n : NodeId) (level : Option Level) (m : NodeId) :
    (t.update n fun node => { node with level }).node? m = (t.node? m).map fun old =>
      { old with level := if m = n then level else old.level } := by
  rw [node?_update]
  split
  · rename_i hm
    simp [hm]
  · rename_i hm
    simp [Ne.symm hm]

/-- Storing a level leaves all other nodes leveled. -/
theorem isLeveled_update_level (h : t.Leveled) (level : Option Level) (hc : c ≠ n)
    (hnode : (t.update n fun node => { node with level }).node? c = some node)
    (hattached : node.attached = true) :
    (t.update n fun node => { node with level }).IsLeveled node := by
  rw [node?_update, if_neg (Ne.symm hc)] at hnode
  exact (h hnode hattached).congr rfl rfl rfl fun m _ => effective_update_level t n level m

/-- A level that calls for the effective level that a node has may just be stored. -/
theorem WellFormed.later_update_level {level : Option Level} {severity : Int32}
    (h : t.WellFormed may) (hnode : t.node? n = some node)
    (hgoverning : t.governing { node with level } = some severity)
    (hsame : max node.minimum severity = node.effective) :
    Later may t (t.update n fun node => { node with level }) := by
  have hplace := place?_update_level t n level
  refine h.later_of_place? hplace (fun c hc => h.shaped.referenced hc) ?_
  intro c below hbelow hattached
  by_cases hc : c = n
  · subst hc
    rw [node?_update, if_pos rfl, hnode, Option.map_some, Option.some.injEq] at hbelow
    subst hbelow
    have hleveled : t.IsLeveled { node with level } := ⟨severity, hgoverning, hsame.symm⟩
    exact hleveled.congr rfl rfl rfl fun m _ => effective_update_level t c level m
  · exact isLeveled_update_level h.leveled level hc hbelow hattached

/-- Any other level is stored and what it calls for is handed down. -/
theorem WellFormed.later_update_level_handDown {level : Option Level} {severity : Int32}
    (h : t.WellFormed may) (hnode : t.node? n = some node)
    (hgoverning : t.governing { node with level } = some severity) :
    Later may t ((t.update n fun node => { node with level }).handDown n
      (max node.minimum severity)) := by
  have hplace := place?_update_level t n level
  have hshaped : (t.update n fun node => { node with level }).Shaped :=
    h.shaped.congr hplace fun c hc => h.shaped.referenced hc
  have hboth : ∀ c, ((t.update n fun node => { node with level }).handDown n
      (max node.minimum severity)).place? c = t.place? c := by
    intro c
    rw [place?_handDown, hplace]
  refine h.later_of_place? hboth (fun c hc => h.shaped.referenced hc) ?_
  refine leveled_handDown hshaped ?_ ?_
  · intro c below hc
    exact isLeveled_update_level h.leveled level hc
  -- the node itself is leveled by its new level
  · intro now hnow _
    rw [node?_update, if_pos rfl, hnode, Option.map_some, Option.some.injEq] at hnow
    subst hnow
    have hleveled : t.IsLeveled { node with level, effective := max node.minimum severity } :=
      ⟨severity, hgoverning, rfl⟩
    exact hleveled.congr rfl rfl rfl fun m _ => effective_update_level t n level m

/-- Nothing happens when the level of a node that was never made is set. -/
theorem withLevel_of_none (hnone : t.node? n = none) (level : Option Level) :
    t.withLevel n level = t := by
  simp [withLevel, hnone]

/-- A level that calls for the effective level that a node has is just stored. -/
theorem withLevel_of_eq {level : Option Level} (hnode : t.node? n = some node)
    (hsame : max node.minimum (t.settled n level).2 = node.effective) :
    t.withLevel n level =
      t.update n fun node => { node with level := (t.settled n level).1 } := by
  simp [withLevel, hnode, hsame]

/-- Any other level is stored and what it calls for is handed down, which is counted. -/
theorem withLevel_of_ne {level : Option Level} (hnode : t.node? n = some node)
    (hne : max node.minimum (t.settled n level).2 ≠ node.effective) :
    t.withLevel n level =
      { (t.update n fun node => { node with level := (t.settled n level).1 }).handDown n
          (max node.minimum (t.settled n level).2) with levelChanges := t.levelChanges + 1 } := by
  simp only [withLevel, hnode, if_neg hne]
  rfl

/-- Setting or clearing a level keeps a tree well-formed. -/
theorem WellFormed.later_withLevel (h : t.WellFormed may) (n : NodeId) (level : Option Level) :
    Later may t (t.withLevel n level) := by
  cases hnode : t.node? n with
  | none =>
    rw [withLevel_of_none hnode]
    exact h.later_self
  | some node =>
    have hgoverning := governing_settled t hnode level
    by_cases hsame : max node.minimum (t.settled n level).2 = node.effective
    · rw [withLevel_of_eq hnode hsame]
      exact h.later_update_level hnode hgoverning hsame
    · rw [withLevel_of_ne hnode hsame]
      have hlater := h.later_update_level_handDown hnode hgoverning
      exact hlater.trans
        (hlater.wellFormed.later_of_nodes rfl fun _ hc => hlater.wellFormed.shaped.referenced hc)

/-- A node that inherits its level may take it from its parent again: it has it already. -/
theorem WellFormed.resync_eq (h : t.WellFormed may) (hn : t.IsAttached n) : t.resync n = t := by
  unfold resync
  obtain ⟨p, hp, hattached⟩ := hn
  obtain ⟨node, hnode, rfl⟩ := place?_eq_some.1 hp
  rw [hnode]
  cases hparent : t.parent? n with
  | none => rfl
  | some m =>
    simp only
    split
    · rename_i hlevel
      obtain ⟨severity, hgoverning, heq⟩ := h.leveled hnode hattached
      have hlink := parent?_of_some hnode hparent
      have hseverity : t.effective m = severity := by
        simpa [governing, Option.isNone_iff_eq_none.1 hlevel, hlink] using hgoverning
      have heffective : max node.minimum (t.effective m) = t.effective n := by
        rw [hseverity, ← heq]
        simp [effective, hnode]
      rw [heffective]
      exact h.handDown_effective ⟨_, hp, hattached⟩
    · rfl

end LoggerHierarchy.Tree
