import LoggerHierarchy.Proofs.Tree.Floors
import LoggerHierarchy.Proofs.Tree.Runs
import LoggerHierarchy.Proofs.Tree.Screening
import LoggerHierarchy.Proofs.Tree.Traversal

namespace LoggerHierarchy.Tree

/-!
# What a node takes

The severities of the records that a node takes, by the levels and floors above it:

* `Governs` — the nearest node with a level of its own, from a node upwards;
  `WellFormed.exists_governs` — there is always one;
* `WellFormed.effective_le_iff` — the effective level of a node is the highest of that level and of
  all floors from there down to the node;
* `Situation.Reachable.isLoggable_iff_thresholds` — so records are taken in every run, in which
  floors are what was answered when the nodes were made, and stay so.
-/

variable {may : Answers} {t : Tree} {a n m c p : NodeId} {node : Node} {level : Level}
  {severity : Int32}

/-- Whether `a` is the nearest node with a level of its own, from `n` upwards, and `level` is that
    level. -/
structure Governs (t : Tree) (a n : NodeId) (level : Level) : Prop where
  above : t.InSubtree a n
  own : ∃ node, t.node? a = some node ∧ node.level = some level
  nearest {m : NodeId} {node : Node} : t.InSubtree a m → t.InSubtree m n → m ≠ a →
    t.node? m = some node → node.level = none

/-! ### From a node upwards -/

namespace Shaped

variable (h : t.Shaped)

include h

/-- There is nothing between a node and itself. -/
theorem forall_between_self {P : NodeId → Prop} :
    (∀ m, t.InSubtree n m → t.InSubtree m n → P m) ↔ P n := by
  constructor
  · exact fun hall => hall n .refl .refl
  · intro hn m hnm hmn
    rwa [Nat.le_antisymm (h.le_of_inSubtree hmn) (h.le_of_inSubtree hnm)]

omit h in
/-- What is between a node and a child is what is between it and the parent, and the child. -/
theorem forall_between_child {P : NodeId → Prop} (hap : t.InSubtree a p)
    (hc : t.isChild p c = true) :
    (∀ m, t.InSubtree a m → t.InSubtree m c → P m) ↔
      P c ∧ ∀ m, t.InSubtree a m → t.InSubtree m p → P m := by
  constructor
  · intro hall
    exact ⟨hall c (hap.tail hc) .refl, fun m ham hmp => hall m ham (hmp.tail hc)⟩
  · rintro ⟨hchild, hall⟩ m ham hmc
    obtain rfl | hmp := (inSubtree_child_iff hc).1 hmc
    · exact hchild
    · exact hall m ham hmp

end Shaped

/-- A node with a level of its own governs itself. -/
theorem Shaped.governs_self (h : t.Shaped) (hnode : t.node? n = some node)
    (hlevel : node.level = some level) : t.Governs n n level where
  above := .refl
  own := ⟨node, hnode, hlevel⟩
  nearest hnm hmn hne := by
    have heq := Nat.le_antisymm (h.le_of_inSubtree hmn) (h.le_of_inSubtree hnm)
    exact absurd heq hne

/-- What governs a node governs its children without a level of their own. -/
theorem Governs.child (h : t.Governs a p level) (hc : t.isChild p c = true)
    (hnode : t.node? c = some node) (hlevel : node.level = none) : t.Governs a c level where
  above := h.above.tail hc
  own := h.own
  nearest {m other} ham hmc hne hother := by
    obtain rfl | hmp := (Shaped.inSubtree_child_iff hc).1 hmc
    · obtain rfl := Option.some.inj (hnode.symm.trans hother)
      exact hlevel
    · exact h.nearest ham hmp hne hother

/-- Every node is governed, at the latest by the root. -/
theorem WellFormed.exists_governs (h : t.WellFormed may) (hn : t.IsAttached n) :
    ∃ a level, t.Governs a n level := by
  have hbelow := h.shaped.inSubtree_root hn
  clear hn
  induction hbelow with
  | refl =>
    obtain ⟨node, hnode, hlevel⟩ := h.root_level
    obtain ⟨level, hlevel⟩ := Option.isSome_iff_exists.1 hlevel
    exact ⟨root, level, h.shaped.governs_self hnode hlevel⟩
  | @tail p c _ hc ih =>
    obtain ⟨place, hplace, -⟩ := isChild_iff.1 hc
    obtain ⟨node, hnode, -⟩ := place?_eq_some.1 hplace
    cases hlevel : node.level with
    | some level => exact ⟨c, level, h.shaped.governs_self hnode hlevel⟩
    | none =>
      obtain ⟨a, level, hgoverns⟩ := ih
      exact ⟨a, level, hgoverns.child hc hnode hlevel⟩

/-! ### Thresholds -/

/-- A severity is high enough for two levels at once just when it is for the higher one. -/
theorem severity_max_le_iff {a b c : Int32} : max a b ≤ c ↔ a ≤ c ∧ b ≤ c := by
  show (if a ≤ b then b else a) ≤ c ↔ _
  split <;> rename_i h <;> simp only [Int32.le_iff_toInt_le] at h ⊢ <;> omega

/-- The effective level of an attached node with a level of its own. -/
theorem WellFormed.effective_of_level (h : t.WellFormed may) (hnode : t.node? n = some node)
    (hattached : node.attached = true) (hlevel : node.level = some level) :
    t.effective n = max (t.minimum n) level.value := by
  obtain ⟨severity, hgoverning, hdue⟩ := h.leveled hnode hattached
  have hseverity : level.value = severity := by simpa [governing, hlevel] using hgoverning
  have heffective : t.effective n = node.effective := by simp [effective, hnode]
  have hminimum : t.minimum n = node.minimum := by simp [minimum, hnode]
  rw [heffective, hminimum, hseverity, hdue]

/-- The effective level of a node is the highest of the level that governs it and of all floors from
    there down to the node. -/
theorem WellFormed.effective_le_iff (h : t.WellFormed may) (hn : t.IsAttached n)
    (hgoverns : t.Governs a n level) :
    t.effective n ≤ severity ↔ level.value ≤ severity ∧
      ∀ m, t.InSubtree a m → t.InSubtree m n → t.minimum m ≤ severity := by
  obtain ⟨habove, ⟨node, hnode, hlevel⟩, hnearest⟩ := hgoverns
  -- down from the nearest leveled node: every node on the way adds its floor
  induction habove with
  | refl =>
    obtain ⟨p, hp, hattached⟩ := hn
    obtain rfl := Option.some.inj ((place?_of_node? hnode).symm.trans hp)
    rw [h.effective_of_level hnode hattached hlevel, severity_max_le_iff,
      h.shaped.forall_between_self, and_comm]
  | @tail p c hap hc ih =>
    obtain ⟨place, hplace, hattached, hparent⟩ := isChild_iff.1 hc
    obtain ⟨below, hbelow, rfl⟩ := place?_eq_some.1 hplace
    have hp := h.shaped.parent_isAttached hplace hattached hparent
    have hne : c ≠ a := by
      have hle := h.shaped.le_of_inSubtree hap
      have hlt := h.shaped.lt_of_isChild hc
      exact Nat.ne_of_gt (Nat.lt_of_le_of_lt hle hlt)
    have hnone := hnearest (hap.tail hc) .refl hne hbelow
    have hnearestP : ∀ {m node}, t.InSubtree a m → t.InSubtree m p → m ≠ a →
        t.node? m = some node → node.level = none :=
      fun ham hmp => hnearest ham (hmp.tail hc)
    rw [h.effective_of_inherits hbelow hattached hnone hparent, severity_max_le_iff,
      ih hp hnearestP, Shaped.forall_between_child hap hc, and_left_comm]

/-! ### In every run -/

/-- Whenever the outside may look at a context: for each of its nodes there is a nearest node with
    a level of its own, from the node upwards, and the node takes the records of a severity iff
    that is not the one of `OFF`, and neither below that level nor below the floor of any node from
    there down to the node.  And minutes can be taken of the run; in all of them the answers for
    the name of a node, to the questions for its floor and then for its level, are the last that
    were given to what made the node, and its floor is what was answered, else that of its parent,
    or `INFO` for a root without an answer; and it will never have another one. -/
theorem Situation.Reachable.isLoggable_iff_thresholds {s : Situation} (h : Reachable may s) :
    (∀ n, s.tree.contains n = true → (∃ a level, s.tree.Governs a n level) ∧
      ∀ a level, s.tree.Governs a n level → ∀ severity : Int32,
        (s.tree.isLoggable n severity = true ↔ severity ≠ Level.off.value ∧ level.value ≤ severity ∧
          ∀ m, s.tree.InSubtree a m → s.tree.InSubtree m n → s.tree.minimum m ≤ severity)) ∧
    (∃ minutes, Documented may s minutes) ∧
    (∀ minutes, Documented may s minutes → ∀ n node, s.tree.node? n = some node →
      ∃ before minimum level, minutes.made n =
          some (before ++ [⟨.minimum node.name, minimum⟩, ⟨.level node.name, level⟩]) ∧
        s.tree.floor? node.parent? minimum = some node.minimum) ∧
    ∀ s', Relation.ReflTransGen (Step may) s s' → ∀ n node, s.tree.node? n = some node →
      s'.tree.minimum n = node.minimum := by
  have hwf := h.wellFormed
  refine ⟨?_, h.exists_minutes, ?_, ?_⟩
  · intro n hn
    have hn : s.tree.IsAttached n := hwf.shaped.contains_iff.1 hn
    refine ⟨hwf.exists_governs hn, ?_⟩
    intro a level hgoverns severity
    -- the floor of the node itself is one of those on the way
    rw [isLoggable_iff hn, Passes, hwf.effective_le_iff hn hgoverns]
    constructor
    · rintro ⟨hoff, -, hlevel, hfloors⟩
      exact ⟨hoff, hlevel, hfloors⟩
    · rintro ⟨hoff, hlevel, hfloors⟩
      exact ⟨hoff, hfloors n hgoverns.above .refl, hlevel, hfloors⟩
  · intro minutes hminutes n node hnode
    obtain ⟨told, hmade, before, minimum, level, rfl, hfloor⟩ := hminutes.hold.founded hnode
    exact ⟨before, minimum, level, hmade, hfloor⟩
  · intro s' hsteps n node hnode
    obtain ⟨new, hnew, hplace⟩ := (h.grows hsteps).exists_node? hnode
    rw [Tree.minimum, hnew]
    exact congrArg Place.minimum hplace

/-- A configuration with a floor for one node. -/
def Configuration.floored : Configuration where
  minimum name := if name = "a.b" then some .warning else none

/-- A context in which the parent of this node has a level. -/
def leveledAbove : Situation :=
  (((Situation.initial .floored).after .floored (.getOrCreate root "a.b")).after .floored
    (.getOrCreate root "a")).after .floored (.setLevel 1 (some .fine))

/-- The level of a parent and the floors of both nodes decide what a node without a level takes. -/
theorem isLoggable_below_leveled :
    (∀ severity, leveledAbove.tree.isLoggable 2 severity = true ↔
      severity ≠ Level.off.value ∧ Level.fine.value ≤ severity ∧
        ∀ m, leveledAbove.tree.InSubtree 1 m → leveledAbove.tree.InSubtree m 2 →
          leveledAbove.tree.minimum m ≤ severity) ∧
    ∃ minutes before minimum level,
      Documented Configuration.floored.Allows leveledAbove minutes ∧
      minutes.made 2 = some (before ++ [⟨.minimum "a.b", minimum⟩, ⟨.level "a.b", level⟩]) ∧
      leveledAbove.tree.floor? (some 1) minimum = some Level.warning.value := by
  -- a run that names the nodes, and sets a level above the floors
  have hset : Situation.Reachable Configuration.floored.Allows leveledAbove :=
    (((Situation.reachable_initial .floored).after (.getOrCreate root "a.b") (.inr ⟨rfl, rfl⟩)
      rfl).after (.getOrCreate root "a") (.inr (by decide +kernel)) (by decide +kernel)).after
        (.setLevel 1 (some .fine)) (.inl (by decide +kernel)) (by decide +kernel)
  have habove : (leveledAbove.tree.node? 1).map (·.level) = some (some .fine) := by decide +kernel
  have hbelow : (leveledAbove.tree.node? 2).map (fun node =>
      (node.name, node.parent?, node.minimum, node.level)) =
        some ("a.b", some 1, Level.warning.value, none) := by
    decide +kernel
  obtain ⟨above, hnode, hlevel⟩ := Option.map_eq_some_iff.1 habove
  obtain ⟨node, hnode', hbelow⟩ := Option.map_eq_some_iff.1 hbelow
  obtain ⟨hname, hparent, hminimum, hnone⟩ : node.name = "a.b" ∧ node.parent? = some 1 ∧
      node.minimum = Level.warning.value ∧ node.level = none := by
    simpa using hbelow
  obtain ⟨hloggable, ⟨minutes, hminutes⟩, hmade, -⟩ :=
    Situation.Reachable.isLoggable_iff_thresholds hset
  have hgoverns := (hset.wellFormed.shaped.governs_self hnode hlevel).child
    (show leveledAbove.tree.isChild 1 2 = true by decide +kernel) hnode' hnone
  obtain ⟨before, minimum, level, htold, hfloor⟩ := hmade minutes hminutes 2 node hnode'
  rw [hname] at htold
  rw [hparent, hminimum] at hfloor
  exact ⟨(hloggable 2 (by decide +kernel)).2 1 .fine hgoverns, minutes, before, minimum, level,
    hminutes, htold, hfloor⟩

end LoggerHierarchy.Tree
