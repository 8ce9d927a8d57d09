import LoggerHierarchy.Proofs.Tree.FullNames

namespace LoggerHierarchy.Tree

/-!
# Levels and their history

With a configuration whose answers never change:

* `Situation.lastSetting` — the level that a node was set to last, if it ever was;
* `Configuration.levelAfter` — the level of a node by its name and its last setting;
  `Situation.Reachable.recorded` — so it is in every run of an open context;
* `SameLevels` — two nodes whose levels, and the records that they take, are the same;
* `WellFormed.sameLevels_of_path_eq` — where nodes of equal paths have the same levels of their own,
  all that follows from these is the same;
* `WellFormed.sameLevels_withLevel_comm` — so it is after two nodes were set in either order;
* `Situation.Reachable.sameLevels` — it is the same after all runs with the same last settings.
-/

variable {c : Configuration} {may : Answers} {t u : Tree} {n m : NodeId} {node : Node} {p : Place}
  {op : Operation}

/-! ### Last settings -/

/-- The level that an operation sets a node to. -/
def Operation.setting? (op : Operation) (n : NodeId) : Option (Option Level) :=
  match op with
  | .setLevel m level => if m = n then some level else none
  | _ => none

/-- No other operation sets a level. -/
theorem Operation.setting?_eq_none (hop : ∀ n level, op ≠ .setLevel n level) (n : NodeId) :
    op.setting? n = none := by
  cases op <;> first | rfl | exact absurd rfl (hop _ _)

/-- The level that a node was set to last, if it ever was; a clearing sets it to none. -/
def Situation.lastSetting (s : Situation) (n : NodeId) : Option (Option Level) :=
  s.ended.findSome? fun entry => entry.1.setting? n

/-- The level of a node, by its name and its last setting: a cleared root has the default level. -/
def Configuration.levelAfter (c : Configuration) (isRoot : Bool) (name : String) :
    Option (Option Level) → Option Level
  | some (some level) => some level
  | some none => if isRoot then some defaultRootLevel else none
  | none => if isRoot then some ((c.level name).getD defaultRootLevel) else c.level name

/-! ### What a setting leaves -/

/-- While the context is open, no node but the root is without a parent. -/
theorem Shaped.parent?_eq_none_iff (h : t.Shaped) (hopen : t.isOpen = true)
    (hn : t.IsAttached n) : t.parent? n = none ↔ n = root := by
  obtain ⟨p, hp, hattached⟩ := hn
  rw [h.parent?_eq hopen hp hattached]
  by_cases hroot : n = root
  · obtain ⟨r, hr, hnone, -⟩ := h.top
    rw [hroot, hr, Option.some.injEq] at hp
    simp [hroot, ← hp, hnone]
  · obtain ⟨m, q, hparent, -⟩ := h.parent hp hroot
    simp [hparent, hroot]

/-- The level that a setting leaves at an attached node. -/
theorem Shaped.settled_eq (h : t.Shaped) (hopen : t.isOpen = true) (hn : t.IsAttached n)
    (level : Option Level) (c : Configuration) (name : String) :
    (t.settled n level).1 = c.levelAfter (decide (n = root)) name (some level) := by
  cases level with
  | some level => rfl
  | none =>
    have hiff := h.parent?_eq_none_iff hopen hn
    cases hparent : t.parent? n with
    | none =>
      have hroot : n = root := hiff.1 hparent
      simp only [settled, Configuration.levelAfter, hparent, decide_eq_true hroot, if_true]
    | some m =>
      have hroot : n ≠ root := fun hroot => by simp [hiff.2 hroot] at hparent
      simp [settled, Configuration.levelAfter, hparent, hroot]

/-- A setting changes the level of its node only. -/
theorem level_withLevel {level : Option Level} {old new : Node} (hold : t.node? m = some old)
    (hnew : (t.withLevel n level).node? m = some new) :
    new.level = if m = n then (t.settled n level).1 else old.level := by
  split
  -- the node itself has the level that was settled, whether anything was handed down or not
  · rename_i hm
    subst hm
    simp only [withLevel, hold] at hnew
    split at hnew
    · rw [node?_update, if_pos rfl, hold] at hnew
      obtain rfl := Option.some.inj hnew
      rfl
    · change ((t.update m _).handDown m _).node? m = some new at hnew
      rw [node?_handDown, node?_update, if_pos rfl, hold] at hnew
      obtain rfl := Option.some.inj hnew
      rfl
  -- of other nodes the operation changes no level
  · rename_i hm
    have halters : Alters (fun _ _ => True) (.setLevel n level) t (t.withLevel n level) :=
      Alters.withLevel t n level
    have hages := halters.ages hold hnew
    refine hages.level ?_
    rintro level' ⟨⟩
    exact hm rfl

/-- A level that is set neither opens nor closes a context. -/
theorem isOpen_withLevel (t : Tree) (n : NodeId) (level : Option Level) :
    (t.withLevel n level).isOpen = t.isOpen := by
  unfold withLevel
  split
  · rfl
  · dsimp only
    split <;> rfl

/-! ### Levels in a run -/

namespace Situation

variable {s s' : Situation}

/-- Every node has the level that its last setting or, without one, the configuration gives it. -/
structure Recorded (c : Configuration) (s : Situation) : Prop where
  level {n : NodeId} {node : Node} : s.tree.isOpen = true → s.tree.node? n = some node →
    node.level = c.levelAfter (decide (n = root)) node.name (s.lastSetting n)
  unset {n : NodeId} : s.tree.node? n = none → s.lastSetting n = none
  /-- A setting asks nobody. -/
  waiting {frame : Frame} : frame ∈ s.waiting → ∀ n level, frame.operation ≠ .setLevel n level

/-- Steps of operations that set no level. -/
theorem Recorded.advances (h : s.Recorded c) (hroot : s.tree.Exists root)
    (hadvances : Advances c.Allows op s s') (hop : ∀ n level, op ≠ .setLevel n level) :
    s'.Recorded c := by
  obtain ⟨halters, hended, hwaiting⟩ := hadvances
  have hlast : ∀ n, s'.lastSetting n = s.lastSetting n := by
    intro n
    unfold lastSetting
    obtain hsame | ⟨nodes, hmore⟩ := hended
    · rw [hsame]
    · rw [hmore, List.findSome?_cons, Operation.setting?_eq_none hop]
  constructor
  case level =>
    intro n new hopen hnew
    rw [hlast]
    cases hold : s.tree.node? n with
    | some old =>
      have hages := halters.ages hold hnew
      rw [hages.level (hop n), hages.name_eq]
      exact h.level (halters.isOpen_before hopen) hold
    | none =>
      -- a new node has the level that was answered for its name
      have hlevel : new.level = c.level new.name := (halters.fresh hnew hold).level
      have hn : n ≠ root := by
        rintro rfl
        obtain ⟨p, hp⟩ := hroot
        obtain ⟨node, hnode, -⟩ := place?_eq_some.1 hp
        exact absurd (hnode.symm.trans hold) (by simp)
      rw [h.unset hold, hlevel]
      simp [Configuration.levelAfter, hn]
  case unset =>
    intro n hnone
    rw [hlast]
    exact h.unset (halters.grows.node?_eq_none hnone)
  case waiting =>
    intro frame hframe
    obtain hframe | rfl := hwaiting frame hframe
    · exact h.waiting hframe
    · exact hop

/-- A setting ends at once. -/
theorem proceed_setLevel (s : Situation) (n : NodeId) (level : Option Level) :
    s.proceed (.setLevel n level) (Operation.call (.setLevel n level) s.tree) =
      { s with
        tree := s.tree.withLevel n level
        ended := (.setLevel n level, []) :: s.ended } := by
  change s.proceed _ (((Tree.setLevel n level s.tree).bind _).bind _) = _
  unfold Tree.setLevel
  dsimp only
  split
  · rfl
  · rfl

/-- The operation that ended last is the last setting of its own node, and of no other. -/
theorem lastSetting_setLevel (s : Situation) (t : Tree) (n m : NodeId) (level : Option Level) :
    lastSetting { s with tree := t, ended := (.setLevel n level, []) :: s.ended } m =
      if n = m then some level else s.lastSetting m := by
  unfold lastSetting
  rw [List.findSome?_cons]
  by_cases hm : n = m
  · simp [Operation.setting?, hm]
  · simp [Operation.setting?, hm]

/-- A level that is set is on record as the last setting of its node. -/
theorem Recorded.setLevel (h : s.Recorded c) (hwf : s.tree.WellFormed may)
    (hn : s.tree.IsAttached n) (level : Option Level) :
    Recorded c { s with
      tree := s.tree.withLevel n level
      ended := (.setLevel n level, []) :: s.ended } := by
  have halters : Alters may (.setLevel n level) s.tree (s.tree.withLevel n level) :=
    Alters.withLevel s.tree n level
  constructor
  case level =>
    intro m new hopen hnew
    have hopen : s.tree.isOpen = true := halters.isOpen_before hopen
    cases hold : s.tree.node? m with
    | none =>
      obtain ⟨start, name, hcreates⟩ := (halters.fresh hnew hold).creates
      exact absurd hcreates (by simp)
    | some old =>
      have hages := halters.ages hold hnew
      rw [lastSetting_setLevel, level_withLevel hold hnew, hages.name_eq]
      -- the setting is the last one of its own node, and the others keep theirs
      by_cases hm : m = n
      · rw [hm, if_pos rfl, if_pos rfl]
        exact hwf.shaped.settled_eq hopen hn level c old.name
      · rw [if_neg hm, if_neg (Ne.symm hm)]
        exact h.level hopen hold
  case unset =>
    intro m hm
    rw [lastSetting_setLevel, if_neg]
    · exact h.unset (halters.grows.node?_eq_none hm)
    · rintro rfl
      obtain ⟨p, hp, -⟩ := hn
      obtain ⟨node, hnode, -⟩ := place?_eq_some.1 hp
      exact absurd (hnode.symm.trans (halters.grows.node?_eq_none hm)) (by simp)
  case waiting => exact h.waiting

/-- Every step keeps the levels on record. -/
theorem Step.recorded (hstep : Step c.Allows s s') (hs : Reachable c.Allows s)
    (h : s.Recorded c) : s'.Recorded c := by
  have hroot := hs.wellFormed.shaped.root_isAttached.exists
  obtain ⟨op, hadvances, hop⟩ := hstep.advances hs
  obtain rfl | ⟨frame, hframe, rfl⟩ | ⟨hpermitted, rfl⟩ := hop
  · exact h.advances hroot hadvances (by simp)
  · exact h.advances hroot hadvances (h.waiting hframe)
  · by_cases hop : ∃ n level, op = .setLevel n level
    · obtain ⟨n, level, rfl⟩ := hop
      rw [proceed_setLevel]
      exact h.setLevel hs.wellFormed (hpermitted.isAttached hs.wellFormed) level
    · exact h.advances hroot hadvances fun n level heq => hop ⟨n, level, heq⟩

/-- So it is in every run of an open context. -/
theorem Reachable.recorded (h : Reachable c.Allows s) : s.Recorded c := by
  induction h with
  | @start answer _ hlevel =>
    constructor
    case level =>
      intro n node _ hnode
      obtain ⟨rfl, rfl⟩ := eq_of_node?_planted hnode
      have hlevel : answer (.level "") = c.level "" := hlevel
      change some ((answer (.level "")).getD defaultRootLevel) = _
      rw [hlevel]
      rfl
    case unset => exact fun _ => rfl
    case waiting => exact fun hframe => absurd hframe (by simp)
  | step hs hstep ih => exact hstep.recorded hs ih

end Situation

/-! ### What follows from levels -/

/-- Whether two nodes have the same levels and take the same records. -/
structure SameLevels (t : Tree) (n : NodeId) (u : Tree) (m : NodeId) : Prop where
  level : (t.node? n).map (·.level) = (u.node? m).map (·.level)
  effective : t.effective n = u.effective m
  minimum : t.minimum n = u.minimum m
  isLoggable : ∀ severity, t.isLoggable n severity = u.isLoggable m severity

/-- Nodes with the same levels and floor take the same records. -/
theorem sameLevels_of_node? {old new : Node} (hold : t.node? n = some old)
    (hnew : u.node? m = some new) (hlevel : old.level = new.level)
    (heffective : old.effective = new.effective) (hminimum : old.minimum = new.minimum) :
    SameLevels t n u m where
  level := by rw [hold, hnew, Option.map_some, Option.map_some, hlevel]
  effective := by simp [Tree.effective, hold, hnew, heffective]
  minimum := by simp [Tree.minimum, hold, hnew, hminimum]
  isLoggable := by
    intro severity
    simp [Tree.isLoggable, hold, hnew, heffective, hminimum]

/-- Nodes at the same path have the same name, in whichever tree. -/
theorem Shaped.name_eq_of_path_eq {old new : Node} (ht : t.Shaped) (hu : u.Shaped)
    (hold : t.node? n = some old) (hnew : u.node? m = some new) (hpath : t.path n = u.path m) :
    old.name = new.name := by
  have hfull : old.name = Name.full (t.path n) := ht.name_eq_full (place?_of_node? hold)
  have hfull' : new.name = Name.full (u.path m) := hu.name_eq_full (place?_of_node? hnew)
  rw [hfull, hfull', hpath]

/-- Only the root is at the path of the root. -/
theorem Shaped.eq_root_iff_of_path_eq {old new : Node} (ht : t.Shaped) (hu : u.Shaped)
    (hold : t.node? n = some old) (hnew : u.node? m = some new) (hpath : t.path n = u.path m) :
    n = root ↔ m = root := by
  rw [← ht.path_eq_nil_iff (place?_of_node? hold), ← hu.path_eq_nil_iff (place?_of_node? hnew),
    hpath]

/-- Whether two nodes stand below nothing, or below nodes with the same levels. -/
def SameAbove (t : Tree) (old : Node) (u : Tree) (new : Node) : Prop :=
  old.parent? = none ∧ new.parent? = none ∨
    ∃ a b, old.parent? = some a ∧ new.parent? = some b ∧ SameLevels t a u b

/-- Attached nodes of equal paths stand below nothing, or below attached nodes of equal paths. -/
theorem Shaped.parents_of_path_eq {old new : Node} (ht : t.Shaped) (hu : u.Shaped)
    (hold : t.node? n = some old) (hnew : u.node? m = some new) (hattached : old.attached = true)
    (hattached' : new.attached = true) (hpath : t.path n = u.path m) :
    old.parent? = none ∧ new.parent? = none ∨
      ∃ a b, old.parent? = some a ∧ new.parent? = some b ∧ a < n ∧ t.IsAttached a ∧
        u.IsAttached b ∧ t.path a = u.path b := by
  have hp := place?_of_node? hold
  have hq := place?_of_node? hnew
  have hroot := ht.eq_root_iff_of_path_eq hu hold hnew hpath
  by_cases hn : n = root
  · left
    obtain ⟨r, hr, hnone, -⟩ := ht.top
    obtain ⟨r', hr', hnone', -⟩ := hu.top
    rw [← hn, hp, Option.some.injEq] at hr
    rw [← hroot.1 hn, hq, Option.some.injEq] at hr'
    rw [← hr] at hnone
    rw [← hr'] at hnone'
    exact ⟨hnone, hnone'⟩
  · right
    obtain ⟨a, hparent, hlink⟩ := ht.exists_link hp hattached hn
    obtain ⟨b, hparent', hlink'⟩ := hu.exists_link hq hattached' fun hm => hn (hroot.2 hm)
    obtain ⟨hlt, ha⟩ := ht.link_parent hlink
    rw [ht.path_of_place? hp hparent, hu.path_of_place? hq hparent'] at hpath
    exact ⟨a, b, hparent, hparent', hlt, ha, (hu.link_parent hlink').2,
      (List.append_inj' hpath rfl).1⟩

/-- The floor of a node follows from its name and from what is above it. -/
theorem WellFormed.minimum_eq_of_sameAbove {old new : Node} (ht : t.WellFormed c.Allows)
    (hu : u.WellFormed c.Allows) (hold : t.node? n = some old) (hnew : u.node? m = some new)
    (hname : old.name = new.name) (habove : SameAbove t old u new) :
    old.minimum = new.minimum := by
  obtain ⟨answer, hanswer, hfloor⟩ := ht.floored (place?_of_node? hold)
  obtain ⟨answer', hanswer', hfloor'⟩ := hu.floored (place?_of_node? hnew)
  have hanswer : answer = c.minimum old.name := hanswer
  have hanswer' : answer' = c.minimum new.name := hanswer'
  change old.minimum = _ at hfloor
  change new.minimum = _ at hfloor'
  rw [hfloor, hfloor', hanswer, hanswer', hname]
  obtain ⟨hnone, hnone'⟩ | ⟨a, b, hparent, hparent', hsame⟩ := habove
  · rw [show old.place.parent? = none from hnone, show new.place.parent? = none from hnone']
  · rw [show old.place.parent? = some a from hparent, show new.place.parent? = some b from hparent']
    exact congrArg _ hsame.minimum

/-- The effective level of a node follows from its floor, its level and what is above it. -/
theorem WellFormed.effective_eq_of_sameAbove {old new : Node} (ht : t.WellFormed c.Allows)
    (hu : u.WellFormed c.Allows) (hold : t.node? n = some old) (hnew : u.node? m = some new)
    (hattached : old.attached = true) (hattached' : new.attached = true)
    (hminimum : old.minimum = new.minimum) (hlevel : old.level = new.level)
    (habove : SameAbove t old u new) : old.effective = new.effective := by
  obtain ⟨severity, hgoverning, heq⟩ := ht.leveled hold hattached
  obtain ⟨severity', hgoverning', heq'⟩ := hu.leveled hnew hattached'
  have hsame : t.governing old = u.governing new := by
    unfold governing
    rw [hlevel]
    cases new.level with
    | some level => rfl
    | none =>
      obtain ⟨hnone, hnone'⟩ | ⟨a, b, hparent, hparent', hsame⟩ := habove
      · rw [hnone, hnone']
        rfl
      · rw [hparent, hparent']
        exact congrArg some hsame.effective
  rw [hgoverning, hgoverning', Option.some.injEq] at hsame
  rw [heq, heq', hminimum, hsame]

/-- Where attached nodes of equal paths have the same levels of their own, all that follows from
    these is the same. -/
theorem WellFormed.sameLevels_of_path_eq (ht : t.WellFormed c.Allows) (hu : u.WellFormed c.Allows)
    (hlevel : ∀ {n m : NodeId} {old new : Node}, t.path n = u.path m → t.node? n = some old →
      u.node? m = some new → old.attached = true → new.attached = true → old.level = new.level)
    (hn : t.IsAttached n) (hm : u.IsAttached m) (hpath : t.path n = u.path m) :
    SameLevels t n u m := by
  -- down the path: the parents have the same levels by induction
  induction n using Nat.strongRecOn generalizing m with
  | ind n ih =>
    obtain ⟨_, hp, hattached⟩ := hn
    obtain ⟨_, hq, hattached'⟩ := hm
    obtain ⟨old, hold, rfl⟩ := place?_eq_some.1 hp
    obtain ⟨new, hnew, rfl⟩ := place?_eq_some.1 hq
    have hname := ht.shaped.name_eq_of_path_eq hu.shaped hold hnew hpath
    have habove : SameAbove t old u new := by
      obtain hnone | ⟨a, b, hparent, hparent', hlt, ha, hb, hab⟩ :=
        ht.shaped.parents_of_path_eq hu.shaped hold hnew hattached hattached' hpath
      · exact .inl hnone
      · exact .inr ⟨a, b, hparent, hparent', ih a hlt ha hb hab⟩
    have hminimum := ht.minimum_eq_of_sameAbove hu hold hnew hname habove
    have hown := hlevel hpath hold hnew hattached hattached'
    have heffective :=
      ht.effective_eq_of_sameAbove hu hold hnew hattached hattached' hminimum hown habove
    exact sameLevels_of_node? hold hnew hown heffective hminimum

/-! ### Settings of different nodes -/

/-- A level that is set leaves every node in its place. -/
theorem place?_withLevel (t : Tree) (n : NodeId) (level : Option Level) (m : NodeId) :
    (t.withLevel n level).place? m = t.place? m := by
  unfold withLevel
  split
  · rfl
  · dsimp only
    split
    · exact place?_update_level t n _ m
    · change ((t.update n _).handDown n _).place? m = _
      rw [place?_handDown, place?_update_level]

/-- A path depends on the places of nodes alone. -/
theorem path_congr (hplace : ∀ n, u.place? n = t.place? n) (n : NodeId) : u.path n = t.path n := by
  induction n using Nat.strongRecOn with
  | ind n ih =>
    have hn := hplace n
    rw [path, path]
    simp only [place?] at hn
    cases hold : t.node? n with
    | none =>
      rw [hold, Option.map_none, Option.map_eq_none_iff] at hn
      rw [hn]
    | some old =>
      rw [hold, Option.map_some] at hn
      obtain ⟨new, hnew, hsame⟩ := Option.map_eq_some_iff.1 hn
      have hparent : new.parent? = old.parent? := congrArg Place.parent? hsame
      have hsegment : new.segment = old.segment := congrArg Place.segment hsame
      rw [hnew]
      simp only [hparent, hsegment]
      cases old.parent? with
      | none => rfl
      | some m =>
        by_cases hlt : m < n
        · simp only [hlt, if_true, ih m hlt]
        · simp only [hlt, if_false]

/-- Two levels that are set leave every node in its place. -/
theorem place?_withLevel_withLevel (t : Tree) (n m : NodeId) (a b : Option Level) (k : NodeId) :
    ((t.withLevel n a).withLevel m b).place? k = t.place? k := by
  rw [place?_withLevel, place?_withLevel]

/-- The level of a node after two others, or itself, were set. -/
theorem WellFormed.level_withLevel_withLevel {k : NodeId} {a b : Option Level} {old new : Node}
    (h : t.WellFormed c.Allows) (hopen : t.isOpen = true) (hn : t.IsAttached n)
    (hm : t.IsAttached m) (hold : t.node? k = some old)
    (hnew : ((t.withLevel n a).withLevel m b).node? k = some new) :
    new.level = if k = m then c.levelAfter (decide (m = root)) "" (some b) else
      if k = n then c.levelAfter (decide (n = root)) "" (some a) else old.level := by
  have hfirst := h.later_withLevel n a
  obtain ⟨mid, hmid, -⟩ := place?_eq_some.1
    ((place?_withLevel t n a k).trans (place?_of_node? hold))
  rw [level_withLevel hmid hnew, level_withLevel hold hmid,
    hfirst.wellFormed.shaped.settled_eq ((isOpen_withLevel t n a).trans hopen)
      (hm.of_place?_eq (place?_withLevel t n a m)) b c "",
    h.shaped.settled_eq hopen hn a c ""]

/-- In an open tree it does not matter which of two nodes is set first. -/
theorem WellFormed.sameLevels_withLevel_comm (h : t.WellFormed c.Allows) (hopen : t.isOpen = true)
    (hn : t.IsAttached n) (hm : t.IsAttached m) (hnm : n ≠ m) (a b : Option Level) {k : NodeId}
    (hk : t.IsAttached k) :
    SameLevels ((t.withLevel n a).withLevel m b) k ((t.withLevel m b).withLevel n a) k := by
  have hplace := place?_withLevel_withLevel t n m a b
  have hplace' := place?_withLevel_withLevel t m n b a
  have hv := (h.later_withLevel n a).wellFormed.later_withLevel m b
  have hw := (h.later_withLevel m b).wellFormed.later_withLevel n a
  refine hv.wellFormed.sameLevels_of_path_eq hw.wellFormed ?_ (hk.of_place?_eq (hplace k))
    (hk.of_place?_eq (hplace' k)) ?_
  -- either way both nodes have the level that was set on them, and the others their own
  · intro i j old new hpath hold hnew hiattached hjattached
    rw [path_congr hplace, path_congr hplace'] at hpath
    have hi : t.IsAttached i := ⟨_, (hplace i).symm.trans (place?_of_node? hold), hiattached⟩
    have hj : t.IsAttached j := ⟨_, (hplace' j).symm.trans (place?_of_node? hnew), hjattached⟩
    obtain rfl := h.shaped.eq_of_path_eq hi hj hpath
    obtain ⟨_, hp, -⟩ := hi
    obtain ⟨node, hnode, -⟩ := place?_eq_some.1 hp
    rw [h.level_withLevel_withLevel hopen hn hm hnode hold,
      h.level_withLevel_withLevel hopen hm hn hnode hnew]
    by_cases him : i = m
    · rw [if_pos him, if_neg fun hin => hnm (hin.symm.trans him), if_pos him]
    · rw [if_neg him, if_neg him]
  · rw [path_congr hplace, path_congr hplace']

/-! ### In every two runs -/

/-- With a configuration whose answers never change, the levels of the nodes of an open context
    follow from their paths and their last settings: after any two runs after which nodes of equal
    paths have the same last setting, or none, they have the same levels and take the same records.
    In particular it does not matter which of two nodes is set first. -/
theorem Situation.Reachable.sameLevels {s s' : Situation} (h : Reachable c.Allows s)
    (h' : Reachable c.Allows s') (hopen : s.tree.isOpen = true) (hopen' : s'.tree.isOpen = true)
    (hsettings : ∀ n n', s.tree.contains n = true → s'.tree.contains n' = true →
      s.tree.path n = s'.tree.path n' → s.lastSetting n = s'.lastSetting n') :
    (∀ n n', s.tree.contains n = true → s'.tree.contains n' = true →
      s.tree.path n = s'.tree.path n' → SameLevels s.tree n s'.tree n') ∧
    ∀ n m a b, n ≠ m → s.tree.contains n = true → s.tree.contains m = true →
      ∀ k, s.tree.contains k = true →
        SameLevels ((s.tree.withLevel n a).withLevel m b) k
          ((s.tree.withLevel m b).withLevel n a) k := by
  have hwf := h.wellFormed
  have hwf' := h'.wellFormed
  simp only [hwf.shaped.contains_iff, hwf'.shaped.contains_iff] at hsettings ⊢
  refine ⟨?_, ?_⟩
  · intro n n' hn hn' hpath
    refine hwf.sameLevels_of_path_eq hwf' ?_ hn hn' hpath
    intro n n' old new hpath hold hnew hattached hattached'
    have hlast := hsettings n n' ⟨_, place?_of_node? hold, hattached⟩
      ⟨_, place?_of_node? hnew, hattached'⟩ hpath
    -- both levels follow from the name and the last setting, which are the same
    rw [h.recorded.level hopen hold, h'.recorded.level hopen' hnew, hlast,
      hwf.shaped.name_eq_of_path_eq hwf'.shaped hold hnew hpath,
      decide_eq_decide.2 (hwf.shaped.eq_root_iff_of_path_eq hwf'.shaped hold hnew hpath)]
  · intro n m a b hnm hn hm k hk
    exact hwf.sameLevels_withLevel_comm hopen hn hm hnm a b hk

/-- A configuration without floors. -/
def Configuration.floorless : Configuration where
  minimum _ := some .all

/-- A node was made, then its parent was set. -/
def setLate : Situation :=
  (((Situation.initial .floorless).after .floorless (.getOrCreate root "a.b")).after .floorless
    (.getOrCreate root "a")).after .floorless (.setLevel 1 (some .debug))

/-- The parent was set, then the node was made. -/
def setEarly : Situation :=
  (((Situation.initial .floorless).after .floorless (.getOrCreate root "a")).after .floorless
    (.setLevel 1 (some .debug))).after .floorless (.getOrCreate root "a.b")

/-- A node inherits the same level, whether its parent was set before or after it was made. -/
theorem sameLevels_setLate_setEarly :
    setLate.tree.effective 2 = Level.debug.value ∧
      SameLevels setLate.tree 2 setEarly.tree 2 := by
  have hnew := Situation.reachable_initial .floorless
  have hlate := ((hnew.after (.getOrCreate root "a.b") (.inr ⟨rfl, rfl⟩) rfl).after
    (.getOrCreate root "a") (.inr (by decide +kernel)) (by decide +kernel)).after
      (.setLevel 1 (some .debug)) (.inl (by decide +kernel)) (by decide +kernel)
  have hearly := ((hnew.after (.getOrCreate root "a") (.inr ⟨rfl, rfl⟩) rfl).after
    (.setLevel 1 (some .debug)) (.inl (by decide +kernel)) (by decide +kernel)).after
      (.getOrCreate root "a.b") (.inr (by decide +kernel)) (by decide +kernel)
  have hlt : ∀ {s : Situation} {n : NodeId}, Situation.Reachable Configuration.floorless.Allows s →
      s.tree.nodes.size = 3 → s.tree.contains n = true → n < 3 := by
    intro s n hs hsize hn
    obtain ⟨p, hp, -⟩ := hs.wellFormed.shaped.contains_iff.1 hn
    exact hsize ▸ lt_size_of_place? hp
  have hsettings : ∀ n < 3, ∀ m < 3, setLate.tree.path n = setEarly.tree.path m →
      setLate.lastSetting n = setEarly.lastSetting m := by
    decide +kernel
  refine ⟨by decide +kernel, ?_⟩
  refine (Situation.Reachable.sameLevels hlate hearly (by decide +kernel) (by decide +kernel) ?_).1
    2 2 (by decide +kernel) (by decide +kernel) (by decide +kernel)
  intro n m hn hm
  exact hsettings n (hlt hlate (by decide +kernel) hn) m (hlt hearly (by decide +kernel) hm)

end LoggerHierarchy.Tree
