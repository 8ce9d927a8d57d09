import LoggerHierarchy.Proofs.Name.Reading
import LoggerHierarchy.Proofs.Tree.FullNames
import LoggerHierarchy.Proofs.Tree.Reentry
import LoggerHierarchy.Tree.Loggers

namespace LoggerHierarchy.Tree

/-!
# Names that lead to nodes

* `returns_getOrCreate` — a name is followed to its end, whatever is answered, and nobody is asked
  but about new nodes;
* `respects_logger` — the logger of a name is at the end of the path that its segments are;
* `Situation.Reachable.resolves_names` — which names are those of their loggers, and which nodes
  their names lead to;
* `Situation.Reachable.composed_eq_iff` — when a name and another after it lead to the same node at
  once and one after the other.
-/

variable {may : Answers} {t : Tree} {n m : NodeId}

/-! ### Following a name -/

/-- Whether a question is one about the settings of a new node. -/
def Question.isForCreation : Question → Bool
  | minimum _ | level _ => true
  | _ => false

/-- A child is always made, after questions about its creation alone. -/
theorem returns_createChild (n : NodeId) (segment : String) (t : Tree) :
    (createChild n segment t).Returns fun q : Question => q.isForCreation = true := by
  rw [createChild_eq]
  refine ⟨rfl, fun u minimum => ⟨rfl, fun v level => ?_⟩⟩
  beta_reduce
  cases v.child? n segment with
  | some winner => trivial
  | none => trivial

/-- A path is always followed to its end. -/
theorem returns_followOrCreate (n : NodeId) (path : List String) (t : Tree) :
    (followOrCreate n path t).Returns fun q : Question => q.isForCreation = true := by
  induction path generalizing n t with
  | nil => trivial
  | cons segment rest ih =>
    cases hchild : t.child? n segment with
    | some c =>
      rw [followOrCreate_cons_of_child hchild]
      exact Dialogue.Returns.ensure (ih c _)
    | none =>
      have hcreate := returns_createChild n segment (t.pin n)
      rw [followOrCreate_cons_of_free hchild]
      exact Dialogue.Returns.ensure (hcreate.bind fun u c => ih c u)

/-- Nothing that the outside answers or does to the tree keeps a name from being followed to its
    end. -/
theorem returns_getOrCreate (n : NodeId) (name : String) (t : Tree) :
    (getOrCreate n name t).Returns fun q : Question => q.isForCreation = true :=
  returns_followOrCreate n (Name.segments name) t

/-- A logger is always handed out. -/
theorem returns_logger (name : String) (t : Tree) :
    (logger name t).Returns fun q : Question => q.isForCreation = true :=
  Dialogue.Returns.bind (returns_getOrCreate root name t) fun _ _ => trivial

/-- The node of a logger is at the end of the path that the segments of its name are. -/
theorem respects_logger (h : t.WellFormed may) (name : String) :
    Respects may (fun u n => u.IsAttached n ∧ u.path n = Name.segments name) (logger name) t := by
  refine Respects.bind (respects_getOrCreate h h.shaped.root_isAttached name) ?_
  rintro u n hu - ⟨hfind, hn⟩
  have hlater := hu.wellFormed.later_createLogger n
  have hplace : (u.createLogger n).place? n = u.place? n := by
    refine place?_update (fun _ _ => ?_) n
    rfl
  have hstays := hn.of_place?_eq hplace
  have hshaped := hlater.wellFormed.shaped
  refine Respects.modify_bind hlater rfl (Respects.pure hlater.wellFormed ⟨hstays, ?_⟩)
  rw [hshaped.path_of_find? (hlater.grows.find? hshaped hfind hstays).1, hshaped.path_root,
    List.nil_append]

/-! ### Names and nodes -/

/-- A name that a node was made under leads to it iff its segments are the path of the node. -/
theorem Shaped.getIfExists_name_eq_some_iff (h : t.Shaped) (hn : t.IsAttached n) :
    t.getIfExists root (t.name n) = some n ↔
      Name.segments (Name.full (t.path n)) = t.path n := by
  rw [getIfExists, h.find?_eq_some_iff h.root_isAttached hn, h.path_root, List.nil_append,
    h.name_eq hn.exists, eq_comm]

/-- Whenever the outside may look at a context: for every name a logger is handed out, whatever the
    outside does meanwhile, and its name is the one that was asked for iff that one has no dot at
    either end or consists of dots.  And the name of a node leads to it iff its path is empty, or
    has an empty segment at neither end, or consists of empty segments. -/
theorem Situation.Reachable.resolves_names {s : Situation} (h : Reachable may s) :
    (∀ (ω : Type) (world : Dialogue.Outside outside Tree ω), Obliging may world →
      ∀ (name : String) (memory : ω),
        let play := (logger name s.tree).play world memory
        ∃ n, play.result = some n ∧ (play.state.name n = name ↔
          name = "" ∨ (∀ c ∈ name.toList, c = '.') ∨
            name.toList.head? ≠ some '.' ∧ name.toList.getLast? ≠ some '.')) ∧
    ∀ n, s.tree.contains n = true →
      (∀ segment ∈ s.tree.path n, '.' ∉ segment.toList) ∧
      (s.tree.getIfExists root (s.tree.name n) = some n ↔
        s.tree.path n = [] ∨
          ((s.tree.path n).head? ≠ some "" ∧ (s.tree.path n).getLast? ≠ some "") ∨
            ∀ segment ∈ s.tree.path n, segment = "") := by
  have hshaped := h.wellFormed.shaped
  refine ⟨?_, ?_⟩
  · intro ω world hworld name memory
    obtain ⟨hlater, -, hpost⟩ := hworld.play (respects_logger h.wellFormed name) memory
    obtain ⟨n, hn⟩ := (returns_logger name s.tree).exists_result world memory
    obtain ⟨hattached, hpath⟩ := hpost n hn
    refine ⟨n, hn, ?_⟩
    rw [hlater.wellFormed.shaped.name_eq hattached.exists, hpath, Name.full_segments_eq_self_iff]
    -- the empty name consists of dots
    refine ⟨.inr, ?_⟩
    rintro (rfl | hregular)
    · exact .inl (by simp)
    · exact hregular
  · intro n hn
    have hundotted := hshaped.undotted_path n
    refine ⟨hundotted, ?_⟩
    rw [hshaped.getIfExists_name_eq_some_iff (hshaped.contains_iff.1 hn),
      Name.segments_full_eq_self_iff hundotted]

/-- A logger is handed out under another name than the one that was asked for, and a node is not
    found under its own. -/
theorem resolves_names_with_outer_dots :
    let s := (Situation.initial {}).after {} (.getOrCreate root "a..b")
    let play := (logger ".x" s.tree).play (fun q t w => (Configuration.answer {} q, t, w)) ()
    (∃ n, play.result = some n ∧ play.state.name n ≠ ".x") ∧ s.tree.path 2 = ["a", ""] ∧
      s.tree.getIfExists root (s.tree.name 2) ≠ some 2 := by
  have hcreated := (Situation.reachable_initial {}).after (.getOrCreate root "a..b")
    (.inr ⟨rfl, rfl⟩) rfl
  obtain ⟨hloggers, hnodes⟩ := Situation.Reachable.resolves_names hcreated
  obtain ⟨n, hn, hname⟩ := hloggers Unit _ (Configuration.onlyAnswers {}).obliging ".x" ()
  have hpath : ((Situation.initial {}).after {} (.getOrCreate root "a..b")).tree.path 2 =
      ["a", ""] := by decide +kernel
  refine ⟨⟨n, hn, fun h => ?_⟩, hpath, fun h => ?_⟩
  · obtain hempty | hdots | hregular := hname.1 h
    · exact absurd hempty (by decide)
    · exact absurd (hdots 'x' (by simp)) (by decide)
    · exact hregular.1 rfl
  · have hends := (hnodes 2 (by decide +kernel)).2.1 h
    rw [hpath] at hends
    simp at hends

/-! ### One name after another -/

/-- Whenever the outside may look at a context: every name that is followed leads to a node,
    whatever is answered; and if a name with a dot and another name after it was followed at once,
    and the two one after the other, in whatever order and whatever happened in between, both have
    led to the same node, while there are references to where they have led, iff the first name is
    not empty and does not end with a dot. -/
theorem Situation.Reachable.composed_eq_iff {s : Situation} (h : Reachable may s) :
    (∀ start name t, (getOrCreate start name t).Returns fun q : Question => q.isForCreation = true) ∧
    ∀ (start n m k : NodeId) (front back : String),
      (Operation.getOrCreate start (front ++ "." ++ back), [n]) ∈ s.ended →
      (Operation.getOrCreate start front, [m]) ∈ s.ended →
      (Operation.getOrCreate m back, [k]) ∈ s.ended →
      s.tree.isReferenced n = true → s.tree.isReferenced k = true →
      (n = k ↔ front ≠ "" ∧ front.toList.getLast? ≠ some '.') := by
  refine ⟨returns_getOrCreate, ?_⟩
  intro start n m k front back hwhole hfront hback hn hk
  have hshaped := h.wellFormed.shaped
  have hn : s.tree.IsAttached n := hshaped.referenced (isReferenced_iff.1 hn)
  have hk : s.tree.IsAttached k := hshaped.referenced (isReferenced_iff.1 hk)
  -- a name that led to an attached node still does
  have hfind : ∀ {start name m}, (Operation.getOrCreate start name, [m]) ∈ s.ended →
      s.tree.IsAttached m → s.tree.find? start (Name.segments name) = some m :=
    fun hended => ((h.sound.resolves _ hended _ (List.mem_singleton_self _)).2 _ rfl)
  have hfindBack := hfind hback hk
  have hm : s.tree.IsAttached m := ((Grows.refl s.tree).find? hshaped hfindBack hk).2
  have hpathN := hshaped.path_of_find? (hfind hwhole hn)
  have hpathK := hshaped.path_of_find? hfindBack
  rw [hshaped.path_of_find? (hfind hfront hm), List.append_assoc] at hpathK
  rw [← Name.segments_append_dot_eq_iff front back]
  constructor
  · rintro rfl
    exact List.append_cancel_left (hpathN.symm.trans hpathK)
  · intro hsegments
    refine hshaped.eq_of_path_eq hn hk ?_
    rw [hpathN, hpathK, hsegments]

/-- A context in which the name `a..b` was followed at once, and cut at its first dot. -/
def cutAtFirstDot : Situation :=
  (((Situation.initial {}).after {} (.getOrCreate root "a..b")).after {}
    (.getOrCreate root "a")).after {} (.getOrCreate 1 ".b")

/-- The same context after the name was cut at its second dot, too. -/
def cutAtBothDots : Situation :=
  (cutAtFirstDot.after {} (.getOrCreate root "a.")).after {} (.getOrCreate 1 "b")

/-- A name that is cut at the first of two dots leads to the same node in two steps; cut at the
    second, it leads to another. -/
theorem composed_at_first_dot_only :
    cutAtBothDots.ended =
        [(.getOrCreate 1 "b", [4]), (.getOrCreate root "a.", [1]), (.getOrCreate 1 ".b", [3]),
          (.getOrCreate root "a", [1]), (.getOrCreate root "a..b", [3])] ∧
      ((3 : NodeId) = 3 ↔ "a" ≠ "" ∧ "a".toList.getLast? ≠ some '.') ∧
      ((3 : NodeId) = 4 ↔ "a." ≠ "" ∧ "a.".toList.getLast? ≠ some '.') := by
  have hfirst := (((Situation.reachable_initial {}).after (.getOrCreate root "a..b")
    (.inr ⟨rfl, rfl⟩) rfl).after (.getOrCreate root "a") (.inr (by decide +kernel))
      (by decide +kernel)).after (.getOrCreate 1 ".b") (.inl (by decide +kernel))
        (by decide +kernel)
  have hboth : Situation.Reachable (Configuration.Allows {}) cutAtBothDots :=
    (hfirst.after (.getOrCreate root "a.") (.inr (by decide +kernel)) (by decide +kernel)).after
      (.getOrCreate 1 "b") (.inl (by decide +kernel)) (by decide +kernel)
  have hended : cutAtBothDots.ended =
      [(.getOrCreate 1 "b", [4]), (.getOrCreate root "a.", [1]), (.getOrCreate 1 ".b", [3]),
        (.getOrCreate root "a", [1]), (.getOrCreate root "a..b", [3])] := by
    rw [cutAtBothDots, Situation.ended_after [4] (by decide +kernel),
      Situation.ended_after [1] (by decide +kernel), cutAtFirstDot,
      Situation.ended_after [3] (by decide +kernel), Situation.ended_after [1] (by decide +kernel),
      Situation.ended_after [3] (by decide +kernel)]
    rfl
  obtain ⟨-, hcomposed⟩ := Situation.Reachable.composed_eq_iff hboth
  refine ⟨hended, hcomposed root 3 1 3 "a" ".b" ?_ ?_ ?_ (by decide +kernel) (by decide +kernel),
    hcomposed root 3 1 4 "a." "b" ?_ ?_ ?_ (by decide +kernel) (by decide +kernel)⟩
  all_goals
    rw [hended]
    simp

end LoggerHierarchy.Tree
