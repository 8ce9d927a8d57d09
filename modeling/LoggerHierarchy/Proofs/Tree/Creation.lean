import LoggerHierarchy.Proofs.Name.Reading
import LoggerHierarchy.Proofs.Tree.Ledger
import LoggerHierarchy.Proofs.Tree.Recreation
import LoggerHierarchy.Proofs.Tree.Reentry
import Mathlib.Data.List.Infix

namespace LoggerHierarchy.Tree

/-!
# What a name makes

Following a name while all that the outside does is to answer:

* `Leads` — the walk along the segments of a path; `Shaped.find?_eq_some_iff_leads` — it is the one
  that look-ups take;
* `missing` — the fronts of a path that lead nowhere yet;
* `Completes` — a run that adds one node for each of them, asks for its floor and its level, and
  leaves all else as it was; `completes_followOrCreate` — following a path is such a run;
* `Situation.Reachable.completes_getOrCreate` — so is following a name, from every node.
-/

variable {may : Answers} {ω : Type} {world : Dialogue.Outside outside Tree ω} {t u : Tree}
  {n m c : NodeId} {node : Node} {segment : String} {path rest : List String}

/-! ### Walks -/

/-- The walk from a node along the segments of a path. -/
inductive Leads (t : Tree) : NodeId → List String → NodeId → Prop where
  | here {n : NodeId} : Leads t n [] n
  | down {n c m : NodeId} {segment : String} {rest : List String} (hlink : t.Link n segment c)
      (hrest : Leads t c rest m) : Leads t n (segment :: rest) m

/-- A reference that is given up changes no walk. -/
theorem Leads.unpin (h : t.Leads n path m) (k : NodeId) : (t.unpin k).Leads n path m := by
  induction h with
  | here => exact .here
  | down hlink _ ih => exact .down hlink ih

/-- A walk through a child, after the reference to where it started was given up. -/
theorem Leads.through (h : t.Leads c rest m) (hlink : t.Link n segment c) :
    (t.unpin n).Leads n (segment :: rest) m :=
  (Leads.down hlink h).unpin n

/-- Look-ups take the walk along the path, if there is one. -/
theorem Shaped.find?_eq_some_iff_leads (h : t.Shaped) :
    t.find? n path = some m ↔ t.Leads n path m := by
  constructor
  · intro hfind
    induction path generalizing n with
    | nil =>
      obtain rfl : n = m := by simpa using hfind
      exact .here
    | cons segment rest ih =>
      rw [find?_cons, Option.bind_eq_some_iff] at hfind
      obtain ⟨c, hc, hfind⟩ := hfind
      exact .down (link_of_child? hc) (ih hfind)
  · intro hleads
    induction hleads with
    | here => rfl
    | down hlink _ ih => rw [find?_cons, h.child?_eq_some_iff.2 hlink, Option.bind_some, ih]

/-! ### What is missing -/

/-- The fronts of a path that lead nowhere, the shortest first. -/
def missing (t : Tree) (n : NodeId) (path : List String) : List (List String) :=
  path.inits.filter fun front => (t.find? n front).isNone

/-- A reference that is taken changes nothing of what is missing. -/
theorem missing_pin (t : Tree) (k n : NodeId) (path : List String) :
    (t.pin k).missing n path = t.missing n path := by
  simp only [missing, find?_pin]

/-- Where there is a child, what is missing is missing below it. -/
theorem missing_cons_of_child (hchild : t.child? n segment = some c) :
    t.missing n (segment :: rest) = (t.missing c rest).map (segment :: ·) := by
  simp only [missing, List.inits_cons, List.filter_cons, find?_nil, List.filter_map]
  simp [hchild, Function.comp_def]

/-- Where there is none, the whole rest of the path is missing. -/
theorem missing_cons_of_free (hfree : t.child? n segment = none) :
    t.missing n (segment :: rest) = rest.inits.map (segment :: ·) := by
  simp only [missing, List.inits_cons, List.filter_cons, find?_nil, List.filter_map]
  simp [hfree, Function.comp_def]

/-- From a node without children all of a path is missing. -/
theorem inits_eq_of_childless (hchildless : ∀ segment, t.child? n segment = none)
    (path : List String) : path.inits = [] :: t.missing n path := by
  cases path with
  | nil => rfl
  | cons segment rest => rw [List.inits_cons, missing_cons_of_free (hchildless segment)]

/-- The front of a path that leads somewhere does so, too. -/
theorem exists_find?_of_prefix {front : List String} (hfront : front <+: path)
    (h : t.find? n path = some m) : ∃ k, t.find? n front = some k := by
  obtain ⟨back, rfl⟩ := hfront
  rw [find?_append, Option.bind_eq_some_iff] at h
  obtain ⟨k, hk, -⟩ := h
  exact ⟨k, hk⟩

/-! ### Added nodes -/

/-- A tree with more nodes, all made below the root. -/
def extended (t : Tree) (fresh : Array Node) : Tree :=
  { t with nodes := t.nodes ++ fresh, created := t.created + fresh.size }

@[simp] theorem extended_empty (t : Tree) : t.extended #[] = t := by
  simp [extended]

/-- New nodes are added one by one, the oldest first. -/
theorem extended_insert (t : Tree) (node : Node) (fresh : Array Node) :
    (t.insert node).extended fresh = t.extended (#[node] ++ fresh) := by
  have hnodes : t.nodes.push node ++ fresh = t.nodes ++ (#[node] ++ fresh) := by
    rw [← Array.append_assoc, ← Array.push_eq_append]
  have hcreated : t.created + 1 + fresh.size = t.created + (#[node] ++ fresh).size := by
    rw [Array.size_append, Array.size_singleton, Nat.add_assoc]
  simp only [extended, insert, hnodes, hcreated]

/-- Nodes that were there stay as they were. -/
theorem node?_extended (fresh : Array Node) (hnode : t.node? n = some node) :
    (t.extended fresh).node? n = some node := by
  have hlt : n < t.nodes.size := (Array.getElem?_eq_some_iff.1 hnode).1
  rw [node?, extended, Array.getElem?_append_left hlt]
  exact hnode

/-- New nodes leave the links between old ones as they are. -/
theorem Link.extended (h : t.Link n segment c) (fresh : Array Node) :
    (t.extended fresh).Link n segment c := by
  obtain ⟨p, hp, hrest⟩ := h
  obtain ⟨node, hnode, rfl⟩ := place?_eq_some.1 hp
  exact ⟨node.place, place?_of_node? (node?_extended fresh hnode), hrest⟩

/-! ### Runs that complete a path -/

/-- What is asked about a new node. -/
def inquiries (t : Tree) (n : NodeId) : List Question :=
  [.minimum (t.name n), .level (t.name n)]

/-- The numbers of the nodes that are added for what a path is missing. -/
def added (t : Tree) (n : NodeId) (path : List String) : List NodeId :=
  List.range' t.nodes.size (t.missing n path).length

/-- A run that ends at the end of a path and adds one node for each front of the path that led
    nowhere, the shortest first; about each of these, and about no other, its floor and its level
    are asked; and nothing else is changed. -/
structure Completes (t : Tree) (n : NodeId) (path : List String)
    (play : Dialogue.Play outside Tree ω NodeId) : Prop where
  arrives : ∃ m, play.result = some m ∧ play.state.Leads n path m
  adds : ∃ fresh, fresh.size = (t.missing n path).length ∧ play.state = t.extended fresh
  places : List.Forall₂ (fun front c => play.state.Leads n front c) (t.missing n path)
    (t.added n path)
  asks : play.questions = (t.added n path).flatMap play.state.inquiries

/-- At the end of a path nothing is left to do. -/
theorem Completes.here (t : Tree) (n : NodeId) (w : ω) :
    t.Completes n [] ⟨[], some n, t, w⟩ where
  arrives := ⟨n, rfl, .here⟩
  adds := ⟨#[], rfl, (extended_empty t).symm⟩
  places := .nil
  asks := rfl

/-- A run from a child on completes the path through that child. -/
theorem Completes.of_child {play : Dialogue.Play outside Tree ω NodeId}
    (h : (t.pin n).Completes c rest play) (hchild : t.child? n segment = some c) :
    t.Completes n (segment :: rest) { play with state := play.state.unpin n } := by
  obtain ⟨⟨m, hresult, hleads⟩, ⟨fresh, hsize, hstate⟩, hplaces, hasks⟩ := h
  have hlink : play.state.Link n segment c := by
    rw [hstate]
    exact Link.extended (link_of_child? hchild) fresh
  rw [missing_pin] at hsize hplaces
  have hadded : t.added n (segment :: rest) = (t.pin n).added c rest := by
    rw [added, added, missing_cons_of_child hchild, missing_pin, List.length_map]
    rfl
  refine ⟨⟨m, hresult, hleads.through hlink⟩, ⟨fresh, ?_, ?_⟩, ?_, ?_⟩
  · rw [missing_cons_of_child hchild, List.length_map, hsize]
  · change play.state.unpin n = _
    rw [hstate]
    exact congrArg (extended · fresh) (unpin_pin t n)
  · rw [missing_cons_of_child hchild, hadded, List.forall₂_map_left_iff]
    exact hplaces.imp fun _ _ hleads => hleads.through hlink
  · rw [hadded]
    exact hasks

/-- A run from a new child on completes the path through that child, with the questions about it
    before. -/
theorem Completes.of_free {play : Dialogue.Play outside Tree ω NodeId}
    {before : List (Dialogue.Move outside Tree)}
    (h : ((t.pin n).insert node).Completes t.nodes.size rest play)
    (hfree : t.child? n segment = none)
    (hlink : ((t.pin n).insert node).Link n segment t.nodes.size)
    (hchildless : ∀ segment, ((t.pin n).insert node).child? t.nodes.size segment = none)
    (hasked : before.filterMap Dialogue.Move.question? = [.minimum node.name, .level node.name]) :
    t.Completes n (segment :: rest)
      { play with moves := before ++ play.moves, state := play.state.unpin n } := by
  obtain ⟨⟨m, hresult, hleads⟩, ⟨fresh, hsize, hstate⟩, hplaces, hasks⟩ := h
  have hlink : play.state.Link n segment t.nodes.size := by
    rw [hstate]
    exact hlink.extended fresh
  -- what is missing from `n` on is the new child and what is missing from there on
  have hmissing : t.missing n (segment :: rest) =
      [segment] :: (((t.pin n).insert node).missing t.nodes.size rest).map (segment :: ·) := by
    rw [missing_cons_of_free hfree, inits_eq_of_childless hchildless, List.map_cons]
  have hadded : t.added n (segment :: rest) =
      t.nodes.size :: ((t.pin n).insert node).added t.nodes.size rest := by
    have hnext : ((t.pin n).insert node).nodes.size = t.nodes.size + 1 := Array.size_push _
    rw [added, added, hmissing, List.length_cons, List.length_map, List.range'_succ, hnext]
  refine ⟨⟨m, hresult, hleads.through hlink⟩, ⟨#[node] ++ fresh, ?_, ?_⟩, ?_, ?_⟩
  · rw [hmissing, List.length_cons, List.length_map, Array.size_append, hsize]
    exact Nat.add_comm _ _
  · change play.state.unpin n = _
    rw [hstate, extended_insert]
    exact congrArg (extended · (#[node] ++ fresh)) (unpin_pin t n)
  · rw [hmissing, hadded]
    refine .cons (Leads.here.through hlink) ?_
    rw [List.forall₂_map_left_iff]
    exact hplaces.imp fun _ _ hleads => hleads.through hlink
  · have hname : play.state.name t.nodes.size = node.name := by
      have hnode : ((t.pin n).insert node).node? t.nodes.size = some node :=
        (node?_insert _ _ _).trans (if_pos rfl)
      rw [hstate, name, node?_extended fresh hnode]
      rfl
    rw [hadded, List.flatMap_cons]
    change (before ++ play.moves).filterMap Dialogue.Move.question? = _
    rw [List.filterMap_append, hasked]
    refine congrArg₂ (· ++ ·) ?_ hasks
    change _ = inquiries play.state _
    rw [inquiries, hname]

/-! ### Following a path -/

/-- What is made of a missing child. -/
theorem play_createChild_of_free (hworld : OnlyAnswers may world) (h : t.WellFormed may)
    (hn : t.IsAttached n) (hfree : t.child? n segment = none) (hdots : '.' ∉ segment.toList)
    (w : ω) :
    ∃ (minimum level : Option Level) (w' : ω), may (.minimum (t.childName n segment)) minimum ∧
      (createChild n segment t).play world w =
        ⟨[.asked t (.minimum (t.childName n segment)) minimum t,
          .asked t (.level (t.childName n segment)) level t,
          .announced (createdNode (t.childName n segment))], some t.nodes.size,
          t.insert (t.childNode n segment minimum level), w'⟩ := by
  obtain ⟨hmay, hfirst⟩ := hworld (.minimum (t.childName n segment)) t w
  generalize hanswer : world (.minimum (t.childName n segment)) t w = answer at hmay hfirst
  obtain ⟨minimum, u, w'⟩ := answer
  obtain rfl : t = u := hfirst.symm
  have hsecond := (hworld (.level (t.childName n segment)) t w').2
  generalize hanswer' : world (.level (t.childName n segment)) t w' = answer at hsecond
  obtain ⟨level, v, w''⟩ := answer
  obtain rfl : t = v := hsecond.symm
  have hinsert := h.later_insert hn hfree hdots hmay level
  -- the new node is in step with its parent already
  have hresync := hinsert.wellFormed.resync_eq ⟨_, (place?_insert _ _ _).trans (if_pos rfl), rfl⟩
  refine ⟨minimum, level, w'', hmay, ?_⟩
  rw [createChild_eq, Dialogue.play_of_ask rfl hanswer, Dialogue.play_of_ask rfl hanswer']
  simp only [hfree, hresync]
  rfl

/-- Following a path completes it. -/
theorem completes_followOrCreate (hworld : OnlyAnswers may world) (h : t.WellFormed may)
    (hn : t.IsAttached n) (hdots : ∀ segment ∈ path, '.' ∉ segment.toList) (w : ω) :
    t.Completes n path ((followOrCreate n path t).play world w) := by
  induction path generalizing t n w with
  | nil => exact .here t n w
  | cons segment rest ih =>
    have hpin := (h.later_pin hn).wellFormed
    have hdotsRest : ∀ segment ∈ rest, '.' ∉ segment.toList :=
      fun segment hsegment => hdots segment (List.mem_cons_of_mem _ hsegment)
    -- the walk goes down to a child, or to one that it makes
    cases hchild : t.child? n segment with
    | some c =>
      have hc : (t.pin n).IsAttached c := (link_of_child? hchild).isAttached
      rw [followOrCreate_cons_of_child hchild, Dialogue.play_ensure]
      exact (ih hpin hc hdotsRest w).of_child hchild
    | none =>
      have hfree : (t.pin n).child? n segment = none := hchild
      have hdotsHere := hdots segment List.mem_cons_self
      obtain ⟨minimum, level, w', hmay, hcreate⟩ :=
        play_createChild_of_free hworld hpin hn hfree hdotsHere w
      have hinsert := (hpin.later_insert hn hfree hdotsHere hmay level).wellFormed
      have hnew : ((t.pin n).insert ((t.pin n).childNode n segment minimum level)).Link n segment
          t.nodes.size :=
        ⟨_, (place?_insert _ _ _).trans (if_pos rfl), rfl, rfl, rfl⟩
      rw [followOrCreate_cons_of_free hchild, Dialogue.play_ensure, Dialogue.play_bind, hcreate,
        Dialogue.Play.bind_of_result rfl]
      exact (ih hinsert hnew.isAttached hdotsRest w').of_free hchild hnew
        (child?_insert_size hinsert.shaped) rfl

/-- Whenever the outside may look at a context: a name is read in one way, as its segments.  From
    any node `getIfExists` takes the walk along these, which there is iff all fronts of them lead
    somewhere, and changes nothing.  And if the outside does no more than to answer, `getOrCreate`
    takes it as well, after it has added one node for each front that led nowhere, and asked for
    the floor and for the level of each of these, once and in their order; all nodes that there
    were stay as they were, and `getIfExists` leads to the same node from then on. -/
theorem Situation.Reachable.completes_getOrCreate {s : Situation} (h : Reachable may s)
    (hstart : s.tree.contains n = true) (name : String) :
    (∀ path, Name.Reads name.toList path ↔ path = Name.segments name) ∧
    (∀ m, s.tree.getIfExists n name = some m ↔ s.tree.Leads n (Name.segments name) m) ∧
    ((∃ m, s.tree.getIfExists n name = some m) ↔
      ∀ front, front <+: Name.segments name → ∃ m, s.tree.Leads n front m) ∧
    (Operation.getIfExists n name).run s.tree =
      .done s.tree (s.tree.getIfExists n name).toList ∧
    ∀ (ω : Type) (world : Dialogue.Outside outside Tree ω), OnlyAnswers may world →
      ∀ memory : ω,
        let play := (getOrCreate n name s.tree).play world memory
        s.tree.Completes n (Name.segments name) play ∧
          (∀ m node, s.tree.node? m = some node → play.state.node? m = some node) ∧
          play.state.getIfExists n name = play.result := by
  have hwf := h.wellFormed
  have hshaped := hwf.shaped
  have hn : s.tree.IsAttached n := hshaped.contains_iff.1 hstart
  have hleads : ∀ {path m}, s.tree.find? n path = some m ↔ s.tree.Leads n path m :=
    hshaped.find?_eq_some_iff_leads
  refine ⟨fun _ => Name.reads_iff, fun _ => hleads, ?_, rfl, ?_⟩
  · constructor
    · rintro ⟨m, hm⟩ front hfront
      obtain ⟨k, hk⟩ := exists_find?_of_prefix hfront hm
      exact ⟨k, hleads.1 hk⟩
    · intro hall
      obtain ⟨m, hm⟩ := hall _ (List.prefix_refl _)
      exact ⟨m, hleads.2 hm⟩
  · intro ω world hworld memory
    have hdots : ∀ segment ∈ Name.segments name, '.' ∉ segment.toList :=
      fun _ => Name.dot_notMem_of_mem_segments
    have hcompletes := completes_followOrCreate hworld hwf hn hdots memory
    -- the new nodes come after all others, and the name leads to the result
    obtain ⟨⟨m, hresult, -⟩, ⟨fresh, -, hstate⟩, -, -⟩ := id hcompletes
    obtain ⟨-, -, hpost⟩ := hworld.obliging.play (respects_getOrCreate hwf hn name) memory
    refine ⟨hcompletes, ?_, (hpost m hresult).1.trans hresult.symm⟩
    intro k node hnode
    change ((followOrCreate n _ s.tree).play world memory).state.node? k = _
    rw [hstate]
    exact node?_extended fresh hnode

/-- A name with two of its four fronts missing makes two nodes. -/
theorem completes_partly_missing :
    let s := (Situation.initial {}).after {} (.getOrCreate root "a")
    let play := (getOrCreate root "a..b" s.tree).play
      (fun q t w => (Configuration.answer {} q, t, w)) ()
    s.tree.missing root (Name.segments "a..b") = [["a", ""], ["a", "", "b"]] ∧
      play.state.nodes.size = 4 ∧ play.questions =
        [.minimum "a.", .level "a.", .minimum "a..b", .level "a..b"] := by
  have hcreated := (Situation.reachable_initial {}).after (.getOrCreate root "a")
    (.inr ⟨rfl, rfl⟩) rfl
  have hroot : ((Situation.initial {}).after {} (.getOrCreate root "a")).tree.contains root =
      true := by
    decide +kernel
  obtain ⟨-, -, -, -, hplays⟩ := Situation.Reachable.completes_getOrCreate hcreated hroot "a..b"
  obtain ⟨⟨-, ⟨fresh, hsize, hstate⟩, -, hasks⟩, -⟩ :=
    hplays Unit _ (Configuration.onlyAnswers {}) ()
  have hmissing : ((Situation.initial {}).after {} (.getOrCreate root "a")).tree.missing root
      (Name.segments "a..b") = [["a", ""], ["a", "", "b"]] := by
    decide +kernel
  refine ⟨hmissing, ?_, hasks.trans (by decide +kernel)⟩
  rw [hstate, extended, Array.size_append, hsize, hmissing]
  decide +kernel

end LoggerHierarchy.Tree
