import LoggerHierarchy.Proofs.Tree.Course
import Mathlib.Data.List.Forall2

namespace LoggerHierarchy.Tree

/-!
# Where floors come from

Runs in which all answers are written down, by the operation that they were given to and by the
nodes that it made of them:

* `Exchange`, `Minutes` — a question with its answer, and what is written down of a run;
  `Documented` — the runs with their minutes, `Situation.Reachable.exists_minutes` — all runs have
  some;
* `Founded` — the floor of a node is the one that its maker was told last, else that of its parent;
* `Builds` — all that a dialogue adds is founded on what it was told until then;
  `builds_followOrCreate` — so it is when a path is followed;
* `Minutes.Hold`, `Documented.hold` — in every run all nodes are founded on the minutes.
-/

variable {may : Answers} {op : Operation} {α β : Type} {t u v : Tree} {n : NodeId} {node : Node}

/-- A question with the answer that it got. -/
abbrev Exchange : Type :=
  (q : Question) × q.Answer

/-- What is written down of a run. -/
structure Minutes where
  /-- What the operations that wait were told, the one that was called last first. -/
  told : List (List Exchange) := []
  /-- What the operation that made a node had been told until then. -/
  made : NodeId → Option (List Exchange) := fun _ => none

namespace Minutes

/-- All nodes that were not made before are made by an operation that was told this. -/
def note (m : Minutes) (told : List Exchange) (t : Tree) : Minutes :=
  { m with made := fun n => (m.made n).or ((t.node? n).map fun _ => told) }

/-- An operation that was told this goes on up to its next question or its end. -/
def proceed (m : Minutes) (told : List Exchange) : Dialogue outside Tree (List NodeId) → Minutes
  | .done t _ | .aborted t => m.note told t
  | .announce _ d => m.proceed told d
  | .ask t _ _ => { m.note told t with told := told :: m.told }

end Minutes

/-- The runs of a new context, with their minutes: an operation that is called was told nothing, and
    an answer is added to what the operation that gets it was told. -/
inductive Documented (may : Answers) : Situation → Minutes → Prop where
  | start {answer : (q : Question) → q.Answer}
      (hminimum : may (.minimum "") (answer (.minimum "")))
      (hlevel : may (.level "") (answer (.level ""))) :
      Documented may { tree := ((plant {}).answeredBy answer).1 }
        (Minutes.note {} [⟨.minimum "", answer (.minimum "")⟩, ⟨.level "", answer (.level "")⟩]
          ((plant {}).answeredBy answer).1)
  | call {s : Situation} {minutes : Minutes} (hs : Documented may s minutes) (op : Operation)
      (hpermitted : s.Permits op) (hremoving : s.isRemoving = false) :
      Documented may (s.proceed op (op.call s.tree)) (minutes.proceed [] (op.call s.tree))
  | answer {t : Tree} {frame : Frame} {waiting : List Frame}
      {ended : List (Operation × List NodeId)} {told : List Exchange} {rest : List (List Exchange)}
      {made : NodeId → Option (List Exchange)} {a : frame.question.Answer}
      (hs : Documented may ⟨t, frame :: waiting, ended⟩ ⟨told :: rest, made⟩)
      (hmay : may frame.question a) :
      Documented may (Situation.proceed ⟨t, waiting, ended⟩ frame.operation (frame.resume t a))
        (Minutes.proceed ⟨rest, made⟩ (told ++ [⟨frame.question, a⟩]) (frame.resume t a))
  | copy {s : Situation} {minutes : Minutes} (hs : Documented may s minutes) {n : NodeId}
      (hheld : n ∈ s.tree.held) : Documented may { s with tree := s.tree.hold n } minutes
  | drop {s : Situation} {minutes : Minutes} (hs : Documented may s minutes) (n : NodeId) :
      Documented may { s with tree := s.tree.release n } minutes

/-- A run with minutes is a run. -/
theorem Documented.reachable {s : Situation} {minutes : Minutes} (h : Documented may s minutes) :
    Situation.Reachable may s := by
  induction h with
  | start hminimum hlevel => exact .start hminimum hlevel
  | call _ op hpermitted hremoving ih => exact ih.step (.call op hpermitted hremoving)
  | answer _ hmay ih => exact ih.step (.answer hmay)
  | copy _ hheld ih => exact ih.step (.copy hheld)
  | drop _ n ih => exact ih.step (.drop n)

/-- There are minutes of every operation that waits, as it goes on to its next question. -/
theorem length_told_proceed {s : Situation} {minutes : Minutes} {told : List Exchange}
    (h : minutes.told.length = s.waiting.length) (op : Operation)
    (d : Dialogue outside Tree (List NodeId)) :
    (minutes.proceed told d).told.length = (s.proceed op d).waiting.length := by
  induction d with
  | done | aborted => exact h
  | announce e d ih => exact ih
  | ask u q resume => exact congrArg (· + 1) h

/-- There is an account of all operations that wait, and of no other. -/
theorem Documented.length_told {s : Situation} {minutes : Minutes} (h : Documented may s minutes) :
    minutes.told.length = s.waiting.length := by
  induction h with
  | start => rfl
  | call _ op _ _ ih => exact length_told_proceed ih op _
  | answer _ _ ih => exact length_told_proceed (Nat.succ.inj ih) _ _
  | copy _ _ ih => exact ih
  | drop _ _ ih => exact ih

/-- Minutes can be taken of every run. -/
theorem Situation.Reachable.exists_minutes {s : Situation} (h : Situation.Reachable may s) :
    ∃ minutes, Documented may s minutes := by
  induction h with
  | start hminimum hlevel => exact ⟨_, .start hminimum hlevel⟩
  | step _ hstep ih =>
    obtain ⟨minutes, hs⟩ := ih
    cases hstep with
    | call op hpermitted hremoving => exact ⟨_, hs.call op hpermitted hremoving⟩
    | answer hmay =>
      -- the operation that gets the answer is on record, as all that wait are
      obtain ⟨told, made⟩ := minutes
      cases told with
      | nil => exact absurd hs.length_told (by simp)
      | cons told rest => exact ⟨_, hs.answer hmay⟩
    | copy hheld => exact ⟨_, hs.copy hheld⟩
    | drop n => exact ⟨_, hs.drop n⟩

/-! ### Floors -/

/-- The floor that an answer calls for: its own, else that of the parent, or the default where there
    is no parent. -/
def floor? (t : Tree) (parent? : Option NodeId) (answer : Option Level) : Option Int32 :=
  (answer.map (·.value)).or
    (match parent? with
    | some above => (t.node? above).map (·.minimum)
    | none => some Level.info.value)

/-- Whether a node was made after its floor and then its level were answered for its name, and has
    the floor that the answer called for. -/
def Founded (t : Tree) (told : List Exchange) (node : Node) : Prop :=
  ∃ (before : List Exchange) (minimum level : Option Level),
    told = before ++ [⟨.minimum node.name, minimum⟩, ⟨.level node.name, level⟩] ∧
      t.floor? node.parent? minimum = some node.minimum

/-- What an answer calls for does not change while the tree grows. -/
theorem Grows.floor? {parent? : Option NodeId} {answer : Option Level} {value : Int32}
    (h : Grows t u) (hfloor : t.floor? parent? answer = some value) :
    u.floor? parent? answer = some value := by
  cases answer with
  | some level => exact hfloor
  | none =>
    cases parent? with
    | none => exact hfloor
    | some above =>
      obtain ⟨node, hnode, rfl⟩ := Option.map_eq_some_iff.1 hfloor
      obtain ⟨new, hnew, hplace⟩ := h.exists_node? hnode
      exact Option.map_eq_some_iff.2 ⟨new, hnew, congrArg Place.minimum hplace⟩

/-- A node stays founded on what its maker was told. -/
theorem Founded.grows {told : List Exchange} {new : Node} (h : t.Founded told node)
    (hgrows : Grows t u) (hplace : new.place = { node.place with attached := new.attached }) :
    u.Founded told new := by
  obtain ⟨before, minimum, level, htold, hfloor⟩ := h
  have hname : new.name = node.name := congrArg Place.name hplace
  have hparent : new.parent? = node.parent? := congrArg Place.parent? hplace
  have hminimum : new.minimum = node.minimum := congrArg Place.minimum hplace
  refine ⟨before, minimum, level, ?_, ?_⟩
  · rw [hname, htold]
  · rw [hparent, hminimum]
    exact hgrows.floor? hfloor

/-! ### What dialogues add -/

/-- A tree that has grown by nodes that are founded on what was told. -/
structure Adds (told : List Exchange) (t u : Tree) : Prop where
  grows : Grows t u
  founded {n : NodeId} {node : Node} : u.node? n = some node → t.node? n = none →
    u.Founded told node

namespace Adds

variable {told : List Exchange}

/-- Most operations add nothing. -/
theorem of_alters (h : Alters may op t u) (hop : ¬ ∃ start name, op = .getOrCreate start name) :
    Adds told t u :=
  ⟨h.grows, fun hnew hnone => absurd (h.fresh hnew hnone).creates hop⟩

/-- Nothing is added when no node changes. -/
theorem of_nodes (hnodes : u.nodes = t.nodes) : Adds told t u where
  grows := Grows.of_place? fun n => by simp only [place?, node?, hnodes]
  founded := by
    intro n node hnew hnone
    rw [node?, hnodes] at hnew
    exact absurd (hnew.symm.trans hnone) (by simp)

/-- Nothing is added to a tree that stays as it is. -/
theorem refl (t : Tree) : Adds told t t :=
  of_nodes rfl

/-- Nodes that are added in two steps. -/
theorem trans (h : Adds told t u) (h' : Adds told u v) : Adds told t v where
  grows := h.grows.trans h'.grows
  founded := by
    intro n node hnew hnone
    cases hmid : u.node? n with
    | none => exact h'.founded hnew hmid
    | some mid =>
      obtain ⟨new, hnew', hplace⟩ := h'.grows.exists_node? hmid
      obtain rfl := Option.some.inj (hnew'.symm.trans hnew)
      exact (h.founded hmid hnone).grows h'.grows hplace

/-- The root, made of the answers for its name. -/
theorem rootNode (minimum level : Option Level) :
    Adds [⟨.minimum "", minimum⟩, ⟨.level "", level⟩] {}
      { nodes := #[Tree.rootNode minimum level] } where
  grows := by
    intro n p hp
    simp [place?, node?] at hp
  founded := by
    intro n node hnew _
    obtain ⟨-, rfl⟩ := eq_of_node?_planted hnew
    refine ⟨[], minimum, level, rfl, ?_⟩
    cases minimum <;> rfl

/-- A child, made of the answers for its name. -/
theorem insert (hn : t.Exists n) (told : List Exchange) (segment : String)
    (minimum level : Option Level) :
    Adds (told ++ [⟨.minimum (t.childName n segment), minimum⟩] ++
      [⟨.level (t.childName n segment), level⟩]) t
        (t.insert (t.childNode n segment minimum level)) where
  grows := fun c p hp => ⟨p.attached, place?_insert_of_some _ hp, id⟩
  founded := by
    -- only the new node was not there before
    intro c node hnew hnone
    rw [node?_insert, hnone] at hnew
    split at hnew
    · -- without an answer the floor is that of the parent, which the new node leaves as it is
      obtain rfl := Option.some.inj hnew
      refine ⟨told, minimum, level, by simp [childNode], ?_⟩
      obtain ⟨p, hp⟩ := hn
      obtain ⟨above, habove, -⟩ := place?_eq_some.1 hp
      have habove' := (node?_insert t (t.childNode n segment minimum level) n).trans
        ((if_neg (Nat.ne_of_lt (lt_size_of_place? hp))).trans habove)
      have hminimum : t.minimum n = above.minimum := by simp [Tree.minimum, habove]
      cases minimum with
      | some minimum => rfl
      | none =>
        change (Option.map _ (Tree.node? _ n)) = some (t.minimum n)
        rw [habove', hminimum]
        rfl
    · exact absurd hnew (by simp)

end Adds

/-- Whether all that a dialogue adds, from where it goes on in a tree, is founded on what it was
    told until then, whatever it is told as long as nodes stay in their places; and whether it
    ends, if it is not aborted, as `post` says. -/
def Builds (post : Tree → α → Prop) :
    List Exchange → Dialogue outside Tree α → Tree → Prop
  | told, .done u a, t => Adds told t u ∧ post u a
  | told, .aborted u, t => Adds told t u
  | told, .announce _ d, t => Builds post told d t
  | told, .ask u q resume, t =>
    Adds told t u ∧ ∀ v a, Grows u v → Builds post (told ++ [⟨q, a⟩]) (resume v a) v

namespace Builds

variable {told : List Exchange} {post : Tree → α → Prop} {d : Dialogue outside Tree α}

/-- What was added before a dialogue goes on needs the same foundation. -/
theorem after (hadds : Adds told t u) (h : Builds post told d u) : Builds post told d t := by
  induction d with
  | done v a => exact ⟨hadds.trans h.1, h.2⟩
  | aborted v => exact hadds.trans h
  | announce e d ih => exact ih h
  | ask v q resume => exact ⟨hadds.trans h.1, h.2⟩

/-- One dialogue after another, which is told all that the first was told. -/
theorem bind {next : Tree → β → Prop} {k : Tree → α → Dialogue outside Tree β}
    (h : Builds post told d t) (hk : ∀ told u a, post u a → Builds next told (k u a) u) :
    Builds next told (d.bind k) t := by
  induction d generalizing told t with
  | done u a => exact after h.1 (hk told u a h.2)
  | aborted u => exact h
  | announce e d ih => exact ih h
  | ask u q resume ih => exact ⟨h.1, fun v a hv => ih v a (h.2 v a hv)⟩

/-- A last change of references. -/
theorem ensure {f : Tree → Tree} (hf : ∀ u, (f u).nodes = u.nodes) (h : Builds Any told d t) :
    Builds Any told (d.ensure f) t := by
  induction d generalizing told t with
  | done u a => exact ⟨h.1.trans (.of_nodes (hf u)), trivial⟩
  | aborted u => exact Adds.trans h (.of_nodes (hf u))
  | announce e d ih => exact ih h
  | ask u q resume ih => exact ⟨h.1, fun v a hv => ih v a (h.2 v a hv)⟩

end Builds

/-- A new child has the floor that was answered for its name, or its parent's. -/
theorem builds_createChild (hn : t.Exists n) (segment : String) (told : List Exchange) :
    Builds Exists told (createChild n segment t) t := by
  rw [createChild_eq]
  refine ⟨.refl t, fun u minimum hu => ⟨.refl u, fun v level hv => ?_⟩⟩
  beta_reduce
  -- the name that was asked about is the one that the node gets
  have hv : Grows t v := hu.trans hv
  have hname : t.childName n segment = v.childName n segment := (hv.childName_eq hn segment).symm
  cases hchild : v.child? n segment with
  | some winner =>
    obtain ⟨p, hp, -⟩ := link_of_child? hchild
    exact ⟨.refl v, p, hp⟩
  | none =>
    have hinsert := Adds.insert (hv.exists hn) told segment minimum level
    have hresync : Alters (fun _ _ => True) .rootNode
        (v.insert (v.childNode n segment minimum level)) _ := Alters.resync _ v.nodes.size
    have hnew := (place?_insert v (v.childNode n segment minimum level) _).trans (if_pos rfl)
    rw [hname]
    exact ⟨hinsert.trans (.of_alters hresync (by simp)), hresync.grows.exists ⟨_, hnew⟩⟩

/-- All nodes that are made along a path have the floors that were answered, or their parents'. -/
theorem builds_followOrCreate {path : List String} (hn : t.Exists n) (told : List Exchange) :
    Builds Any told (followOrCreate n path t) t := by
  induction path generalizing n t told with
  | nil => exact ⟨.refl t, trivial⟩
  | cons segment rest ih =>
    have hpin : Adds told t (t.pin n) := .of_nodes rfl
    cases hchild : t.child? n segment with
    | some c =>
      obtain ⟨p, hp, -⟩ := link_of_child? hchild
      have hc : (t.pin n).Exists c := ⟨p, hp⟩
      rw [followOrCreate_cons_of_child hchild]
      exact .after hpin (.ensure (fun _ => rfl) (ih hc told))
    | none =>
      have hn : (t.pin n).Exists n := hn
      have hcreate := builds_createChild hn segment told
      rw [followOrCreate_cons_of_free hchild]
      exact .after hpin (.ensure (fun _ => rfl) (hcreate.bind fun told u c hc => ih hc told))

/-- All that a look-up makes for the outside is founded on the answers that it got. -/
theorem Operation.builds_call (hop : ∃ start name, op = .getOrCreate start name)
    (hn : t.Exists op.subject) (told : List Exchange) : Builds Any told (op.call t) t := by
  obtain ⟨start, name, rfl⟩ := hop
  have hrun : Builds Any told ((Operation.getOrCreate start name).run t) t :=
    (builds_followOrCreate hn told).bind fun _ u _ _ => ⟨.refl u, trivial⟩
  exact hrun.bind fun _ u _ _ => ⟨.of_nodes rfl, trivial⟩

/-! ### In every run -/

/-- What the minutes of a run say of it. -/
structure Minutes.Hold (minutes : Minutes) (t : Tree) (waiting : List Frame) : Prop where
  founded {n : NodeId} {node : Node} : t.node? n = some node →
    ∃ told, minutes.made n = some told ∧ t.Founded told node
  unmade {n : NodeId} : t.node? n = none → minutes.made n = none
  /-- What is still going to make nodes will found them on what it was told. -/
  waiting : List.Forall₂ (fun frame told =>
    (∃ start name, frame.operation = .getOrCreate start name) → ∃ asked, Grows asked t ∧
      ∀ u a, Grows asked u → Builds Any (told ++ [⟨frame.question, a⟩]) (frame.resume u a) u)
    waiting minutes.told

namespace Minutes.Hold

variable {s : Situation} {minutes : Minutes} {told : List Exchange} {waiting : List Frame}

/-- The minutes hold after nodes were added that are founded on what was told. -/
theorem note (h : minutes.Hold t waiting) (hadds : Adds told t u) :
    (minutes.note told u).Hold u waiting where
  founded := by
    intro n node hnode
    cases hold : t.node? n with
    | none =>
      refine ⟨told, ?_, hadds.founded hnode hold⟩
      simp [Minutes.note, h.unmade hold, hnode]
    | some old =>
      obtain ⟨before, hmade, hfounded⟩ := h.founded hold
      obtain ⟨new, hnew, hplace⟩ := hadds.grows.exists_node? hold
      obtain rfl := Option.some.inj (hnew.symm.trans hnode)
      exact ⟨before, by simp [Minutes.note, hmade], hfounded.grows hadds.grows hplace⟩
  unmade := by
    intro n hnone
    simp [Minutes.note, hnone, h.unmade (hadds.grows.node?_eq_none hnone)]
  waiting := h.waiting.imp fun frame before hframe hcreates => by
    obtain ⟨asked, hasked, hresume⟩ := hframe hcreates
    exact ⟨asked, hasked.trans hadds.grows, hresume⟩

/-- An operation goes on up to its next question or its end. -/
theorem proceed (h : minutes.Hold s.tree s.waiting) {d : Dialogue outside Tree (List NodeId)}
    (halters : d.Keeps (altering may op) (fun _ _ => True) s.tree)
    (hbuilds : (∃ start name, op = .getOrCreate start name) → Builds Any told d s.tree) :
    (minutes.proceed told d).Hold (s.proceed op d).tree (s.proceed op d).waiting := by
  -- nothing but a look-up that makes what is missing adds nodes
  have hadds : ∀ {u}, Alters may op s.tree u →
      ((∃ start name, op = .getOrCreate start name) → Adds told s.tree u) →
        Adds told s.tree u := by
    intro u halters hcreates
    by_cases hop : ∃ start name, op = .getOrCreate start name
    · exact hcreates hop
    · exact .of_alters halters hop
  induction d with
  | done u nodes => exact h.note (hadds halters.1 fun hop => (hbuilds hop).1)
  | aborted u => exact h.note (hadds halters.1 hbuilds)
  | announce e d ih => exact ih halters hbuilds
  | ask u q resume _ =>
    obtain ⟨hfounded, hunmade, hwaiting⟩ := h.note (hadds halters.1 fun hop => (hbuilds hop).1)
    refine ⟨hfounded, hunmade, .cons ?_ hwaiting⟩
    intro hop
    exact ⟨u, Grows.refl u, (hbuilds hop).2⟩

end Minutes.Hold

/-- In every run the minutes hold. -/
theorem Documented.hold {s : Situation} {minutes : Minutes} (h : Documented may s minutes) :
    minutes.Hold s.tree s.waiting := by
  induction h with
  | @start answer _ _ =>
    -- the root is added to nothing
    have hempty : Minutes.Hold {} {} [] :=
      ⟨fun hnode => absurd hnode (by simp [node?]), fun _ => rfl, .nil⟩
    exact hempty.note (.rootNode (answer (.minimum "")) (answer (.level "")))
  | call hs op hpermitted _ ih =>
    have hwf := hs.reachable.wellFormed
    exact ih.proceed (hpermitted.keeps_call hwf)
      fun hop => Operation.builds_call hop (hpermitted.exists hwf) []
  | @answer t frame waiting ended told rest made a hs hmay ih =>
    obtain ⟨hfounded, hunmade, hwaiting⟩ := ih
    obtain ⟨hframe, hwaiting⟩ := List.forall₂_cons.1 hwaiting
    have hrest : Minutes.Hold ⟨rest, made⟩ t waiting := ⟨hfounded, hunmade, hwaiting⟩
    refine Minutes.Hold.proceed (s := ⟨t, waiting, ended⟩) hrest
      (hs.reachable.attended.keeps_resume hmay) fun hop => ?_
    -- nodes have stayed in their places since the question was asked
    obtain ⟨asked, hasked, hresume⟩ := hframe hop
    exact hresume t a hasked
  | copy _ _ ih => exact ⟨ih.founded, ih.unmade, ih.waiting⟩
  | drop _ _ ih => exact ⟨ih.founded, ih.unmade, ih.waiting⟩

end LoggerHierarchy.Tree
