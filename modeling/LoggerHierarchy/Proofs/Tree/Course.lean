import LoggerHierarchy.Proofs.Tree.Alteration
import Mathlib.Logic.Relation

namespace LoggerHierarchy.Tree.Situation

/-!
# What each step of a run changes

* `Advances` — what a step in the course of an operation makes of a situation;
* `Attended` — the operations that wait will change no more than they may, from wherever they are
  resumed, and none but the last was asked about a removal; `Reachable.attended` — so it is in every
  run;
* `Reachable.advances_call`, `Reachable.advances_answer`, `advances_rest` — what the steps make of a
  situation: a call and an answer advance one operation, and references alone advance any;
* `Reachable.grows` — nodes stay in their places from one moment of a run to a later one;
* `ReachableBy` — the situations of the runs that call only operations of one kind;
  `ReachableBy.invariant` — what the first tree has and these operations keep, all their trees have.
-/

variable {may : Answers} {s s' : Situation} {op : Operation} {u : Tree}

/-- What a step in the course of an operation makes of a situation. -/
structure Advances (may : Answers) (op : Operation) (s s' : Situation) : Prop where
  alters : Alters may op s.tree s'.tree
  ended : s'.ended = s.ended ∨ ∃ nodes, s'.ended = (op, nodes) :: s.ended
  waiting : ∀ frame ∈ s'.waiting, frame ∈ s.waiting ∨ frame.operation = op

/-- The operations that wait will change no more than they may, from wherever they are resumed. -/
structure Attended (may : Answers) (s : Situation) : Prop where
  resumes : ∀ frame ∈ s.waiting, ∃ asked, Grows asked s.tree ∧
    (frame.question.isForRemoval = true → s.tree.nodes = asked.nodes) ∧
    ∀ u a, (altering may frame.operation).rely frame.question asked u a →
      (frame.resume u a).Keeps (altering may frame.operation) (fun _ _ => True) u
  /-- Only the code that was called last can have been called before a removal. -/
  calm : ∀ frame ∈ s.waiting.tail, frame.question.isForRemoval = false

/-- The operations that wait do not mind what happens to the tree meanwhile, unless a node is about
    to be removed. -/
theorem Attended.grows {ended : List (Operation × List NodeId)} (h : s.Attended may)
    (hu : Grows s.tree u)
    (hnodes : (∃ frame ∈ s.waiting, frame.question.isForRemoval = true) →
      u.nodes = s.tree.nodes) : Attended may ⟨u, s.waiting, ended⟩ := by
  refine ⟨?_, h.calm⟩
  intro frame hframe
  obtain ⟨asked, hasked, hsame, hresume⟩ := h.resumes frame hframe
  refine ⟨asked, hasked.trans hu, ?_, hresume⟩
  intro hremoval
  exact (hnodes ⟨frame, hframe, hremoval⟩).trans (hsame hremoval)

/-- An operation that changes no more than it may advances to its next question or its end. -/
theorem advances_proceed {d : Dialogue outside Tree (List NodeId)}
    (hd : d.Keeps (altering may op) (fun _ _ => True) s.tree) :
    Advances may op s (s.proceed op d) := by
  induction d with
  | done u nodes => exact ⟨hd.1, .inr ⟨nodes, rfl⟩, fun _ => .inl⟩
  | aborted u => exact ⟨hd.1, .inl rfl, fun _ => .inl⟩
  | announce e d ih => exact ih hd
  | ask u q resume _ =>
    refine ⟨hd.1, .inl rfl, ?_⟩
    intro frame hframe
    obtain rfl | hframe := List.mem_cons.1 hframe
    · exact .inr rfl
    · exact .inl hframe

/-- Then the operations that wait go on waiting, if no node is about to be removed. -/
theorem Attended.proceed (h : s.Attended may) {d : Dialogue outside Tree (List NodeId)}
    (hcalm : ∀ frame ∈ s.waiting, frame.question.isForRemoval = false)
    (hd : d.Keeps (altering may op) (fun _ _ => True) s.tree) :
    (s.proceed op d).Attended may := by
  have hnone {p : Prop} : (∃ frame ∈ s.waiting, frame.question.isForRemoval = true) → p := by
    rintro ⟨frame, hframe, hremoval⟩
    exact absurd ((hcalm frame hframe).symm.trans hremoval) (by simp)
  induction d with
  | done u nodes => exact h.grows hd.1.grows hnone
  | aborted u => exact h.grows hd.1.grows hnone
  | announce e d ih => exact ih hd
  | ask u q resume _ =>
    obtain ⟨halters, hresume⟩ := hd
    refine ⟨?_, hcalm⟩
    intro frame hframe
    obtain rfl | hframe := List.mem_cons.1 hframe
    · exact ⟨u, Grows.refl u, fun _ => rfl, hresume⟩
    · have hgrown : Attended may ⟨u, s.waiting, s.ended⟩ := h.grows halters.grows hnone
      exact hgrown.resumes frame hframe

/-- References alone advance any operation. -/
theorem advances_rest (hnodes : u.nodes = s.tree.nodes) (hcreated : u.created = s.tree.created)
    (hopen : u.isOpen = s.tree.isOpen) : Advances may op s { s with tree := u } :=
  ⟨Alters.of_nodes hnodes hcreated (.inl hopen), .inl rfl, fun _ => .inl⟩

/-- The subject of a permitted operation is there. -/
theorem Permits.exists (hop : s.Permits op) (h : s.tree.WellFormed may) :
    s.tree.Exists op.subject := by
  obtain ⟨p, hp, -⟩ := hop.isAttached h
  exact ⟨p, hp⟩

/-- A call that is permitted changes no more than it may. -/
theorem Permits.keeps_call (hop : s.Permits op) (h : s.tree.WellFormed may) :
    (op.call s.tree).Keeps (altering may op) (fun _ _ => True) s.tree :=
  Dialogue.Keeps.mono (Operation.confined_call op (hop.exists h)) fun _ _ _ => trivial

/-- What is under an operation that waits goes on waiting without it. -/
theorem Attended.rest {t : Tree} {frame : Frame} {waiting : List Frame}
    {ended : List (Operation × List NodeId)} (h : Attended may ⟨t, frame :: waiting, ended⟩) :
    Attended may ⟨t, waiting, ended⟩ where
  resumes other hother := h.resumes other (List.mem_cons_of_mem _ hother)
  calm other hother := h.calm other (List.mem_of_mem_tail hother)

/-- An operation that waits goes on with an answer. -/
theorem Attended.keeps_resume {t : Tree} {frame : Frame} {waiting : List Frame}
    {ended : List (Operation × List NodeId)} {a : frame.question.Answer}
    (h : Attended may ⟨t, frame :: waiting, ended⟩) (hmay : may frame.question a) :
    (frame.resume t a).Keeps (altering may frame.operation) (fun _ _ => True) t := by
  obtain ⟨asked, hasked, hsame, hresume⟩ := h.resumes frame (by simp)
  exact hresume t a ⟨hasked, hmay, hsame⟩

/-- While operations may be called, no node is about to be removed. -/
theorem Attended.calm_of_isRemoving (h : s.Attended may) (hremoving : s.isRemoving = false) :
    ∀ frame ∈ s.waiting, frame.question.isForRemoval = false := by
  obtain ⟨t, waiting, ended⟩ := s
  cases waiting with
  | nil => simp
  | cons frame waiting =>
    intro other hother
    obtain rfl | hother := List.mem_cons.1 hother
    · simpa [isRemoving] using hremoving
    · exact h.calm other hother

/-- In every run the operations that wait will change no more than they may. -/
theorem Reachable.attended (h : Reachable may s) : s.Attended may := by
  induction h with
  | start => exact ⟨by simp, by simp⟩
  | step hs hstep ih =>
    cases hstep with
    | call op hpermitted hremoving =>
      exact ih.proceed (ih.calm_of_isRemoving hremoving) (hpermitted.keeps_call hs.wellFormed)
    | answer hmay => exact ih.rest.proceed ih.calm (ih.keeps_resume hmay)
    | copy hheld => exact ih.grows (Grows.of_place? fun _ => rfl) fun _ => rfl
    | drop n => exact ih.grows (Grows.of_place? fun _ => rfl) fun _ => rfl

/-- A call advances the operation that is called. -/
theorem Reachable.advances_call (h : Reachable may s) (hop : s.Permits op) :
    Advances may op s (s.proceed op (op.call s.tree)) :=
  advances_proceed (hop.keeps_call h.wellFormed)

/-- An answer advances the operation that was called last. -/
theorem Reachable.advances_answer {t : Tree} {frame : Frame} {waiting : List Frame}
    {ended : List (Operation × List NodeId)} {a : frame.question.Answer}
    (h : Reachable may ⟨t, frame :: waiting, ended⟩) (hmay : may frame.question a) :
    Advances may frame.operation ⟨t, frame :: waiting, ended⟩
      (proceed ⟨t, waiting, ended⟩ frame.operation (frame.resume t a)) := by
  obtain ⟨halters, hended, hwaiting⟩ :=
    advances_proceed (s := ⟨t, waiting, ended⟩) (h.attended.keeps_resume hmay)
  refine ⟨halters, hended, ?_⟩
  intro other hother
  exact (hwaiting other hother).imp_left (List.mem_cons_of_mem _)

/-- Under an operation that waits none was asked about a removal. -/
theorem Reachable.isRemoving_rest {t : Tree} {frame : Frame} {waiting : List Frame}
    {ended : List (Operation × List NodeId)} (h : Reachable may ⟨t, frame :: waiting, ended⟩) :
    isRemoving ⟨t, waiting, ended⟩ = false := by
  cases waiting with
  | nil => rfl
  | cons other waiting => simpa [isRemoving] using h.attended.calm other (by simp)

/-- Every step advances one operation: one that is called, one that waits, or, where only references
    change, any. -/
theorem Step.advances (hstep : Step may s s') (h : Reachable may s) :
    ∃ op, Advances may op s s' ∧ (op = .rootNode ∨ (∃ frame ∈ s.waiting, frame.operation = op) ∨
      s.Permits op ∧ s' = s.proceed op (op.call s.tree)) := by
  cases hstep with
  | call op hpermitted hremoving =>
    exact ⟨op, h.advances_call hpermitted, .inr (.inr ⟨hpermitted, rfl⟩)⟩
  | @answer t frame waiting ended a hmay =>
    exact ⟨_, h.advances_answer hmay, .inr (.inl ⟨frame, by simp, rfl⟩)⟩
  | copy hheld => exact ⟨.rootNode, advances_rest rfl rfl rfl, .inl rfl⟩
  | drop n => exact ⟨.rootNode, advances_rest rfl rfl rfl, .inl rfl⟩

/-! ### From one moment to a later one -/

/-- Any number of steps leads from a reachable situation to one that is reachable too. -/
theorem Reachable.steps (h : Reachable may s) (hsteps : Relation.ReflTransGen (Step may) s s') :
    Reachable may s' := by
  induction hsteps with
  | refl => exact h
  | tail _ hstep ih => exact ih.step hstep

/-- Nodes stay in their places. -/
theorem Reachable.grows (h : Reachable may s) (hsteps : Relation.ReflTransGen (Step may) s s') :
    Grows s.tree s'.tree := by
  induction hsteps with
  | refl => exact Grows.refl s.tree
  | tail hsteps hstep ih =>
    obtain ⟨op, hadvances, -⟩ := hstep.advances (h.steps hsteps)
    exact ih.trans hadvances.alters.grows

/-! ### Runs of one kind -/

/-- The situations that lead from a new context to wherever the outside takes it with operations of
    one kind. -/
inductive ReachableBy (may : Answers) (kind : Operation → Prop) : Situation → Prop where
  | start {answer : (q : Question) → q.Answer}
      (hminimum : may (.minimum "") (answer (.minimum "")))
      (hlevel : may (.level "") (answer (.level ""))) :
      ReachableBy may kind { tree := ((plant {}).answeredBy answer).1 }
  | call {s : Situation} (hs : ReachableBy may kind s) (op : Operation) (hkind : kind op)
      (hpermitted : s.Permits op) (hremoving : s.isRemoving = false) :
      ReachableBy may kind (s.proceed op (op.call s.tree))
  | answer {t : Tree} {frame : Frame} {waiting : List Frame}
      {ended : List (Operation × List NodeId)} {a : frame.question.Answer}
      (hs : ReachableBy may kind ⟨t, frame :: waiting, ended⟩) (hmay : may frame.question a) :
      ReachableBy may kind (proceed ⟨t, waiting, ended⟩ frame.operation (frame.resume t a))
  | copy {s : Situation} (hs : ReachableBy may kind s) {n : NodeId} (hheld : n ∈ s.tree.held) :
      ReachableBy may kind { s with tree := s.tree.hold n }
  | drop {s : Situation} (hs : ReachableBy may kind s) (n : NodeId) :
      ReachableBy may kind { s with tree := s.tree.release n }

namespace ReachableBy

variable {kind : Operation → Prop}

/-- A run with operations of one kind is a run. -/
theorem reachable (h : ReachableBy may kind s) : Reachable may s := by
  induction h with
  | start hminimum hlevel => exact .start hminimum hlevel
  | call _ op _ hpermitted hremoving ih => exact ih.step (.call op hpermitted hremoving)
  | answer _ hmay ih => exact ih.step (.answer hmay)
  | copy _ hheld ih => exact ih.step (.copy hheld)
  | drop _ n ih => exact ih.step (.drop n)

/-- Only operations of the kind wait. -/
theorem kind_of_waiting (h : ReachableBy may kind s) :
    ∀ frame ∈ s.waiting, kind frame.operation := by
  induction h with
  | start => exact fun frame hframe => absurd hframe (by simp)
  | call hs op hkind hpermitted _ ih =>
    intro frame hframe
    obtain hframe | rfl := (hs.reachable.advances_call hpermitted).waiting frame hframe
    · exact ih frame hframe
    · exact hkind
  | answer hs hmay ih =>
    intro frame hframe
    obtain hframe | heq := (hs.reachable.advances_answer hmay).waiting frame hframe
    · exact ih frame hframe
    · rw [heq]
      exact ih _ (by simp)
  | copy _ _ ih => exact ih
  | drop _ _ ih => exact ih

/-- What a tree of nothing but the root has, and what operations of the kind keep, all trees of
    these runs have. -/
theorem invariant {inv : Tree → Prop} (h : ReachableBy may kind s)
    (hstart : ∀ minimum level, inv { nodes := #[rootNode minimum level] })
    (hkeep : ∀ op t u, kind op ∨ op = .rootNode → Alters may op t u → inv t → inv u) :
    inv s.tree := by
  induction h with
  | start => exact hstart _ _
  | call hs op hkind hpermitted _ ih =>
    exact hkeep op _ _ (.inl hkind) (hs.reachable.advances_call hpermitted).alters ih
  | answer hs hmay ih =>
    have hkind := hs.kind_of_waiting _ (List.mem_cons_self ..)
    exact hkeep _ _ _ (.inl hkind) (hs.reachable.advances_answer hmay).alters ih
  | @copy s _ n _ ih =>
    have hhold : Alters may .rootNode s.tree (s.tree.hold n) := Alters.of_nodes rfl rfl (.inl rfl)
    exact hkeep _ _ _ (.inr rfl) hhold ih
  | @drop s _ n ih =>
    have hrelease : Alters may .rootNode s.tree (s.tree.release n) :=
      Alters.of_nodes rfl rfl (.inl rfl)
    exact hkeep _ _ _ (.inr rfl) hrelease ih

end ReachableBy

end LoggerHierarchy.Tree.Situation
