import LoggerHierarchy.Proofs.Attachments
import LoggerHierarchy.Proofs.Tree.Operations
import LoggerHierarchy.Proofs.Tree.Situation

namespace LoggerHierarchy.Tree

/-!
# What holds in every situation

* `Operation.Delivers` — the nodes that an operation hands out are attached, and those that were
  looked up by a name are found under it;
* `Operation.respects_call` — every operation keeps the contract and delivers;
* `Suspended` — the operations that wait will keep the contract, each from where the one above it
  ends;
* `Situation.Sound` — the invariant; `Step.sound` and `Reachable.sound` carry it through every run.
-/

variable {may : Answers} {α : Type} {t u v : Tree} {n m : NodeId} {op : Operation}

/-! ### Changes that ask nobody -/

/-- A logger may be made for any node. -/
theorem WellFormed.later_createLogger (h : t.WellFormed may) (n : NodeId) :
    Later may t (t.createLogger n) :=
  h.later_update fun _ _ => ⟨rfl, rfl, rfl⟩

/-- A filter may be set at any node. -/
theorem WellFormed.later_setFilter (h : t.WellFormed may) (n : NodeId) (filter : Option Filter) :
    Later may t (t.setFilter n filter) :=
  h.later_update fun _ _ => ⟨rfl, rfl, rfl⟩

/-- A node may start or stop to delegate to the filters above. -/
theorem WellFormed.later_setUseParentFilters (h : t.WellFormed may) (n : NodeId) (on : Bool) :
    Later may t (t.setUseParentFilters n on) :=
  h.later_update fun _ _ => ⟨rfl, rfl, rfl⟩

/-- A node may start or stop to delegate to the handlers above. -/
theorem WellFormed.later_setUseParentHandlers (h : t.WellFormed may) (n : NodeId) (on : Bool) :
    Later may t (t.setUseParentHandlers n on) :=
  h.later_update fun _ _ => ⟨rfl, rfl, rfl⟩

/-- Attachments may be replaced by others in the same number of slots. -/
theorem WellFormed.later_withAttachments (h : t.WellFormed may)
    {attachments : Attachments PayloadKind.Value}
    (hcapacity : attachments.capacity = (t.attachments n).capacity) :
    Later may t (t.withAttachments n attachments) := by
  refine h.later_update fun node hnode => ⟨?_, rfl, rfl⟩
  have hown : t.attachments n = node.attachments := by simp [Tree.attachments, hnode]
  simp [Node.place, hcapacity, hown]

/-- An attachment may be made or refused, if no slot comes or goes. -/
theorem WellFormed.later_attachedBy (h : t.WellFormed may)
    {result : Except Error (α × Attachments PayloadKind.Value)}
    (hcapacity : ∀ previous attachments, result = .ok (previous, attachments) →
      attachments.capacity = (t.attachments n).capacity) :
    Later may t (t.attachedBy n result).2 := by
  cases result with
  | error e => exact h.later_self
  | ok pair => exact h.later_withAttachments (hcapacity pair.1 pair.2 rfl)

/-- No reference is taken for an attachment. -/
theorem pins_attachedBy (t : Tree) (n : NodeId)
    (result : Except Error (α × Attachments PayloadKind.Value)) :
    (t.attachedBy n result).2.pins = t.pins := by
  cases result <;> rfl

/-- No reference is taken for a replacement. -/
theorem pins_compareAndSetHandlers (t : Tree) (n : NodeId) (expected : NodeSnapshot)
    (handlers : List Handler) : (t.compareAndSetHandlers n expected handlers).2.pins = t.pins := by
  unfold compareAndSetHandlers
  split <;> rfl

/-! ### Operations deliver -/

namespace Operation

/-- The nodes that an operation hands out are attached, and those that were looked up by a name are
    found under it. -/
def Delivers (op : Operation) (t : Tree) (nodes : List NodeId) : Prop :=
  ∀ m ∈ nodes, t.IsAttached m ∧ ∀ way ∈ op.way?, t.getIfExists way.1 way.2 = some m

/-- An operation that hands out nothing delivers what it should. -/
theorem Delivers.nil (op : Operation) (t : Tree) : op.Delivers t [] :=
  fun _ hm => absurd hm (by simp)

/-- Such an operation keeps the contract if its run does. -/
theorem respects_silently {run : Run α} (h : Respects may Any run t) :
    Respects may op.Delivers (silently run) t :=
  Respects.bind h fun _ _ hu _ _ => Respects.pure hu.wellFormed (Delivers.nil op _)

/-- A change that asks nobody keeps the contract if the tree only grows older. -/
theorem respects_changing {f : Tree → Tree} (hlater : Later may t (f t))
    (hpins : (f t).pins = t.pins) : Respects may op.Delivers (changing f) t :=
  respects_silently (Respects.of_modify hlater hpins)

/-- What an operation hands out is found while it starts from a node that is attached. -/
theorem respects_run (op : Operation) (h : t.WellFormed may) (hn : t.IsAttached op.subject) :
    Respects may op.Delivers op.run t := by
  cases op with
  | rootNode =>
    refine Respects.pure h fun m hm => ⟨?_, by simp [way?]⟩
    rw [List.mem_singleton.1 hm]
    exact h.shaped.root_isAttached
  | getOrCreate n name =>
    refine Respects.bind (respects_getOrCreate h hn name) ?_
    rintro u m hu - ⟨hfind, hm⟩
    refine Respects.pure hu.wellFormed ?_
    intro k hk
    obtain rfl := List.mem_singleton.1 hk
    exact ⟨hm, fun way hway => by obtain rfl := Option.some.inj hway; exact hfind⟩
  | getIfExists n name =>
    refine Respects.get_bind (Respects.pure h ?_)
    intro m hm
    have hfind : t.getIfExists n name = some m := Option.mem_toList.1 hm
    exact ⟨isAttached_of_find? hn hfind,
      fun way hway => by obtain rfl := Option.some.inj hway; exact hfind⟩
  | parent n =>
    refine Respects.get_bind (Respects.pure h ?_)
    intro m hm
    have hparent : t.parent? n = some m := Option.mem_toList.1 hm
    exact ⟨h.isAttached_of_parent? hn hparent, by simp [way?]⟩
  | children n =>
    refine Respects.get_bind (Respects.pure h ?_)
    intro m hm
    obtain ⟨p, hp, hattached, -⟩ := isChild_iff.1 (mem_children.1 hm)
    exact ⟨⟨p, hp, hattached⟩, by simp [way?]⟩
  | createLogger n =>
    have hlater := h.later_createLogger n
    refine Respects.modify_bind hlater rfl (Respects.pure hlater.wellFormed ?_)
    intro m hm
    obtain rfl := List.mem_singleton.1 hm
    refine ⟨?_, by simp [way?]⟩
    -- that a node has a logger does not move it
    obtain ⟨p, hp, hattached⟩ := hn
    have hplace : (t.createLogger m).place? m = t.place? m := by
      refine place?_update ?_ m
      intro node _
      rfl
    exact ⟨p, hplace.trans hp, hattached⟩
  | setLevel n level => exact respects_silently (respects_setLevel h n level)
  | setFilter n filter => exact respects_changing (h.later_setFilter n filter) rfl
  | setUseParentFilters n on => exact respects_changing (h.later_setUseParentFilters n on) rfl
  | setUseParentHandlers n on => exact respects_changing (h.later_setUseParentHandlers n on) rfl
  | handlers n => exact respects_silently (respects_handlers h hn)
  | addHandler n handler => exact respects_silently (respects_onHandlers h hn _)
  | removeHandler n handler => exact respects_silently (respects_onHandlers h hn _)
  | setHandlers n list => exact respects_changing (h.later_withHandlerList n _) rfl
  | clearHandlers n => exact respects_changing (h.later_withHandlerList n _) rfl
  | compareAndSetHandlers n expected list =>
    exact respects_changing (h.later_compareAndSetHandlers n expected list)
      (pins_compareAndSetHandlers t n expected list)
  | attach n key value =>
    exact respects_changing (h.later_attachedBy fun _ _ => Attachments.capacity_of_attach)
      (pins_attachedBy t n _)
  | attachIfAbsent n key value =>
    exact respects_changing (h.later_attachedBy fun _ _ => Attachments.capacity_of_attachIfAbsent)
      (pins_attachedBy t n _)
  | detachValue n key =>
    exact respects_changing (h.later_withAttachments (Attachments.capacity_detach _ key)) rfl
  | accepts n record => exact respects_silently (respects_accepts record h hn)
  | publish n record => exact respects_silently (respects_publish record h hn)
  | log n record => exact respects_silently (respects_log record h hn)
  | prune => exact respects_silently (respects_prune h)
  | close => exact respects_changing (h.later_of_nodes rfl fun _ => h.shaped.referenced) rfl

/-- Nodes are attached while references to them are handed out. -/
theorem later_held (h : t.WellFormed may) {nodes : List NodeId}
    (hnodes : ∀ m ∈ nodes, t.IsAttached m) :
    Later may t { t with held := nodes ++ t.held } := by
  refine h.later_of_nodes rfl ?_
  rintro m (hm | hm)
  · obtain hm | hm := List.mem_append.1 hm
    · exact hnodes m hm
    · exact h.shaped.referenced (.inl hm)
  · exact h.shaped.referenced (.inr hm)

/-- The nodes of a look-up are found as long as they are attached. -/
theorem Delivers.later {nodes : List NodeId} (hnodes : op.Delivers t nodes) (h : Later may t u)
    (hattached : ∀ m ∈ nodes, u.IsAttached m) : op.Delivers u nodes := by
  intro m hm
  refine ⟨hattached m hm, ?_⟩
  intro way hway
  have hfind : t.getIfExists way.1 way.2 = some m := (hnodes m hm).2 way hway
  exact (h.grows.find? h.wellFormed.shaped hfind (hattached m hm)).1

/-- Every operation, called for a node of the tree, keeps the contract and delivers. -/
theorem respects_call (op : Operation) (h : t.WellFormed may) (hn : t.IsAttached op.subject) :
    Respects may op.Delivers op.call t := by
  refine Respects.bind (respects_run op h hn) ?_
  intro u nodes hu _ hnodes
  have hattached : ∀ m ∈ nodes, u.IsAttached m := fun m hm => (hnodes m hm).1
  have hheld := later_held hu.wellFormed hattached
  exact Respects.modify_bind hheld rfl
    (Respects.pure hheld.wellFormed (hnodes.later hheld hattached))

end Operation

/-! ### Operations that wait -/

/-- The operations that wait will keep the contract, each from where the one above it ends. -/
def Suspended (may : Answers) : List Frame → Tree → Prop
  | [], t => t.WellFormed may
  | frame :: waiting, t =>
    ∃ asked, Rests may frame.question asked t ∧
      ∀ u a, Rests may frame.question asked u → may frame.question a →
        (frame.resume u a).Keeps (contract may)
          (fun v r => Suspended may waiting v ∧ ∀ nodes, r = some nodes →
            frame.operation.Delivers v nodes) u

/-- While operations wait, the tree is well-formed. -/
theorem Suspended.wellFormed {waiting : List Frame} (h : Suspended may waiting t) :
    t.WellFormed may := by
  cases waiting with
  | nil => exact h
  | cons frame waiting =>
    obtain ⟨asked, hrests, -⟩ := h
    exact hrests.later.wellFormed

/-- References that are copied or given up in two steps. -/
theorem Calm.trans (htu : Calm t u) (huv : Calm u v) : Calm t v :=
  ⟨huv.1.trans htu.1, fun n hn => htu.2 n (huv.2 n hn)⟩

/-- Operations go on waiting while the tree changes, as their questions allow. -/
theorem Suspended.later {waiting : List Frame} (h : Suspended may waiting t) (hu : Later may t u)
    (hpins : u.pins = t.pins)
    (hcalm : (waiting.head?.any fun frame => frame.question.isForRemoval) = true → Calm t u) :
    Suspended may waiting u := by
  cases waiting with
  | nil => exact hu.wellFormed
  | cons frame waiting =>
    obtain ⟨asked, hrests, hresume⟩ := h
    have hcalm' : frame.question.isForRemoval = true → Calm asked u := by
      intro hremoval
      exact (hrests.calm hremoval).trans (hcalm hremoval)
    exact ⟨asked, ⟨hrests.later.trans hu, hpins.trans hrests.pins, hcalm'⟩, hresume⟩

/-! ### The invariant of runs -/

/-- A node that was looked up by a name is found under it as long as it is attached. -/
def Resolves (t : Tree) (op : Operation) (nodes : List NodeId) : Prop :=
  ∀ m ∈ nodes, (∃ p, t.place? m = some p) ∧
    ∀ way ∈ op.way?, t.IsAttached m → t.getIfExists way.1 way.2 = some m

/-- What was looked up is found. -/
theorem Operation.Delivers.resolves {nodes : List NodeId} (h : op.Delivers t nodes) :
    t.Resolves op nodes := by
  intro m hm
  obtain ⟨p, hp, -⟩ := (h m hm).1
  exact ⟨⟨p, hp⟩, fun way hway _ => (h m hm).2 way hway⟩

/-- What was looked up is found as long as it is in the tree. -/
theorem Resolves.later {nodes : List NodeId} (hnodes : t.Resolves op nodes) (h : Later may t u) :
    u.Resolves op nodes := by
  intro m hm
  obtain ⟨⟨p, hp⟩, hway⟩ := hnodes m hm
  obtain ⟨attached, hpu, -⟩ := h.grows hp
  refine ⟨⟨_, hpu⟩, ?_⟩
  intro way hmem hattached
  -- nodes are never attached again
  have hwas : t.IsAttached m := by
    obtain ⟨q, hq, hqattached⟩ := id hattached
    rw [h.grows.place?_eq hp hattached, Option.some.injEq] at hq
    exact ⟨p, hp, hq ▸ hqattached⟩
  exact (h.grows.find? h.wellFormed.shaped (hway way hmem hwas) hattached).1

namespace Situation

variable {s s' : Situation}

/-- What holds in every situation that a run leads to. -/
structure Sound (may : Answers) (s : Situation) : Prop where
  suspended : Suspended may s.waiting s.tree
  resolves : ∀ entry ∈ s.ended, s.tree.Resolves entry.1 entry.2

/-- An operation that keeps the contract is run up to its next question or its end. -/
theorem sound_proceed {d : Dialogue outside Tree (List NodeId)}
    (hended : ∀ entry ∈ s.ended, s.tree.Resolves entry.1 entry.2)
    (hd : d.Keeps (contract may) (fun v r => Suspended may s.waiting v ∧
      ∀ nodes, r = some nodes → op.Delivers v nodes) s.tree) :
    (s.proceed op d).Sound may := by
  induction d with
  | done u nodes =>
    obtain ⟨hlater, hsuspended, hnodes⟩ := hd
    refine ⟨hsuspended, ?_⟩
    intro entry hentry
    obtain rfl | hentry := List.mem_cons.1 hentry
    · exact (hnodes nodes rfl).resolves
    · exact (hended entry hentry).later hlater
  | aborted u =>
    obtain ⟨hlater, hsuspended, -⟩ := hd
    exact ⟨hsuspended, fun entry hentry => (hended entry hentry).later hlater⟩
  | announce e d ih => exact ih hd
  | ask u q resume _ =>
    obtain ⟨hlater, hresume⟩ := hd
    -- nothing has happened since the question was asked
    have hrests : Rests may q u u :=
      ⟨hlater.wellFormed.later_self, rfl, fun _ => ⟨rfl, fun _ => id⟩⟩
    refine ⟨⟨u, hrests, ?_⟩, ?_⟩
    · intro v a hv hmay
      exact hresume v a ⟨hv, hmay⟩
    · intro entry hentry
      exact (hended entry hentry).later hlater

/-- The subject of a permitted operation is attached. -/
theorem Permits.isAttached (hop : s.Permits op) (h : s.tree.WellFormed may) :
    s.tree.IsAttached op.subject := by
  obtain hheld | ⟨hroot, -⟩ := hop
  · exact h.shaped.referenced (.inl hheld)
  · rw [hroot]
    exact h.shaped.root_isAttached

/-- Copying references and giving them up is allowed at any time. -/
theorem Sound.rest (h : s.Sound may) {u : Tree} (hnodes : u.nodes = s.tree.nodes)
    (hheld : ∀ n ∈ u.held, n ∈ s.tree.held) (hpins : u.pins = s.tree.pins) :
    Sound may { s with tree := u } := by
  have hwf := h.suspended.wellFormed
  have hlater : Later may s.tree u := by
    refine hwf.later_of_nodes hnodes ?_
    intro n hn
    rw [hpins] at hn
    exact hwf.shaped.referenced (hn.imp_left (hheld n))
  refine ⟨h.suspended.later hlater hpins fun _ => ⟨hnodes, hheld⟩, ?_⟩
  intro entry hentry
  exact (h.resolves entry hentry).later hlater

/-- Every step keeps the invariant. -/
theorem Step.sound (hstep : Step may s s') (h : s.Sound may) : s'.Sound may := by
  cases hstep with
  | call op hpermitted hremoving =>
    have hwf := h.suspended.wellFormed
    have hcall := Operation.respects_call op hwf (hpermitted.isAttached hwf)
    refine sound_proceed h.resolves (Dialogue.Keeps.mono hcall ?_)
    rintro v r ⟨hlater, hpins, hdelivers⟩
    refine ⟨h.suspended.later hlater hpins ?_, hdelivers⟩
    -- no operation is called from a question that is asked before a removal
    intro hremoval
    exact absurd (hremoving.symm.trans hremoval) (by simp)
  | @answer t frame waiting ended a hmay =>
    obtain ⟨asked, hrests, hresume⟩ := h.suspended
    exact sound_proceed (s := ⟨t, waiting, ended⟩) h.resolves (hresume t a hrests hmay)
  | copy hheld =>
    refine h.rest rfl ?_ rfl
    intro m hm
    obtain rfl | hm := List.mem_cons.1 hm
    · exact hheld
    · exact hm
  | drop n =>
    refine h.rest rfl ?_ rfl
    intro m hm
    exact List.mem_of_mem_erase hm

/-- What holds in every situation holds in all that runs lead to. -/
theorem Reachable.sound (h : Reachable may s) : s.Sound may := by
  induction h with
  | start hminimum _ =>
    refine ⟨wellFormed_planted hminimum, ?_⟩
    intro entry hentry
    exact absurd hentry (by simp)
  | step _ hstep ih => exact hstep.sound ih

/-- Every run leads to well-formed trees only. -/
theorem Reachable.wellFormed (h : Reachable may s) : s.tree.WellFormed may :=
  h.sound.suspended.wellFormed

end Situation

end LoggerHierarchy.Tree
