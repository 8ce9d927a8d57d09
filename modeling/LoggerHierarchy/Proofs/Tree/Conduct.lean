import LoggerHierarchy.Proofs.Contract
import LoggerHierarchy.Proofs.Tree.Inheritance
import LoggerHierarchy.Proofs.Tree.Membership
import LoggerHierarchy.Tree.Publication
import LoggerHierarchy.Tree.Settings

namespace LoggerHierarchy.Tree

/-!
# What operations owe the outside

Between two questions an operation leaves well-formed trees only, and it may expect the same of the
outside, which may run any other operations before it answers:

* `Rests` — what the outside may do to a tree before it answers;
* `Respects` — an operation keeps the contract, gives up the references it took, and hands out a
  result of a certain kind;
* `Respects.bind`, `Respects.ask_bind`, `Respects.pinned` — the rules for its parts.
-/

variable {may : Answers} {α β : Type} {t u v : Tree} {n m c : NodeId} {segment : String}

/-! ### The contract -/

/-- Whether the question is asked before a node is removed. -/
def Question.isForRemoval : Question → Bool
  | handlersForRemoval _ => true
  | _ => false

/-- All that happened to a tree is that references to nodes were copied or given up. -/
def Calm (t u : Tree) : Prop :=
  u.nodes = t.nodes ∧ ∀ n ∈ u.held, n ∈ t.held

/-- What the outside may do to a tree before it answers a question. -/
structure Rests (may : Answers) (q : Question) (t u : Tree) : Prop where
  later : Later may t u
  /-- Operations that were started meanwhile have ended. -/
  pins : u.pins = t.pins
  /-- No operation is started from a question that is asked before a node is removed. -/
  calm : q.isForRemoval = true → Calm t u

/-- The contract of operations on a tree with the outside. -/
def contract (may : Answers) : Dialogue.Contract outside Tree where
  guarantee := Later may
  rely q t u a := Rests may q t u ∧ may q a
  guarantee_trans := Later.trans

/-- Whether an operation that starts from `t` keeps the contract, gives up the references that it
    took, and hands out, if it is not aborted, a result as `post` says. -/
def Respects (may : Answers) (post : Tree → α → Prop) (run : Run α) (t : Tree) : Prop :=
  (run t).Keeps (contract may)
    (fun u r => Later may t u ∧ u.pins = t.pins ∧ ∀ a, r = some a → post u a) t

/-- A result about which nothing is said. -/
abbrev Any : Tree → α → Prop :=
  fun _ _ => True

namespace Respects

variable {post : Tree → α → Prop}

/-- An operation that only hands something out keeps the contract. -/
theorem pure {a : α} (h : t.WellFormed may) (ha : post t a) :
    Respects may post (pure a) t := by
  have hlater := h.later_self
  refine ⟨hlater, hlater, rfl, ?_⟩
  intro b hb
  rw [← Option.some.inj hb]
  exact ha

/-- An operation that is aborted at once keeps the contract. -/
theorem abort (h : t.WellFormed may) : Respects may post Program.abort t := by
  have hlater := h.later_self
  refine ⟨hlater, hlater, rfl, ?_⟩
  intro b hb
  exact absurd hb (by simp)

/-- What is promised of a result may be weakened, and no reference is lost on the way to it. -/
theorem mono {post' : Tree → α → Prop} {run : Run α} (h : Respects may post run t)
    (hpost : ∀ u a, Later may t u → u.pins = t.pins → post u a → post' u a) :
    Respects may post' run t := by
  refine Dialogue.Keeps.mono h ?_
  rintro u r ⟨hlater, hpins, hresult⟩
  refine ⟨hlater, hpins, ?_⟩
  intro a ha
  exact hpost u a hlater hpins (hresult a ha)

/-- The rest of an operation starts from where its first part ended. -/
theorem bind {mid : Tree → α → Prop} {post : Tree → β → Prop} {run : Run α} {k : α → Run β}
    (h : Respects may mid run t)
    (hk : ∀ u a, Later may t u → u.pins = t.pins → mid u a → Respects may post (k a) u) :
    Respects may post (run >>= k) t := by
  refine Dialogue.Keeps.bind h ?_ ?_
  · rintro u a ⟨hu, hpins, hmid⟩
    refine Dialogue.Keeps.mono (hk u a hu hpins (hmid a rfl)) ?_
    rintro w r ⟨hw, hwpins, hresult⟩
    exact ⟨hu.trans hw, hwpins.trans hpins, hresult⟩
  · -- an aborted first part has no result
    rintro u ⟨hu, hpins, -⟩
    exact ⟨hu, hpins, by simp⟩

/-- A change that keeps the contract, before the operation goes on. -/
theorem after {run rest : Run α} (hrun : run t = rest u) (hlater : Later may t u)
    (hpins : u.pins = t.pins) (h : Respects may post rest u) : Respects may post run t := by
  unfold Respects
  rw [hrun]
  refine Dialogue.Keeps.after hlater (Dialogue.Keeps.mono h ?_)
  rintro v r ⟨hv, hvpins, hresult⟩
  exact ⟨hlater.trans hv, hvpins.trans hpins, hresult⟩

/-- Reading the tree. -/
theorem get_bind {k : Tree → Run α} (h : Respects may post (k t) t) :
    Respects may post (get >>= k) t :=
  h

/-- An event changes nothing. -/
theorem announce {e : Event} (h : t.WellFormed may) : Respects may Any (Program.announce e) t :=
  ⟨h.later_self, h.later_self, rfl, fun _ _ => trivial⟩

/-- An event changes nothing for what follows it. -/
theorem announce_bind {e : Event} {k : Unit → Run α} (h : Respects may post (k ()) t) :
    Respects may post (Program.announce e >>= k) t :=
  h

/-- Replacing the tree by one that has grown out of it. -/
theorem set_bind {k : PUnit → Run α} (hlater : Later may t u) (hpins : u.pins = t.pins)
    (h : Respects may post (k ⟨⟩) u) : Respects may post (set u >>= k) t :=
  after (show (set u >>= k) t = k ⟨⟩ u from rfl) hlater hpins h

/-- A change that only lets the tree grow older, and takes no reference. -/
theorem of_modify {f : Tree → Tree} (hlater : Later may t (f t)) (hpins : (f t).pins = t.pins) :
    Respects may Any (modify f) t :=
  ⟨hlater, hlater, hpins, fun _ _ => trivial⟩

/-- Such a change, before the operation goes on. -/
theorem modify_bind {f : Tree → Tree} {k : PUnit → Run α} (hlater : Later may t (f t))
    (hpins : (f t).pins = t.pins) (h : Respects may post (k ⟨⟩) (f t)) :
    Respects may post (modify f >>= k) t :=
  after (show (modify f >>= k) t = k ⟨⟩ (f t) from rfl) hlater hpins h

/-- After a question the operation goes on from what the outside has made of the tree. -/
theorem ask_bind {q : Question} {k : q.Answer → Run α} (h : t.WellFormed may)
    (hk : ∀ u a, Rests may q t u → may q a → Respects may post (k a) u) :
    Respects may post (Program.ask (P := outside) q >>= k) t := by
  refine ⟨h.later_self, ?_⟩
  rintro u a ⟨hrests, hmay⟩
  refine Dialogue.Keeps.mono (hk u a hrests hmay) ?_
  rintro v r ⟨hv, hvpins, hresult⟩
  exact ⟨hrests.later.trans hv, hvpins.trans hrests.pins, hresult⟩

/-- A choice between two ways to go on. -/
theorem ite {b : Prop} [Decidable b] {run run' : Run α} (hthen : b → Respects may post run t)
    (helse : ¬ b → Respects may post run' t) :
    Respects may post (if b then run else run') t := by
  split
  · exact hthen ‹_›
  · exact helse ‹_›

end Respects

/-! ### References of operations under way -/

/-- A node with a reference from an operation under way is attached. -/
theorem WellFormed.isAttached_of_pinned (h : t.WellFormed may) (hn : n ∈ t.pins) :
    t.IsAttached n :=
  h.shaped.referenced (.inr hn)

/-- So it is from within an operation that took a reference to the node at its start. -/
theorem WellFormed.isAttached_of_pins_eq (h : u.WellFormed may)
    (hpins : u.pins = (t.pin n).pins) : u.IsAttached n := by
  apply h.isAttached_of_pinned
  rw [hpins]
  exact List.mem_cons_self

/-- A further reference does no harm to a node of the tree. -/
theorem WellFormed.later_pin (h : t.WellFormed may) (hn : t.IsAttached n) :
    Later may t (t.pin n) := by
  refine h.later_of_nodes rfl fun c hc => ?_
  obtain hc | hc := hc
  · exact h.shaped.referenced (.inl hc)
  · obtain rfl | hc := List.mem_cons.1 hc
    · exact hn
    · exact h.shaped.referenced (.inr hc)

/-- A reference that is given up does no harm to any node. -/
theorem WellFormed.later_unpin (h : t.WellFormed may) (n : NodeId) :
    Later may t (t.unpin n) :=
  h.later_of_nodes rfl fun _ hc => h.shaped.referenced (hc.imp_right List.mem_of_mem_erase)

/-- The reference that an operation gives up is the one that it took at its start. -/
theorem pins_unpin (hpins : u.pins = (t.pin n).pins) : (u.unpin n).pins = t.pins := by
  show u.pins.erase n = t.pins
  rw [hpins]
  exact List.erase_cons_head n t.pins

/-- During an operation with a reference to an attached node, the node stays attached. -/
theorem Respects.pinned {mid post : Tree → α → Prop} {run : Run α} (h : t.WellFormed may)
    (hn : t.IsAttached n) (hrun : Respects may mid run (t.pin n))
    (hpost : ∀ u a, Later may u (u.unpin n) → mid u a → post (u.unpin n) a) :
    Respects may post (pinned n run) t := by
  have hpin := h.later_pin hn
  refine Dialogue.Keeps.after hpin (Dialogue.Keeps.ensure hrun ?_)
  rintro u r ⟨hu, hupins, hresult⟩
  have hunpin := hu.wellFormed.later_unpin n
  refine ⟨hunpin, hpin.trans (hu.trans hunpin), pins_unpin hupins, ?_⟩
  intro a ha
  exact hpost u a hunpin (hresult a ha)

/-- A part of an operation that holds its node for as long as it takes. -/
theorem Respects.pinned_any {run : Run α} (h : t.WellFormed may) (hn : t.IsAttached n)
    (hrun : Respects may Any run (t.pin n)) : Respects may Any (Tree.pinned n run) t :=
  Respects.pinned h hn hrun fun _ _ _ _ => trivial

end LoggerHierarchy.Tree
