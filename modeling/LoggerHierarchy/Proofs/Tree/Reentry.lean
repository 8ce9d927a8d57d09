import LoggerHierarchy.Proofs.Play
import LoggerHierarchy.Proofs.Tree.Soundness

namespace LoggerHierarchy.Tree

/-!
# Code that uses the tree before it answers

A handler, a filter, the reporter and the configuration may use the tree that calls them, and the
operations that they call may call such code again:

* `Uses`, `Ends` — what code that was called may do to a tree, and where an operation may end whose
  questions are answered by such code;
* `Uses.rests` — such code does what operations expect of the outside;
* `Uses.reachable` — all that it does is a part of a run;
* `Considerate` — an outside that does no more than this to an open context, and keeps it open;
* `Obliging` — an outside that does no more than this to any tree, and answers as it may;
  `Obliging.play` — what operations come to when they are played against it;
* `OnlyAnswers` — an outside that does nothing but answer, as a configuration does.
-/

variable {may : Answers} {ω : Type} {t u : Tree}

mutual

/-- What code that was called may do to a tree: it calls operations, and copies references and gives
    them up.  Code that is called before a removal calls no operation. -/
inductive Uses (may : Answers) : Bool → Tree → Tree → Prop where
  | nothing {removing : Bool} {t : Tree} : Uses may removing t t
  | call {t u v : Tree} (op : Operation) (hpermitted : Situation.Permits { tree := t } op)
      (hends : Ends may (op.call t) u) (hrest : Uses may false u v) : Uses may false t v
  | copy {removing : Bool} {t v : Tree} {n : NodeId} (hheld : n ∈ t.held)
      (hrest : Uses may removing (t.hold n) v) : Uses may removing t v
  | drop {removing : Bool} {t v : Tree} (n : NodeId)
      (hrest : Uses may removing (t.release n) v) : Uses may removing t v

/-- Where an operation may end whose questions are answered by code that uses the tree before. -/
inductive Ends (may : Answers) : Dialogue outside Tree (List NodeId) → Tree → Prop where
  | done {t : Tree} {nodes : List NodeId} : Ends may (.done t nodes) t
  | aborted {t : Tree} : Ends may (.aborted t) t
  | announce {e : Event} {d : Dialogue outside Tree (List NodeId)} {t : Tree}
      (hends : Ends may d t) : Ends may (.announce e d) t
  | ask {t u v : Tree} {q : Question}
      {resume : Tree → q.Answer → Dialogue outside Tree (List NodeId)} {a : q.Answer}
      (huses : Uses may q.isForRemoval t u) (hmay : may q a) (hends : Ends may (resume u a) v) :
      Ends may (.ask t q resume) v

end

/-! ### Such code keeps its side of the contract -/

/-- Before a removal, references are all that changes. -/
theorem Uses.calm : ∀ {removing : Bool} {t u : Tree}, Uses may removing t u →
    removing = true → Calm t u
  | _, _, _, .nothing, _ => ⟨rfl, fun _ => id⟩
  | _, _, _, .call .., hremoving => absurd hremoving Bool.false_ne_true
  | _, _, _, .copy hheld hrest, hremoving => by
    obtain ⟨hnodes, hkept⟩ := hrest.calm hremoving
    refine ⟨hnodes, fun m hm => ?_⟩
    obtain rfl | hm := List.mem_cons.1 (hkept m hm)
    · exact hheld
    · exact hm
  | _, _, _, .drop n hrest, hremoving => by
    obtain ⟨hnodes, hkept⟩ := hrest.calm hremoving
    exact ⟨hnodes, fun m hm => List.mem_of_mem_erase (hkept m hm)⟩

mutual

/-- Code that uses a tree leaves a well-formed one, and gives up the references that its operations
    took. -/
theorem Uses.later : ∀ {removing : Bool} {t u : Tree}, Uses may removing t u → t.WellFormed may →
    Later may t u ∧ u.pins = t.pins
  | _, _, _, .nothing, hwf => ⟨hwf.later_self, rfl⟩
  | _, _, _, .call op hpermitted hends hrest, hwf => by
    -- the operation keeps the contract as long as the code that it calls does, which is smaller
    have hcall := Operation.respects_call op hwf (hpermitted.isAttached hwf)
    obtain ⟨r, hlater, hpins, -⟩ := hends.keeps hcall
    obtain ⟨hlater', hpins'⟩ := hrest.later hlater.wellFormed
    exact ⟨hlater.trans hlater', hpins'.trans hpins⟩
  | _, t, _, .copy (n := n) hheld hrest, hwf => by
    have hhold : Later may t (t.hold n) := by
      refine hwf.later_of_nodes rfl fun m hm => hwf.shaped.referenced (hm.imp_left fun hm => ?_)
      obtain rfl | hm := List.mem_cons.1 hm
      · exact hheld
      · exact hm
    obtain ⟨hlater, hpins⟩ := hrest.later hhold.wellFormed
    exact ⟨hhold.trans hlater, hpins⟩
  | _, t, _, .drop n hrest, hwf => by
    have hrelease : Later may t (t.release n) :=
      hwf.later_of_nodes rfl fun _ hm =>
        hwf.shaped.referenced (hm.imp_left List.mem_of_mem_erase)
    obtain ⟨hlater, hpins⟩ := hrest.later hrelease.wellFormed
    exact ⟨hrelease.trans hlater, hpins⟩

/-- An operation that keeps the contract ends as it promises. -/
theorem Ends.keeps : ∀ {d : Dialogue outside Tree (List NodeId)} {u : Tree}, Ends may d u →
    ∀ {post : Tree → Option (List NodeId) → Prop} {t : Tree}, d.Keeps (contract may) post t →
      ∃ r, post u r
  | _, _, .done, _, _, hd => ⟨_, hd.2⟩
  | _, _, .aborted, _, _, hd => ⟨_, hd.2⟩
  | _, _, .announce hends, _, _, hd => hends.keeps hd
  | _, _, .ask huses hmay hends, _, _, hd => by
    obtain ⟨hasked, hresume⟩ := hd
    obtain ⟨hlater, hpins⟩ := huses.later hasked.wellFormed
    exact hends.keeps (hresume _ _ ⟨⟨hlater, hpins, huses.calm⟩, hmay⟩)

end

/-- Code that uses a tree does what operations expect of the outside. -/
theorem Uses.rests {q : Question} (h : Uses may q.isForRemoval t u) (hwf : t.WellFormed may) :
    Rests may q t u := by
  obtain ⟨hlater, hpins⟩ := h.later hwf
  exact ⟨hlater, hpins, h.calm⟩

/-! ### All that it does is a part of a run -/

mutual

/-- While an operation waits, the code that it has called may use the tree. -/
theorem Uses.reachable : ∀ {removing : Bool} {t u : Tree}, Uses may removing t u →
    ∀ {waiting : List Frame} {ended : List (Operation × List NodeId)},
      Situation.Reachable may ⟨t, waiting, ended⟩ →
      Situation.isRemoving ⟨t, waiting, ended⟩ = removing →
      ∃ ended', Situation.Reachable may ⟨u, waiting, ended'⟩
  | _, _, _, .nothing, _, ended, hs, _ => ⟨ended, hs⟩
  | _, _, _, .call op hpermitted hends hrest, _, _, hs, hremoving => by
    obtain ⟨ended', hs'⟩ := hends.reachable (hs.step (.call op hpermitted hremoving))
    exact hrest.reachable hs' hremoving
  | _, _, _, .copy hheld hrest, _, _, hs, hremoving =>
    hrest.reachable (hs.step (.copy hheld)) hremoving
  | _, _, _, .drop n hrest, _, _, hs, hremoving =>
    hrest.reachable (hs.step (.drop n)) hremoving

/-- An operation ends while those below it go on waiting. -/
theorem Ends.reachable : ∀ {d : Dialogue outside Tree (List NodeId)} {u : Tree}, Ends may d u →
    ∀ {s : Situation} {op : Operation}, Situation.Reachable may (s.proceed op d) →
      ∃ ended, Situation.Reachable may ⟨u, s.waiting, ended⟩
  | _, _, .done, _, _, hs => ⟨_, hs⟩
  | _, _, .aborted, _, _, hs => ⟨_, hs⟩
  | _, _, .announce hends, _, _, hs => hends.reachable hs
  | _, _, .ask (u := u) huses hmay hends, s, _, hs => by
    obtain ⟨ended, hs'⟩ := huses.reachable hs rfl
    -- the answer comes in a tree where other operations have ended meanwhile
    exact Ends.reachable (s := ⟨u, s.waiting, ended⟩) hends (hs'.step (.answer hmay))

end

/-! ### A considerate outside -/

/-- An outside that does nothing to the tree of an open context but use it, and keeps it open. -/
def Considerate (may : Answers) (world : Dialogue.Outside outside Tree ω) : Prop :=
  ∀ q t w, t.WellFormed may → t.isOpen = true →
    Uses may q.isForRemoval t (world q t w).2.1 ∧ (world q t w).2.1.isOpen = true

/-- An outside that does nothing to a tree but use it, and answers as it may. -/
def Obliging (may : Answers) (world : Dialogue.Outside outside Tree ω) : Prop :=
  ∀ q t w, t.WellFormed may →
    Uses may q.isForRemoval t (world q t w).2.1 ∧ may q (world q t w).1

/-- Against such an outside, operations end as they promise. -/
theorem Obliging.play {α : Type} {post : Tree → α → Prop} {run : Run α}
    {world : Dialogue.Outside outside Tree ω} (hworld : Obliging may world)
    (h : Respects may post run t) (w : ω) :
    let play := (run t).play world w
    Later may t play.state ∧ play.state.pins = t.pins ∧
      ∀ a, play.result = some a → post play.state a := by
  refine Dialogue.Keeps.play ?_ h w
  intro q s u w hu
  obtain ⟨huses, hmay⟩ := hworld q u w hu.wellFormed
  exact ⟨huses.rests hu.wellFormed, hmay⟩

/-- An outside that does nothing but answer as it may. -/
def OnlyAnswers (may : Answers) (world : Dialogue.Outside outside Tree ω) : Prop :=
  ∀ q t w, may q (world q t w).1 ∧ (world q t w).2.1 = t

/-- An outside that only answers obliges. -/
theorem OnlyAnswers.obliging (h : OnlyAnswers may world) : Obliging may world := by
  intro q t w _
  obtain ⟨hmay, hsame⟩ := h q t w
  rw [hsame]
  exact ⟨.nothing, hmay⟩

/-- A configuration whose answers never change only answers. -/
theorem Configuration.onlyAnswers (c : Configuration) :
    OnlyAnswers c.Allows fun q t (w : ω) => (c.answer q, t, w) :=
  fun q _ _ => ⟨c.allows_answer q, rfl⟩

end LoggerHierarchy.Tree
