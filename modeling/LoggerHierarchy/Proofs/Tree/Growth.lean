import LoggerHierarchy.Proofs.Tree.Shape

namespace LoggerHierarchy.Tree

/-!
# How trees grow

Between two moments of a run nodes are added and detached, and else stay where they are:

* `Grows` — the relation between the earlier and the later tree;
* `Grows.link`, `Grows.find?` — where segments led to a node that is still attached, they lead to it
  still.
-/

variable {t u v : Tree} {n m c : NodeId} {p q : Place} {segment : String}

/-- The later tree has the nodes of the earlier one, each in its place; a node that is attached was
    so before. -/
def Grows (t u : Tree) : Prop :=
  ∀ ⦃n p⦄, t.place? n = some p →
    ∃ attached, u.place? n = some { p with attached } ∧ (attached = true → p.attached = true)

namespace Grows

/-- A tree in which all places are the same has grown by nothing. -/
theorem of_place? (h : ∀ n, u.place? n = t.place? n) : Grows t u :=
  fun n p hp => ⟨p.attached, by rw [h n, hp], id⟩

theorem refl (t : Tree) : Grows t t :=
  of_place? fun _ => rfl

theorem trans (htu : Grows t u) (huv : Grows u v) : Grows t v := by
  intro n p hp
  obtain ⟨a, hu, hup⟩ := htu hp
  obtain ⟨b, hv, hvu⟩ := huv hu
  exact ⟨b, hv, fun hb => hup (hvu hb)⟩

variable (h : Grows t u)

include h

/-- A node is found again, at its place, though perhaps detached. -/
theorem exists_node? {node : Node} (hnode : t.node? n = some node) :
    ∃ new, u.node? n = some new ∧ new.place = { node.place with attached := new.attached } := by
  obtain ⟨attached, hp, -⟩ := h (place?_of_node? hnode)
  obtain ⟨new, hnew, hplace⟩ := place?_eq_some.1 hp
  obtain rfl : new.attached = attached := congrArg Place.attached hplace
  exact ⟨new, hnew, hplace⟩

/-- No node is forgotten. -/
theorem node?_eq_none (hnone : u.node? n = none) : t.node? n = none := by
  cases hnode : t.node? n with
  | none => rfl
  | some node =>
    obtain ⟨new, hnew, -⟩ := h.exists_node? hnode
    exact absurd (hnew.symm.trans hnone) (by simp)

/-- A node of the earlier tree that is attached in the later one has its place unchanged. -/
theorem place?_eq (hp : t.place? n = some p) (hn : u.IsAttached n) : u.place? n = some p := by
  obtain ⟨a, hu, hup⟩ := h hp
  obtain ⟨q, hq, hattached⟩ := hn
  obtain rfl : { p with attached := a } = q := by rw [hu] at hq; exact Option.some.inj hq
  have ha : a = true := hattached
  rw [hu, ha, ← hup ha]

/-- A link stays as long as the node that it leads to is attached. -/
theorem link (hc : t.Link n segment c) (hattached : u.IsAttached c) : u.Link n segment c := by
  obtain ⟨p, hp, hpattached, hparent, hsegment⟩ := hc
  exact ⟨p, h.place?_eq hp hattached, hpattached, hparent, hsegment⟩

/-- A path that led to a node leads to it as long as it is attached. -/
theorem find? {front : List String} (hu : u.Shaped) (hfind : t.find? n front = some m)
    (hm : u.IsAttached m) : u.find? n front = some m ∧ u.IsAttached n := by
  induction front generalizing n with
  | nil =>
    obtain rfl : n = m := by simpa using hfind
    exact ⟨rfl, hm⟩
  | cons segment front ih =>
    rw [find?_cons, Option.bind_eq_some_iff] at hfind
    obtain ⟨c, hc, hfind⟩ := hfind
    obtain ⟨hrest, hattached⟩ := ih hfind
    have hlink : u.Link n segment c := h.link (link_of_child? hc) hattached
    exact ⟨by simp [hu.child?_eq_some_iff.2 hlink, hrest], (hu.link_parent hlink).2⟩

end Grows

end LoggerHierarchy.Tree
