import LoggerHierarchy.Attachments

namespace LoggerHierarchy.Attachments

/-!
# Slots of attachments

* `capacity_of_attach`, `capacity_of_attachIfAbsent`, `capacity_detach` — no operation changes the
  number of slots;
* `eq_empty_of_isEmpty` — attachments without a value are those of a new row of slots.
-/

variable {ι : Type} {El : ι → Type} [DecidableEq ι] {a b : Attachments El} {key : Key ι}
  {value : El key.kind} {previous : Option (El key.kind)}

/-- Attaching never changes the number of slots. -/
theorem capacity_of_attach (h : a.attach key value = .ok (previous, b)) :
    b.capacity = a.capacity := by
  unfold attach at h
  split at h
  · obtain ⟨-, rfl⟩ : a.get? key = previous ∧ a.put _ key value = b := by simpa using h
    exact capacity_put a _ key value
  · exact absurd h (by simp)

/-- Attaching where nothing is attached yet keeps the number of slots. -/
theorem capacity_of_attachIfAbsent (h : a.attachIfAbsent key value = .ok (previous, b)) :
    b.capacity = a.capacity := by
  unfold attachIfAbsent at h
  split at h
  · split at h
    · obtain ⟨-, rfl⟩ : a.get? key = previous ∧ a = b := by simpa using h
      rfl
    · obtain ⟨-, rfl⟩ : none = previous ∧ a.put _ key value = b := by simpa using h
      exact capacity_put a _ key value
  · exact absurd h (by simp)

/-- Detaching empties a slot but keeps it. -/
theorem capacity_detach (a : Attachments El) (key : Key ι) :
    (a.detach key).2.capacity = a.capacity := by
  unfold detach
  split
  · simp [capacity]
  · rfl

omit [DecidableEq ι] in
/-- Attachments without a value are those of a new row of slots. -/
theorem eq_empty_of_isEmpty (h : a.isEmpty = true) : a = empty a.capacity := by
  have hfree : ∀ slot ∈ a.slots, slot = none := by
    have hcount : a.slots.countP Option.isSome = 0 := by simpa [isEmpty, size] using h
    intro slot hslot
    simpa using List.countP_eq_zero.1 hcount slot hslot
  have hslots : a.slots = List.replicate a.slots.length none :=
    List.eq_replicate_iff.2 ⟨rfl, hfree⟩
  cases a
  exact congrArg Attachments.mk hslots

end LoggerHierarchy.Attachments
