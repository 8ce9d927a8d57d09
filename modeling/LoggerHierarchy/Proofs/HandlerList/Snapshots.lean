import LoggerHierarchy.Proofs.HandlerList.PlainList
import Mathlib.Data.List.Induction

namespace LoggerHierarchy.HandlerList

/-!
# Snapshots of a handler list

When the list may be replaced by way of a snapshot, in runs of any commands:

* `filled` — a list that is about to be used, and that its source fills if it is unset;
* `Issued` — snapshots are told by their serial numbers, all of which were issued;
* `Course` — what becomes of the current snapshot, and of those that are shown meanwhile;
  `course_run` — every command takes such a course;
* `Command.Changes` — whether a command changes the list; `Command.renewed_of_changes` and
  `Command.list_of_not_changes` say what that means for the current snapshot;
* `UnchangedSinceGet` — a snapshot was got, and the list has not changed since;
  `isCurrent_iff` — such snapshots are the current ones;
* `compareAndSet_succeeds_iff` — a replacement is made by way of these, and of no others.
-/

variable {α : Type} {list list' list'' : HandlerList α} {snapshot other : Snapshot α}
  {journal : Journal (Snapshot α) α} {used used' used'' : Used α} {got : Option (Snapshot α)}

/-! ### Serial numbers -/

/-- The snapshots that can be told from each other: the current one, and those that were shown. -/
def known (used : Used α) : List (Snapshot α) :=
  used.1.current.toList ++ used.2.snapshots

/-- All known snapshots were issued, each under a serial number of its own. -/
structure Issued (used : Used α) : Prop where
  lt {snapshot : Snapshot α} : snapshot ∈ known used → snapshot.serial < used.1.issued
  apart {snapshot other : Snapshot α} : snapshot ∈ known used → other ∈ known used →
    snapshot.serial = other.serial → snapshot = other

/-- A known snapshot is the current one or was shown. -/
theorem mem_known : snapshot ∈ known used ↔
    used.1.current = some snapshot ∨ snapshot ∈ used.2.snapshots := by
  simp [known]

/-- Snapshots are compared with the current one by their serial numbers alone. -/
theorem isCurrent_iff_serial (hcurrent : list.current = some snapshot) :
    list.isCurrent other = true ↔ snapshot.serial = other.serial := by
  simp [isCurrent, hcurrent]

/-- No snapshot is current while the list is unset. -/
theorem isCurrent_of_unset (hunset : list.current = none) : list.isCurrent other = false := by
  simp [isCurrent, hunset]

/-- A set list is replaced, and the snapshot before is shown. -/
theorem replace_of_current (hcurrent : used.1.current = some snapshot) (items : List α) :
    replace used items = (used.1.install items, used.2.reveal snapshot snapshot.items) := by
  have hset : used.1.set items = (snapshot, used.1.install items) := by simp [set, hcurrent]
  simp only [replace, hset]

/-- In place of an unset list an empty snapshot is shown, with a number of its own. -/
theorem replace_of_unset (hunset : used.1.current = none) (items : List α) :
    replace used items = ({ used.1 with issued := used.1.issued + 1 }.install items,
      used.2.reveal ⟨used.1.issued, []⟩ []) := by
  have hset : used.1.set items =
      (⟨used.1.issued, []⟩, { used.1 with issued := used.1.issued + 1 }.install items) := by
    simp [set, hunset]
  simp only [replace, hset]

namespace Issued

/-- The first snapshot of a list that starts with items has the number zero, and it is the
    only one. -/
theorem start (initial : Option (List α)) : Issued (start initial) := by
  cases initial with
  | none => exact ⟨fun h => absurd h (by simp [known, HandlerList.start, unset]),
      fun h => absurd h (by simp [known, HandlerList.start, unset])⟩
  | some items =>
    have hknown : ∀ snapshot, snapshot ∈ known (HandlerList.start (some items)) →
        snapshot = ⟨0, items⟩ := by
      simp [known, HandlerList.start, ofList, install, unset]
    constructor
    case lt =>
      intro snapshot h
      rw [hknown snapshot h]
      exact Nat.zero_lt_one
    case apart =>
      intro snapshot other h h' _
      rw [hknown snapshot h, hknown other h']

/-- What is noted shows no snapshot. -/
theorem note (h : Issued (list, journal)) (observation : Observation α) :
    Issued (list, journal.note observation) :=
  ⟨h.lt, h.apart⟩

/-- A snapshot that is known may be shown again. -/
theorem reveal (h : Issued (list, journal)) (hknown : snapshot ∈ known (list, journal)) :
    Issued (list, journal.reveal snapshot snapshot.items) := by
  have hback : ∀ s, s ∈ known (list, journal.reveal snapshot snapshot.items) →
      s ∈ known (list, journal) := by
    intro s hs
    rw [mem_known] at hs
    rcases hs with hs | hs
    · exact mem_known.2 (.inl hs)
    · rcases List.mem_append.1 hs with hs | hs
      · exact mem_known.2 (.inr hs)
      · rw [List.mem_singleton.1 hs]
        exact hknown
  exact ⟨fun hs => h.lt (hback _ hs), fun hs hs' => h.apart (hback _ hs) (hback _ hs')⟩

/-- A snapshot with a number that was never issued joins those that are known. -/
theorem join (h : Issued used) (new : Snapshot α)
    (hknown : ∀ s ∈ known used', s = new ∨ s ∈ known used)
    (hnew : used.1.issued ≤ new.serial) (hissued : used'.1.issued = new.serial + 1) :
    Issued used' := by
  constructor
  case lt =>
    intro s hs
    rcases hknown s hs with rfl | hs
    · omega
    · have := h.lt hs
      omega
  case apart =>
    intro s s' hs hs' heq
    rcases hknown s hs with rfl | hs <;> rcases hknown s' hs' with rfl | hs'
    · rfl
    · have := h.lt hs'
      omega
    · have := h.lt hs
      omega
    · exact h.apart hs hs' heq

/-- A new current snapshot has a number that was never issued. -/
theorem install (h : Issued (list, journal)) (items : List α) :
    Issued (list.install items, journal) := by
  refine h.join ⟨list.issued, items⟩ ?_ (Nat.le_refl _) rfl
  intro s hs
  rw [mem_known] at hs
  rcases hs with hs | hs
  · exact .inl (Option.some.inj hs).symm
  · exact .inr (mem_known.2 (.inr hs))

/-- After a replacement, with the old snapshot shown, the numbers still tell snapshots apart. -/
theorem replace (h : Issued used) (items : List α) : Issued (replace used items) := by
  cases hcurrent : used.1.current with
  | some previous =>
    rw [replace_of_current hcurrent]
    exact (h.reveal (mem_known.2 (.inl hcurrent))).install items
  | none =>
    rw [replace_of_unset hcurrent]
    have hshown : Issued ({ used.1 with issued := used.1.issued + 1 },
        used.2.reveal ⟨used.1.issued, []⟩ []) := by
      refine h.join ⟨used.1.issued, []⟩ ?_ (Nat.le_refl _) rfl
      intro s hs
      rcases mem_known.1 hs with hs | hs
      · exact absurd (hcurrent.symm.trans hs) (by simp)
      · rcases List.mem_append.1 hs with hs | hs
        · exact .inr (mem_known.2 (.inr hs))
        · exact .inl (List.mem_singleton.1 hs)
    exact hshown.install items

/-- They do so after any edits of the source. -/
theorem foldl_replace (h : Issued used) (lists : List (List α)) :
    Issued (lists.foldl HandlerList.replace used) := by
  induction lists generalizing used with
  | nil => exact h
  | cons items rest ih => exact ih (h.replace items)

end Issued

/-! ### What becomes of snapshots -/

/-- The current snapshot is newer than all that were issued before. -/
def Renewed (list list' : HandlerList α) : Prop :=
  ∃ new, list'.current = some new ∧ list.issued ≤ new.serial

/-- New items make a new current snapshot, even if they are the same as before. -/
theorem renewed_install (list : HandlerList α) (items : List α) :
    Renewed list (list.install items) :=
  ⟨_, rfl, Nat.le_refl _⟩

/-- No snapshot that was issued before is current then. -/
theorem Renewed.isCurrent_eq_false (h : Renewed list list') (hlt : snapshot.serial < list.issued) :
    list'.isCurrent snapshot = false := by
  obtain ⟨new, hnew, hle⟩ := h
  rw [Bool.eq_false_iff, Ne, isCurrent_iff_serial hnew]
  omega

/-- What is shown of a list that is replaced is not current then. -/
theorem Issued.exists_replaced (h : Issued used) (items : List α) :
    ∃ previous, (HandlerList.replace used items).2.snapshots = used.2.snapshots ++ [previous] ∧
      (HandlerList.replace used items).1.isCurrent previous = false ∧
      Renewed used.1 (HandlerList.replace used items).1 := by
  cases hcurrent : used.1.current with
  | some previous =>
    have hrenewed := renewed_install used.1 items
    rw [replace_of_current hcurrent]
    have hlt := h.lt (mem_known.2 (.inl hcurrent))
    exact ⟨previous, rfl, hrenewed.isCurrent_eq_false hlt, hrenewed⟩
  | none =>
    have hrenewed := renewed_install { used.1 with issued := used.1.issued + 1 } items
    rw [replace_of_unset hcurrent]
    exact ⟨⟨used.1.issued, []⟩, rfl, hrenewed.isCurrent_eq_false (Nat.lt_succ_self _),
      ⟨_, rfl, Nat.le_succ _⟩⟩

/-- The list stays as it is or is renewed, and of the snapshots that are shown meanwhile only `got`
    is current in the end. -/
structure Course (used used' : Used α) (got : Option (Snapshot α)) : Prop where
  list : used'.1 = used.1 ∨ Renewed used.1 used'.1
  shown : ∃ older, used'.2.snapshots = used.2.snapshots ++ older ++ got.toList ∧
    ∀ snapshot ∈ older, used'.1.isCurrent snapshot = false
  got : ∀ snapshot ∈ got, used'.1.current = some snapshot

namespace Course

/-- Nothing is shown. -/
theorem of_snapshots (hlist : used'.1 = used.1 ∨ Renewed used.1 used'.1)
    (hsnapshots : used'.2.snapshots = used.2.snapshots) : Course used used' none :=
  ⟨hlist, ⟨[], by simp [hsnapshots], by simp⟩, by simp⟩

/-- What is shown last is current. -/
theorem reveal (hcurrent : list.current = some snapshot) :
    Course (list, journal) (list, journal.reveal snapshot snapshot.items) (some snapshot) := by
  refine ⟨.inl rfl, ⟨[], ?_, by simp⟩, ?_⟩
  · simp [Journal.reveal]
  · rintro s ⟨⟩
    exact hcurrent

/-- A snapshot that is not current any more will not be current again. -/
theorem isCurrent_eq_false (h : Course used used' got) (hlt : snapshot.serial < used.1.issued)
    (hnot : used.1.isCurrent snapshot = false) : used'.1.isCurrent snapshot = false := by
  rcases h.list with hsame | hrenewed
  · rw [hsame]
    exact hnot
  · exact hrenewed.isCurrent_eq_false hlt

/-- A course on which nothing current is shown, and then another one. -/
theorem trans (h : Course used used' none) (h' : Course used' used'' got) (hissued : Issued used') :
    Course used used'' got := by
  obtain ⟨older, hsnapshots, holder⟩ := h.shown
  obtain ⟨older', hsnapshots', holder'⟩ := h'.shown
  rw [Option.toList_none, List.append_nil] at hsnapshots
  refine ⟨?_, ⟨older ++ older', ?_, ?_⟩, h'.got⟩
  -- a snapshot that is new after either part was never issued before the first
  · rcases h.list with hsame | ⟨new, hnew, hle⟩
    · rw [← hsame]
      exact h'.list
    · rcases h'.list with hsame | ⟨new', hnew', hle'⟩
      · exact .inr ⟨new, by rw [hsame, hnew], hle⟩
      · have hlt := hissued.lt (mem_known.2 (.inl hnew))
        exact .inr ⟨new', hnew', by omega⟩
  · rw [hsnapshots', hsnapshots]
    simp
  · intro s hs
    rcases List.mem_append.1 hs with hs | hs
    · have hshown : s ∈ used'.2.snapshots := by
        rw [hsnapshots]
        exact List.mem_append_right _ hs
      exact h'.isCurrent_eq_false (hissued.lt (mem_known.2 (.inr hshown))) (holder s hs)
    · exact holder' s hs

/-- A replacement shows nothing that is current afterwards. -/
theorem replace (h : Issued used) (items : List α) : Course used (replace used items) none := by
  obtain ⟨previous, hsnapshots, hnot, hrenewed⟩ := h.exists_replaced items
  exact ⟨.inr hrenewed, ⟨[previous], by simpa using hsnapshots, by simpa using hnot⟩, by simp⟩

/-- Edits that a source makes while it is asked show nothing that is current afterwards. -/
theorem foldl_replace (h : Issued used) (lists : List (List α)) :
    Course used (lists.foldl HandlerList.replace used) none := by
  induction lists generalizing used with
  | nil => exact of_snapshots (.inl rfl) rfl
  | cons items rest ih => exact (replace h items).trans (ih (h.replace items)) (h.replace items)

end Course

/-! ### Commands -/

section

variable [DecidableEq α] (replies : Nat → Reply α)

/-- A list that is about to be used: an unset one is filled by its source. -/
def filled (used : Used α) : Used α :=
  match used.1.current with
  | some _ => used
  | none =>
    let reply := replies (used.2.log.count .asked)
    let asked := reply.installed.foldl replace (used.1, used.2.note .asked)
    match asked.1.current with
    | some _ => asked
    | none => (asked.1.install reply.answer, asked.2)

/-- A list that is set is not filled again. -/
theorem filled_of_current (hcurrent : used.1.current = some snapshot) :
    filled replies used = used := by
  simp [filled, hcurrent]

/-- A use of a list gets the snapshot that is current once the list is filled. -/
theorem play_fetch (used : Used α) :
    ∃ snapshot, (filled replies used).1.current = some snapshot ∧
      ((fetch used.1).play (answering replies) used.2).result = some snapshot ∧
      ((fetch used.1).play (answering replies) used.2).state = (filled replies used).1 ∧
      ((fetch used.1).play (answering replies) used.2).memory = (filled replies used).2 := by
  obtain ⟨list, journal⟩ := used
  cases hcurrent : list.current with
  | some snapshot =>
    rw [filled_of_current replies hcurrent]
    simp only [fetch, hcurrent]
    exact ⟨snapshot, rfl, rfl, rfl, rfl⟩
  | none =>
    simp only [fetch, filled, hcurrent, Dialogue.play_ask, answering, Dialogue.play_announce]
    generalize (replies (journal.log.count .asked)).installed.foldl replace _ = asked
    cases hwinner : asked.1.current with
    | some winner => exact ⟨winner, hwinner, rfl, rfl, rfl⟩
    | none => exact ⟨_, rfl, rfl, rfl, rfl⟩

/-- A command that uses the list first goes on from there. -/
theorem exists_use_eq (edit : Snapshot α → Program (source α) (HandlerList α) Unit)
    (f : Snapshot α → HandlerList α → HandlerList α)
    (hedit : ∀ snapshot list, edit snapshot list = .done (f snapshot list) ())
    (note : Unit → Journal (Snapshot α) α → Journal (Snapshot α) α) (used : Used α) :
    ∃ snapshot, (filled replies used).1.current = some snapshot ∧
      use replies (fetch >>= edit) note used =
        (f snapshot (filled replies used).1, note () (filled replies used).2) := by
  obtain ⟨snapshot, hcurrent, hresult, hstate, hmemory⟩ := play_fetch replies used
  refine ⟨snapshot, hcurrent, ?_⟩
  simp only [use, Program.bind_apply, Dialogue.play_bind, Dialogue.Play.bind_of_result hresult,
    hedit, Dialogue.play_done, Option.elim, hstate, hmemory]

/-- A look at the list fills it and shows its current snapshot. -/
theorem exists_run_get (used : Used α) :
    ∃ snapshot, (filled replies used).1.current = some snapshot ∧
      Command.get.run replies used =
        ((filled replies used).1, (filled replies used).2.reveal snapshot snapshot.items) := by
  obtain ⟨snapshot, hcurrent, hresult, hstate, hmemory⟩ := play_fetch replies used
  refine ⟨snapshot, hcurrent, ?_⟩
  simp only [Command.run, use, hresult, hstate, hmemory, Option.elim]

/-- A handler is added after the others of the current snapshot. -/
theorem exists_run_add (handler : α) (used : Used α) :
    ∃ snapshot, (filled replies used).1.current = some snapshot ∧
      (Command.add handler).run replies used =
        ((filled replies used).1.install (snapshot.items ++ [handler]),
          (filled replies used).2.note .edited) :=
  exists_use_eq replies (fun snapshot => modify (·.install (snapshot.items ++ [handler])))
    (fun snapshot list => list.install (snapshot.items ++ [handler])) (fun _ _ => rfl)
    (fun _ journal => journal.note .edited) used

/-- The first equal handler is taken from the current snapshot, if there is one. -/
theorem exists_run_remove (handler : α) (used : Used α) :
    ∃ snapshot, (filled replies used).1.current = some snapshot ∧
      (Command.remove handler).run replies used =
        (if handler ∈ snapshot.items then
          (filled replies used).1.install (snapshot.items.erase handler)
        else (filled replies used).1, (filled replies used).2.note .edited) := by
  obtain ⟨snapshot, hcurrent, huse⟩ := exists_use_eq replies
    (fun snapshot => if handler ∈ snapshot.items then
      modify (·.install (snapshot.items.erase handler)) else pure ())
    (fun snapshot list => if handler ∈ snapshot.items then
      list.install (snapshot.items.erase handler) else list)
    (fun _ _ => by split <;> rfl) (fun _ journal => journal.note .edited) used
  exact ⟨snapshot, hcurrent, huse⟩

/-- Numbers tell snapshots apart after the list was filled. -/
theorem issued_filled (h : Issued used) : Issued (filled replies used) := by
  unfold filled
  split
  · exact h
  · have hasked := (h.note .asked).foldl_replace (replies (used.2.log.count .asked)).installed
    dsimp only
    split
    · exact hasked
    · exact hasked.install _

/-- A list that is filled shows nothing that is current afterwards. -/
theorem course_filled (h : Issued used) : Course used (filled replies used) none := by
  unfold filled
  split
  · exact .of_snapshots (.inl rfl) rfl
  · have hnoted : Course used (used.1, used.2.note .asked) none := .of_snapshots (.inl rfl) rfl
    have hasked := (show Issued (used.1, used.2) from h).note .asked
    have hinstalled :=
      hnoted.trans (.foldl_replace hasked (replies (used.2.log.count .asked)).installed) hasked
    dsimp only
    split
    · exact hinstalled
    · exact hinstalled.trans (.of_snapshots (.inr (renewed_install _ _)) rfl)
        (hasked.foldl_replace _)

/-- Every command keeps the numbers apart. -/
theorem issued_run (h : Issued used) (command : Command α) :
    Issued (command.run replies used) := by
  have hfilled := issued_filled replies h
  cases command with
  | get =>
    obtain ⟨snapshot, hcurrent, hrun⟩ := exists_run_get replies used
    rw [hrun]
    exact hfilled.reveal (mem_known.2 (.inl hcurrent))
  | add handler =>
    obtain ⟨snapshot, -, hrun⟩ := exists_run_add replies handler used
    rw [hrun]
    exact (hfilled.install _).note _
  | remove handler =>
    obtain ⟨snapshot, -, hrun⟩ := exists_run_remove replies handler used
    rw [hrun]
    split
    · exact (hfilled.install _).note _
    · exact hfilled.note _
  | set items => exact h.replace items
  | clear => exact h.replace []
  | compareAndSet expected items =>
    simp only [Command.run]
    split
    · simp only [compareAndSet]
      split
      · exact (h.install items).note _
      · exact h.note _
    · exact h.note _
  | isInitialized => exact h.note _

/-- Every command takes a course, and of the snapshots that it shows only one that is got is
    current then. -/
theorem course_run (h : Issued used) (command : Command α) :
    ∃ got, Course used (command.run replies used) got ∧ (got.isSome = true ↔ command = .get) := by
  -- a command that needs the list fills it first, which is a course of its own
  have hfilled := issued_filled replies h
  have hcourse := course_filled replies h
  cases command with
  | get =>
    obtain ⟨snapshot, hcurrent, hrun⟩ := exists_run_get replies used
    rw [hrun]
    exact ⟨some snapshot, hcourse.trans (.reveal hcurrent) hfilled, by simp⟩
  | add handler =>
    obtain ⟨snapshot, -, hrun⟩ := exists_run_add replies handler used
    rw [hrun]
    have hadded := renewed_install (filled replies used).1 (snapshot.items ++ [handler])
    exact ⟨none, hcourse.trans (.of_snapshots (.inr hadded) rfl) hfilled, by simp⟩
  | remove handler =>
    obtain ⟨snapshot, -, hrun⟩ := exists_run_remove replies handler used
    rw [hrun]
    refine ⟨none, hcourse.trans (.of_snapshots ?_ rfl) hfilled, by simp⟩
    split
    · exact .inr (renewed_install _ _)
    · exact .inl rfl
  | set items => exact ⟨none, .replace h items, by simp⟩
  | clear => exact ⟨none, .replace h [], by simp⟩
  | compareAndSet expected items =>
    refine ⟨none, ?_, by simp⟩
    simp only [Command.run]
    split
    · refine .of_snapshots ?_ rfl
      simp only [compareAndSet]
      split
      · exact .inr (renewed_install _ _)
      · exact .inl rfl
    · exact .of_snapshots (.inl rfl) rfl
  | isInitialized => exact ⟨none, .of_snapshots (.inl rfl) rfl, by simp⟩

/-- Every run keeps the numbers apart. -/
theorem issued_runAll (h : Issued used) (commands : List (Command α)) :
    Issued (runAll replies commands used) := by
  induction commands generalizing used with
  | nil => exact h
  | cons command rest ih => exact ih (issued_run replies h command)

/-- A snapshot that is not current any more will not be current again, whatever is done. -/
theorem isCurrent_runAll_eq_false (h : Issued used) (hshown : snapshot ∈ used.2.snapshots)
    (hnot : used.1.isCurrent snapshot = false) (commands : List (Command α)) :
    (runAll replies commands used).1.isCurrent snapshot = false := by
  induction commands generalizing used with
  | nil => exact hnot
  | cons command rest ih =>
    obtain ⟨got, hcourse, -⟩ := course_run replies h command
    obtain ⟨older, hsnapshots, -⟩ := hcourse.shown
    refine ih (issued_run replies h command) ?_
      (hcourse.isCurrent_eq_false (h.lt (mem_known.2 (.inr hshown))) hnot)
    rw [hsnapshots, List.append_assoc]
    exact List.mem_append_left _ hshown

/-- What was shown stays as it was. -/
theorem snapshots_prefix_runAll (h : Issued used) (commands : List (Command α)) :
    used.2.snapshots <+: (runAll replies commands used).2.snapshots := by
  induction commands generalizing used with
  | nil => exact List.prefix_rfl
  | cons command rest ih =>
    obtain ⟨got, hcourse, -⟩ := course_run replies h command
    obtain ⟨older, hsnapshots, -⟩ := hcourse.shown
    refine List.IsPrefix.trans ?_ (ih (issued_run replies h command))
    rw [hsnapshots, List.append_assoc]
    exact List.prefix_append _ _

/-! ### Changes of a list -/

/-- Whether a replacement by way of the snapshot that was shown as number `expected` is made, as it
    is seen. -/
def Succeeds (expected : Nat) (items : List α) (used : Used α) : Prop :=
  ((Command.compareAndSet expected items).run replies used).2.log =
    used.2.log ++ [.swapped true]

instance (expected : Nat) (items : List α) (used : Used α) :
    Decidable (Succeeds replies expected items used) :=
  inferInstanceAs (Decidable (_ = _))

/-- Whether a command changes a list: a removal only if the handler is there, and a replacement by
    way of a snapshot only if it is made. -/
def Command.Changes (used : Used α) : Command α → Prop
  | get | isInitialized => False
  | add _ | set _ | clear => True
  | remove handler => handler ∈ used.1.items
  | compareAndSet expected items => Succeeds replies expected items used

/-- A replacement succeeds just when the snapshot it is given was shown and is current. -/
theorem succeeds_iff {expected : Nat} {items : List α} : Succeeds replies expected items used ↔
    ∃ snapshot, used.2.snapshots[expected]? = some snapshot ∧
      used.1.isCurrent snapshot = true := by
  simp only [Succeeds, Command.run]
  cases hshown : used.2.snapshots[expected]? with
  | none => simp [Journal.note]
  | some snapshot =>
    cases hcurrent : used.1.isCurrent snapshot <;>
      simp [compareAndSet, Journal.note, hcurrent]

/-- The list is replaced if that succeeds. -/
theorem run_compareAndSet_of_succeeds {expected : Nat} {items : List α}
    (h : Succeeds replies expected items used) :
    (Command.compareAndSet expected items).run replies used =
      (used.1.install items, used.2.note (.swapped true)) := by
  obtain ⟨snapshot, hshown, hcurrent⟩ := (succeeds_iff replies).1 h
  simp [Command.run, hshown, compareAndSet, hcurrent]

/-- Nothing happens to the list if that fails. -/
theorem run_compareAndSet_of_not_succeeds {expected : Nat} {items : List α}
    (h : ¬ Succeeds replies expected items used) :
    (Command.compareAndSet expected items).run replies used =
      (used.1, used.2.note (.swapped false)) := by
  rw [succeeds_iff, not_exists] at h
  simp only [Command.run]
  split
  · rename_i snapshot hshown
    have hnot : used.1.isCurrent snapshot = false := by simpa [hshown] using h snapshot
    simp [compareAndSet, hnot]
  · rfl

/-- A change brings a new snapshot. -/
theorem Command.renewed_of_changes {command : Command α} (hset : used.1.current = some snapshot)
    (hchanges : command.Changes replies used) :
    Renewed used.1 (command.run replies used).1 := by
  -- a list that is set is not filled again
  have hfilled := filled_of_current replies hset
  have hitems : used.1.items = snapshot.items := by simp [HandlerList.items, hset]
  cases command with
  | get => exact hchanges.elim
  | isInitialized => exact hchanges.elim
  | add handler =>
    obtain ⟨shown, -, hrun⟩ := exists_run_add replies handler used
    rw [hrun, hfilled]
    exact renewed_install _ _
  | remove handler =>
    obtain ⟨shown, hshown, hrun⟩ := exists_run_remove replies handler used
    rw [hfilled, hset] at hshown
    obtain rfl := Option.some.inj hshown
    have hmem : handler ∈ snapshot.items := hitems ▸ hchanges
    rw [hrun, hfilled, if_pos hmem]
    exact renewed_install _ _
  | set items =>
    rw [Command.run, replace_of_current hset]
    exact renewed_install _ _
  | clear =>
    change Renewed used.1 (replace used []).1
    rw [replace_of_current hset]
    exact renewed_install _ _
  | compareAndSet expected items =>
    rw [run_compareAndSet_of_succeeds replies hchanges]
    exact renewed_install _ _

/-- A run in two parts. -/
theorem runAll_append (commands later : List (Command α)) (used : Used α) :
    runAll replies (commands ++ later) used =
      runAll replies later (runAll replies commands used) :=
  List.foldl_append

/-- A run with one more command. -/
theorem runAll_concat (commands : List (Command α)) (command : Command α) (used : Used α) :
    runAll replies (commands ++ [command]) used =
      command.run replies (runAll replies commands used) :=
  runAll_append replies commands [command] used

/-- Without a change, a set list stays as it is, and so does its snapshot. -/
theorem Command.list_of_not_changes {command : Command α} (hset : used.1.current = some snapshot)
    (hnot : ¬ command.Changes replies used) : (command.run replies used).1 = used.1 := by
  have hfilled := filled_of_current replies hset
  have hitems : used.1.items = snapshot.items := by simp [HandlerList.items, hset]
  cases command with
  | get =>
    obtain ⟨shown, -, hrun⟩ := exists_run_get replies used
    rw [hrun, hfilled]
  | isInitialized => rfl
  | add handler => exact absurd trivial hnot
  | set items => exact absurd trivial hnot
  | clear => exact absurd trivial hnot
  | remove handler =>
    obtain ⟨shown, hshown, hrun⟩ := exists_run_remove replies handler used
    rw [hfilled, hset] at hshown
    obtain rfl := Option.some.inj hshown
    have habsent : handler ∉ snapshot.items := hitems ▸ hnot
    rw [hrun, hfilled, if_neg habsent]
  | compareAndSet expected items => rw [run_compareAndSet_of_not_succeeds replies hnot]

/-- Whether none of the commands changes the list, when they are run one after the other. -/
def LeaveUnchanged : List (Command α) → Used α → Prop
  | [], _ => True
  | command :: rest, used =>
    ¬ command.Changes replies used ∧ LeaveUnchanged rest (command.run replies used)

/-- A run with one more command leaves the list unchanged just when the run does and the
    command does. -/
theorem leaveUnchanged_append {commands : List (Command α)} {command : Command α} :
    LeaveUnchanged replies (commands ++ [command]) used ↔
      LeaveUnchanged replies commands used ∧
        ¬ command.Changes replies (runAll replies commands used) := by
  induction commands generalizing used with
  | nil => simp [LeaveUnchanged, runAll]
  | cons first rest ih => simp [LeaveUnchanged, runAll, ih, and_assoc]

/-- A set list is as it was after commands that do not change it. -/
theorem list_runAll_of_leaveUnchanged {commands : List (Command α)}
    (hset : used.1.current = some snapshot) (h : LeaveUnchanged replies commands used) :
    (runAll replies commands used).1 = used.1 := by
  induction commands generalizing used with
  | nil => rfl
  | cons command rest ih =>
    have hsame := Command.list_of_not_changes replies hset h.1
    exact (ih (hsame ▸ hset) h.2).trans hsame

/-- Whether the snapshot that was shown as number `expected` came from a `get`, and none of the
    commands since then has changed the list. -/
def UnchangedSinceGet (used : Used α) (commands : List (Command α)) (expected : Nat) : Prop :=
  ∃ earlier since, commands = earlier ++ .get :: since ∧
    let got := Command.get.run replies (runAll replies earlier used)
    got.2.snapshots.length = expected + 1 ∧ LeaveUnchanged replies since got

/-- What was got is current as long as the list has not changed. -/
theorem isCurrent_of_unchangedSinceGet {commands : List (Command α)} {expected : Nat}
    (h : Issued used) (hsince : UnchangedSinceGet replies used commands expected) :
    ∃ snapshot, (runAll replies commands used).2.snapshots[expected]? = some snapshot ∧
      (runAll replies commands used).1.isCurrent snapshot = true := by
  obtain ⟨earlier, since, rfl, hlength, hunchanged⟩ := hsince
  -- the run in three parts: up to the look, the look, and what came since
  have hsplit : earlier ++ .get :: since = (earlier ++ [.get]) ++ since := by simp
  have hissued := issued_runAll replies h (earlier ++ [.get])
  rw [hsplit, runAll_append]
  rw [runAll_concat] at hissued ⊢
  obtain ⟨snapshot, hcurrent, hrun⟩ := exists_run_get replies (runAll replies earlier used)
  generalize Command.get.run replies (runAll replies earlier used) = got at *
  have hset : got.1.current = some snapshot := by rw [hrun]; exact hcurrent
  have hlast : got.2.snapshots[expected]? = some snapshot := by
    rw [hrun] at hlength ⊢
    simp only [Journal.reveal, List.length_append, List.length_singleton,
      Nat.add_right_cancel_iff] at hlength ⊢
    simp [← hlength]
  refine ⟨snapshot, ?_, ?_⟩
  · obtain ⟨later, hprefix⟩ := snapshots_prefix_runAll replies hissued since
    rw [← hprefix, List.getElem?_append_left (List.getElem?_eq_some_iff.1 hlast).1]
    exact hlast
  · rw [list_runAll_of_leaveUnchanged replies hset hunchanged]
    exact (isCurrent_iff_serial hset).2 rfl

/-- A snapshot that was shown and is current after a command was current before it, and the command
    was no change. -/
theorem Command.not_changes_of_isCurrent (h : Issued used) {command : Command α}
    (hshown : snapshot ∈ used.2.snapshots)
    (hcurrent : (command.run replies used).1.isCurrent snapshot = true) :
    used.1.isCurrent snapshot = true ∧ ¬ command.Changes replies used := by
  obtain ⟨got, hcourse, -⟩ := course_run replies h command
  have hlt := h.lt (mem_known.2 (.inr hshown))
  have hbefore : used.1.isCurrent snapshot = true := by
    by_contra hnot
    rw [Bool.not_eq_true] at hnot
    rw [hcourse.isCurrent_eq_false hlt hnot] at hcurrent
    cases hcurrent
  refine ⟨hbefore, fun hchanges => ?_⟩
  cases hset : used.1.current with
  | none =>
    rw [isCurrent_of_unset hset] at hbefore
    cases hbefore
  | some current =>
    have hrenewed := Command.renewed_of_changes replies hset hchanges
    rw [hrenewed.isCurrent_eq_false hlt] at hcurrent
    cases hcurrent

/-- A snapshot that a command has shown and that is current after it was got, and shown last. -/
theorem Command.eq_get_of_isCurrent (h : Issued used) {command : Command α} {expected : Nat}
    (hnew : used.2.snapshots.length ≤ expected)
    (hshown : (command.run replies used).2.snapshots[expected]? = some snapshot)
    (hcurrent : (command.run replies used).1.isCurrent snapshot = true) :
    command = .get ∧ (command.run replies used).2.snapshots.length = expected + 1 := by
  obtain ⟨got, hcourse, hget⟩ := course_run replies h command
  obtain ⟨older, hsnapshots, holder⟩ := hcourse.shown
  rw [hsnapshots] at hshown ⊢
  by_cases hlast : (used.2.snapshots ++ older).length ≤ expected
  · rw [List.getElem?_append_right hlast] at hshown
    cases got with
    | none => simp at hshown
    | some last =>
      have hzero : expected - (used.2.snapshots ++ older).length = 0 := by
        by_contra hne
        rw [List.getElem?_eq_none (Nat.one_le_iff_ne_zero.2 hne)] at hshown
        cases hshown
      refine ⟨hget.1 rfl, ?_⟩
      rw [List.length_append, Option.toList_some, List.length_singleton]
      omega
  · -- it would be among those that were replaced meanwhile
    rw [List.getElem?_append_left (Nat.lt_of_not_le hlast),
      List.getElem?_append_right hnew] at hshown
    rw [holder snapshot (List.mem_of_getElem? hshown)] at hcurrent
    cases hcurrent

/-- Only what was got is current, and only as long as the list has not changed. -/
theorem unchangedSinceGet_of_isCurrent {commands : List (Command α)} {expected : Nat}
    (hnone : used.2.snapshots = []) (h : Issued used)
    (hshown : (runAll replies commands used).2.snapshots[expected]? = some snapshot)
    (hcurrent : (runAll replies commands used).1.isCurrent snapshot = true) :
    UnchangedSinceGet replies used commands expected := by
  -- from the last command back to the `get`
  induction commands using List.reverseRecOn with
  | nil => simp [runAll, hnone] at hshown
  | append_singleton commands command ih =>
    have hissued := issued_runAll replies h commands
    rw [runAll_concat] at hshown hcurrent
    by_cases hnew : (runAll replies commands used).2.snapshots.length ≤ expected
    · obtain ⟨rfl, hlength⟩ := Command.eq_get_of_isCurrent replies hissued hnew hshown hcurrent
      exact ⟨commands, [], rfl, hlength, trivial⟩
    · -- shown before the last command
      obtain ⟨rest, hprefix⟩ := snapshots_prefix_runAll replies hissued [command]
      change _ = (command.run replies (runAll replies commands used)).2.snapshots at hprefix
      rw [← hprefix, List.getElem?_append_left (Nat.lt_of_not_le hnew)] at hshown
      obtain ⟨hbefore, hnot⟩ := Command.not_changes_of_isCurrent replies hissued
        (List.mem_of_getElem? hshown) hcurrent
      obtain ⟨earlier, since, rfl, hlength, hunchanged⟩ := ih hshown hbefore
      rw [runAll_append] at hnot
      exact ⟨earlier, since ++ [command], by simp, hlength,
        (leaveUnchanged_append replies).2 ⟨hunchanged, hnot⟩⟩

/-- What a replacement returns is shown, and never current. -/
theorem not_succeeds_replace (h : Issued used) (items : List α) :
    (replace used items).2.snapshots.length = used.2.snapshots.length + 1 ∧
      ∀ later new, ¬ Succeeds replies used.2.snapshots.length new
        (runAll replies later (replace used items)) := by
  obtain ⟨previous, hsnapshots, hnot, -⟩ := h.exists_replaced items
  rw [hsnapshots]
  refine ⟨List.length_append, fun later new hsucceeds => ?_⟩
  obtain ⟨snapshot, hshown, hcurrent⟩ := (succeeds_iff replies).1 hsucceeds
  obtain ⟨rest, hprefix⟩ := snapshots_prefix_runAll replies (h.replace items) later
  rw [← hprefix, hsnapshots] at hshown
  obtain rfl : previous = snapshot := by simpa using hshown
  have hmem : previous ∈ (replace used items).2.snapshots := by
    rw [hsnapshots]
    exact List.mem_concat_self
  rw [isCurrent_runAll_eq_false replies (h.replace items) hmem hnot later] at hcurrent
  cases hcurrent

/-! ### Runs -/

/-- In every run, a replacement by way of a snapshot succeeds if the snapshot was got and the list
    has not changed since, and only then; the list is the new one after it, and otherwise the very
    one of before.  What was replaced is never current again.  What a `set` or a `clear` returns is
    never current, and no snapshot that was shown changes or is mistaken for another one. -/
theorem compareAndSet_succeeds_iff (initial : Option (List α)) (commands : List (Command α)) :
    let used := runAll replies commands (start initial)
    (∀ expected items,
      (Succeeds replies expected items used ↔
        UnchangedSinceGet replies (start initial) commands expected) ∧
      let used' := (Command.compareAndSet expected items).run replies used
      (Succeeds replies expected items used → used'.1.current.map (·.items) = some items) ∧
      (¬ Succeeds replies expected items used → used'.1 = used.1 ∧
        used'.2.log = used.2.log ++ [.swapped false])) ∧
    (∀ snapshot ∈ used.2.snapshots, used.1.isCurrent snapshot = false →
      ∀ later, (runAll replies later used).1.isCurrent snapshot = false) ∧
    (∀ command : Command α, (command = .clear ∨ ∃ items, command = .set items) →
      (command.run replies used).2.snapshots.length = used.2.snapshots.length + 1 ∧
      ∀ later items, ¬ Succeeds replies used.2.snapshots.length items
        (runAll replies later (command.run replies used))) ∧
    (∀ later, used.2.snapshots <+: (runAll replies later used).2.snapshots) ∧
    ∀ snapshot ∈ used.2.snapshots, ∀ other ∈ used.2.snapshots,
      snapshot.serial = other.serial → snapshot = other := by
  have hstart := Issued.start initial
  have hnone : (start initial).2.snapshots = [] := by cases initial <;> rfl
  have hissued := issued_runAll replies hstart commands
  have hshown : ∀ snapshot ∈ (runAll replies commands (start initial)).2.snapshots,
      snapshot ∈ known (runAll replies commands (start initial)) :=
    fun snapshot h => mem_known.2 (.inr h)
  refine ⟨fun expected items => ⟨⟨?_, ?_⟩, ?_, ?_⟩, ?_, ?_, ?_, ?_⟩
  -- who succeeds has got the current snapshot, and whoever has got it still can
  · intro hsucceeds
    obtain ⟨snapshot, hshown, hcurrent⟩ := (succeeds_iff replies).1 hsucceeds
    exact unchangedSinceGet_of_isCurrent replies hnone hstart hshown hcurrent
  · intro hsince
    exact (succeeds_iff replies).2 (isCurrent_of_unchangedSinceGet replies hstart hsince)
  · intro hsucceeds
    rw [run_compareAndSet_of_succeeds replies hsucceeds]
    rfl
  · intro hfails
    rw [run_compareAndSet_of_not_succeeds replies hfails]
    exact ⟨rfl, rfl⟩
  · intro snapshot hmem hnot later
    exact isCurrent_runAll_eq_false replies hissued hmem hnot later
  · rintro command (rfl | ⟨items, rfl⟩)
    · exact not_succeeds_replace replies hissued []
    · exact not_succeeds_replace replies hissued items
  · exact snapshots_prefix_runAll replies hissued
  · intro snapshot hmem other hmem' heq
    exact hissued.apart (hshown snapshot hmem) (hshown other hmem') heq

end

/-- Equal contents do not bring a snapshot back, and the removal of an absent handler does not
    invalidate one. -/
theorem compareAndSet_after_equal_contents :
    let back := runAll (fun _ => { answer := [] }) [.get, .set [2], .set [1]] (start (some [1]))
    let same := runAll (fun _ => { answer := [1] }) [.get, .remove 2] (start none)
    back.2.snapshots[0]?.map (·.items) = back.1.current.map (·.items) ∧
      ((Command.compareAndSet 0 [3]).run (fun _ => { answer := [] }) back).1 = back.1 ∧
      UnchangedSinceGet (fun _ => { answer := [1] }) (start none) [.get, .remove 2] 0 ∧
      ((Command.compareAndSet 0 [3]).run (fun _ => { answer := [1] }) same).1.items = [3] := by
  obtain ⟨-, -, hfails⟩ := (compareAndSet_succeeds_iff (fun _ => { answer := [] }) (some [1])
    [.get, .set [2], .set [1]]).1 0 [3]
  obtain ⟨hiff, hnew, -⟩ := (compareAndSet_succeeds_iff (fun _ => { answer := [1] }) none
    [.get, .remove 2]).1 0 [3]
  refine ⟨by decide, (hfails (by decide)).1, hiff.1 (by decide), ?_⟩
  simp only [HandlerList.items, hnew (by decide), Option.getD]

end LoggerHierarchy.HandlerList
