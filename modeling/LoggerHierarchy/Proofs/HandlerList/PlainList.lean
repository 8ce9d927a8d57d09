import LoggerHierarchy.HandlerList
import LoggerHierarchy.Proofs.Play
import Mathlib.Data.List.Forall2

namespace LoggerHierarchy.HandlerList

/-!
# Handler lists as plain lists

A handler list is used by commands, and its source may install other handlers while it is asked.
All that is seen of this is what a plain list shows that is unset at first:

* `Command`, `Reply` — what is done to a list, and what its source does when it is asked;
* `Observation`, `Journal` — what is seen of a list, and all that was seen so far;
* `Command.run` — a command on a handler list;
* `add_eq_compareAndSet`, `remove_eq_compareAndSet` — the two edits never lose against another one;
* `PlainList`, `Command.runOnPlain` — a list of handlers that counts its changes, and a command on
  it;
* `Matches` — a handler list and a plain list show the same; `Matches.run` carries it through every
  command;
* `Continues` — what is seen of a list after it was set;
* `log_runAll_eq` — whatever is done, both show the same, and the source is asked once at most.
-/

variable {α : Type}

/-! ### What is done, and what is seen -/

/-- What is done to a handler list. -/
inductive Command (α : Type) where
  | get
  | add (handler : α)
  | remove (handler : α)
  | set (items : List α)
  | clear
  /-- Replaces the list if the snapshot that was shown as number `expected` is still current. -/
  | compareAndSet (expected : Nat) (items : List α)
  | isInitialized

/-- What a source does when it is asked: it installs some lists, one after the other, and answers.
    To clear the list is to install an empty one. -/
structure Reply (α : Type) where
  installed : List (List α) := []
  answer : List α

/-- What is seen of a handler list. -/
inductive Observation (α : Type) where
  /-- The source is asked. -/
  | asked
  /-- A snapshot is shown. -/
  | shown (items : List α)
  /-- A handler was added, or removed if it was there. -/
  | edited
  /-- Whether a replacement was made. -/
  | swapped (success : Bool)
  | initialized (isInitialized : Bool)
  deriving DecidableEq

/-- What was seen of a list so far, and the snapshots `S` among it, in order. -/
structure Journal (S α : Type) where
  snapshots : List S := []
  log : List (Observation α) := []

namespace Journal

variable {S : Type}

def note (journal : Journal S α) (observation : Observation α) : Journal S α :=
  { journal with log := journal.log ++ [observation] }

def reveal (journal : Journal S α) (snapshot : S) (items : List α) : Journal S α :=
  ⟨journal.snapshots ++ [snapshot], journal.log ++ [.shown items]⟩

end Journal

/-! ### Commands on a handler list -/

/-- A handler list with what was seen of it. -/
abbrev Used (α : Type) : Type :=
  HandlerList α × Journal (Snapshot α) α

/-- The list is replaced, and the snapshot before is shown. -/
def replace (used : Used α) (items : List α) : Used α :=
  ((used.1.set items).2, used.2.reveal (used.1.set items).1 (used.1.set items).1.items)

section

variable [DecidableEq α] (replies : Nat → Reply α)

/-- A source that does, when it is asked for the first, second, third time, what `replies` says. -/
def answering : Dialogue.Outside (source α) (HandlerList α) (Journal (Snapshot α) α) :=
  fun _ list journal =>
    let reply := replies (journal.log.count .asked)
    let used := reply.installed.foldl replace (list, journal.note .asked)
    (reply.answer, used)

/-- A use of the list that may ask the source, and what is noted of its result. -/
def use {β : Type} (program : Program (source α) (HandlerList α) β)
    (note : β → Journal (Snapshot α) α → Journal (Snapshot α) α) (used : Used α) : Used α :=
  let play := (program used.1).play (answering replies) used.2
  (play.state, (play.result.elim id note) play.memory)

/-- A command on a handler list. -/
def Command.run : Command α → Used α → Used α
  | get, used =>
    use replies fetch (fun snapshot journal => journal.reveal snapshot snapshot.items) used
  | add handler, used =>
    use replies (HandlerList.add handler) (fun _ journal => journal.note .edited) used
  | remove handler, used =>
    use replies (HandlerList.remove handler) (fun _ journal => journal.note .edited) used
  | set items, used => replace used items
  | clear, used => (used.1.clear.2, used.2.reveal used.1.clear.1 used.1.clear.1.items)
  | compareAndSet expected items, used =>
    match used.2.snapshots[expected]? with
    | some snapshot =>
      ((used.1.compareAndSet snapshot items).2,
        used.2.note (.swapped (used.1.compareAndSet snapshot items).1))
    -- a snapshot of another list is never current
    | none => (used.1, used.2.note (.swapped false))
  | isInitialized, used => (used.1, used.2.note (.initialized used.1.isInitialized))

/-- Some commands, one after the other. -/
def runAll (commands : List (Command α)) (used : Used α) : Used α :=
  commands.foldl (fun used command => command.run replies used) used

end

/-! ### Compare and set

Nothing happens between the use of a list and the edit that follows it, so the list may as well be
compared with the snapshot in use: the comparison succeeds.
-/

/-- What follows a use of the list starts from a list whose current snapshot is the one in use. -/
theorem fetch_bind_congr {β : Type} {k k' : Snapshot α → Program (source α) (HandlerList α) β}
    (h : ∀ snapshot list, list.current = some snapshot → k snapshot list = k' snapshot list) :
    fetch >>= k = fetch >>= k' := by
  funext list
  simp only [Program.bind_apply, fetch]
  cases hcurrent : list.current with
  | some snapshot => exact h snapshot list hcurrent
  | none =>
    simp only [Dialogue.bind_ask, Dialogue.bind_announce]
    congr 1
    funext list items
    cases hwinner : list.current with
    | some winner => exact congrArg _ (h winner list hwinner)
    | none => exact congrArg _ (h _ _ rfl)

/-- From the current snapshot a replacement is made. -/
theorem compareAndSet_of_current {list : HandlerList α} {snapshot : Snapshot α}
    (hcurrent : list.current = some snapshot) (items : List α) :
    list.compareAndSet snapshot items = (true, list.install items) := by
  simp [compareAndSet, isCurrent, hcurrent]

/-- To add a handler is to get the list and to replace it by a longer one. -/
theorem add_eq_compareAndSet (handler : α) :
    add handler = (do
      let snapshot ← fetch
      modify fun list => (list.compareAndSet snapshot (snapshot.items ++ [handler])).2) := by
  refine fetch_bind_congr fun snapshot list hcurrent => ?_
  simp [compareAndSet_of_current hcurrent]

/-- To remove a handler is to get the list and to replace it by a shorter one, if the handler
    is in it. -/
theorem remove_eq_compareAndSet [DecidableEq α] (handler : α) :
    remove handler = (do
      let snapshot ← fetch
      if handler ∈ snapshot.items then
        modify fun list => (list.compareAndSet snapshot (snapshot.items.erase handler)).2) := by
  refine fetch_bind_congr fun snapshot list hcurrent => ?_
  split
  · simp [compareAndSet_of_current hcurrent]
  · rfl

/-! ### Commands on a plain list -/

/-- A list of handlers, unset at first, that counts its changes. -/
structure PlainList (α : Type) where
  items? : Option (List α) := none
  changes : Nat := 0

/-- What a plain list shows: its items, and the number of changes up to then.  There is no number at
    the empty list that stands in place of an unset one. -/
structure View (α : Type) where
  change? : Option Nat
  items : List α

namespace PlainList

def change (p : PlainList α) (items : List α) : PlainList α :=
  ⟨some items, p.changes + 1⟩

def view (p : PlainList α) : View α :=
  match p.items? with
  | some items => ⟨some p.changes, items⟩
  | none => ⟨none, []⟩

/-- Whether the list was set and has not changed since the view. -/
def isCurrent (p : PlainList α) (view : View α) : Bool :=
  p.items?.isSome && decide (view.change? = some p.changes)

end PlainList

/-- A plain list with what was seen of it. -/
abbrev Plain (α : Type) : Type :=
  PlainList α × Journal (View α) α

/-- The plain list is replaced, and shown as it was before. -/
def replacePlain (plain : Plain α) (items : List α) : Plain α :=
  (plain.1.change items, plain.2.reveal plain.1.view plain.1.view.items)

section

variable [DecidableEq α] (replies : Nat → Reply α)

/-- An unset list is filled with what its source answers, unless the source has installed others. -/
def fill (plain : Plain α) : Plain α :=
  match plain.1.items? with
  | some _ => plain
  | none =>
    let reply := replies (plain.2.log.count .asked)
    let asked := reply.installed.foldl replacePlain (plain.1, plain.2.note .asked)
    match asked.1.items? with
    | some _ => asked
    | none => (asked.1.change reply.answer, asked.2)

/-- A command on a plain list. -/
def Command.runOnPlain : Command α → Plain α → Plain α
  | get, plain =>
    let filled := fill replies plain
    (filled.1, filled.2.reveal filled.1.view filled.1.view.items)
  | add handler, plain =>
    let filled := fill replies plain
    (filled.1.change (filled.1.view.items ++ [handler]), filled.2.note .edited)
  | remove handler, plain =>
    let filled := fill replies plain
    if handler ∈ filled.1.view.items then
      (filled.1.change (filled.1.view.items.erase handler), filled.2.note .edited)
    else (filled.1, filled.2.note .edited)
  | set items, plain => replacePlain plain items
  | clear, plain => replacePlain plain []
  | compareAndSet expected items, plain =>
    if plain.2.snapshots[expected]?.any plain.1.isCurrent then
      (plain.1.change items, plain.2.note (.swapped true))
    else (plain.1, plain.2.note (.swapped false))
  | isInitialized, plain => (plain.1, plain.2.note (.initialized plain.1.items?.isSome))

/-- Some commands on a plain list, one after the other. -/
def runAllOnPlain (commands : List (Command α)) (plain : Plain α) : Plain α :=
  commands.foldl (fun plain command => command.runOnPlain replies plain) plain

end

/-! ### Both show the same -/

variable {list list' : HandlerList α} {p : PlainList α} {snapshot : Snapshot α} {view : View α}
  {journal : Journal (Snapshot α) α} {journal' : Journal (View α) α} {used : Used α}
  {plain : Plain α} {items : List α}

/-- A snapshot and a view of the same moment. -/
structure SameMoment (list : HandlerList α) (p : PlainList α) (snapshot : Snapshot α)
    (view : View α) : Prop where
  items : snapshot.items = view.items
  current : list.isCurrent snapshot = p.isCurrent view
  issued : snapshot.serial < list.issued
  counted : ∀ change ∈ view.change?, change ≤ p.changes

/-- A handler list and a plain list show the same, and have done so up to now. -/
structure Matches (used : Used α) (plain : Plain α) : Prop where
  items : used.1.current.map (·.items) = plain.1.items?
  issued : ∀ snapshot ∈ used.1.current, snapshot.serial < used.1.issued
  log : used.2.log = plain.2.log
  snapshots : List.Forall₂ (SameMoment used.1 plain.1) used.2.snapshots plain.2.snapshots

/-- A list before it is used: with given items, or unset. -/
def start : Option (List α) → Used α
  | some items => (ofList items, {})
  | none => (unset, {})

/-- At the start a list and its plain counterpart match. -/
theorem matches_start (initial : Option (List α)) : Matches (start initial) (⟨initial, 0⟩, {}) := by
  cases initial with
  | none => exact ⟨rfl, by simp [start, unset], rfl, .nil⟩
  | some items => exact ⟨rfl, by simp [start, ofList, install, unset], rfl, .nil⟩

namespace Matches

/-- They match after the same was noted of both. -/
theorem note (h : Matches (list, journal) (p, journal')) (observation : Observation α) :
    Matches (list, journal.note observation) (p, journal'.note observation) :=
  ⟨h.items, h.issued, congrArg (· ++ [observation]) h.log, h.snapshots⟩

/-- They match after snapshots of one moment were shown. -/
theorem reveal (h : Matches (list, journal) (p, journal'))
    (hsame : SameMoment list p snapshot view) :
    Matches (list, journal.reveal snapshot snapshot.items)
      (p, journal'.reveal view view.items) where
  items := h.items
  issued := h.issued
  log := by
    rw [hsame.items]
    exact congrArg (· ++ [.shown view.items]) h.log
  snapshots := List.rel_append h.snapshots (.cons hsame .nil)

/-- The current snapshot is what the plain list shows. -/
theorem sameMoment_view (h : Matches (list, journal) (p, journal'))
    (hcurrent : list.current = some snapshot) : SameMoment list p snapshot p.view := by
  have hitems : p.items? = some snapshot.items := by rw [← h.items, hcurrent]; rfl
  constructor
  case items => simp [PlainList.view, hitems]
  case current => simp [isCurrent, PlainList.isCurrent, PlainList.view, hitems, hcurrent]
  case issued => exact h.issued snapshot hcurrent
  case counted => simp [PlainList.view, hitems]

/-- The items of the current snapshot are those of the plain list. -/
theorem items_eq (h : Matches (list, journal) plain) (hcurrent : list.current = some snapshot) :
    plain.1.view.items = snapshot.items := by
  obtain ⟨p, journal'⟩ := plain
  exact (h.sameMoment_view hcurrent).items.symm

/-- After a change with a new serial number, no snapshot of before is current any more. -/
theorem change {serial : Nat} (h : Matches (list, journal) (p, journal'))
    (hcurrent : list'.current = some ⟨serial, items⟩) (hserial : list.issued ≤ serial)
    (hissued : list'.issued = serial + 1) :
    Matches (list', journal) (p.change items, journal') := by
  constructor
  case items => simp [hcurrent, PlainList.change]
  case issued => simp [hcurrent, hissued]
  case log => exact h.log
  case snapshots =>
    refine h.snapshots.imp fun snapshot view hsame => ?_
    have hlt := hsame.issued
    -- the serial number is above all that were issued, and the count above all that were seen
    have hstale : list'.isCurrent snapshot = false := by
      have hne : serial ≠ snapshot.serial := by simp only at hlt; omega
      simp [isCurrent, hcurrent, hne]
    have hpast : (p.change items).isCurrent view = false := by
      have hne : view.change? ≠ some (p.changes + 1) := by
        intro hchange
        have hle := hsame.counted _ hchange
        simp only at hle
        omega
      simp [PlainList.isCurrent, PlainList.change, hne]
    refine ⟨hsame.items, hstale.trans hpast.symm, ?_, ?_⟩
    · simp only at hlt ⊢
      omega
    · intro change hchange
      exact Nat.le_succ_of_le (hsame.counted change hchange)

/-- They match after both were set to the same items. -/
theorem install (h : Matches (list, journal) (p, journal')) (items : List α) :
    Matches (list.install items, journal) (p.change items, journal') :=
  h.change rfl (Nat.le_refl _) rfl

/-- Nothing changes while a serial number is left out. -/
theorem skip (h : Matches (list, journal) (p, journal')) :
    Matches ({ list with issued := list.issued + 1 }, journal) (p, journal') where
  items := h.items
  issued snapshot hcurrent := Nat.lt_succ_of_lt (h.issued snapshot hcurrent)
  log := h.log
  snapshots := h.snapshots.imp fun _ _ hsame =>
    ⟨hsame.items, hsame.current, Nat.lt_succ_of_lt hsame.issued, hsame.counted⟩

/-- In place of an unset list an empty snapshot is shown, with a number of its own. -/
theorem replace (h : Matches used plain) (items : List α) :
    Matches (replace used items) (replacePlain plain items) := by
  obtain ⟨list, journal⟩ := used
  obtain ⟨p, journal'⟩ := plain
  cases hcurrent : list.current with
  | some previous =>
    have hset : list.set items = (previous, list.install items) := by simp [set, hcurrent]
    simp only [HandlerList.replace, hset]
    exact (h.reveal (h.sameMoment_view hcurrent)).install items
  | none =>
    -- the empty snapshot takes the number that `skip` leaves out
    have hset : list.set items =
        (⟨list.issued, []⟩, { list with issued := list.issued + 1 }.install items) := by
      simp [set, hcurrent]
    have hunset : p.items? = none := by
      rw [← show list.current.map (·.items) = p.items? from h.items, hcurrent]
      rfl
    have hsame : SameMoment { list with issued := list.issued + 1 } p ⟨list.issued, []⟩ p.view := by
      constructor
      case items => simp [PlainList.view, hunset]
      case current => simp [isCurrent, PlainList.isCurrent, hunset, hcurrent]
      case issued => exact Nat.lt_succ_self _
      case counted => simp [PlainList.view, hunset]
    simp only [HandlerList.replace, hset]
    exact (h.skip.reveal hsame).install items

/-- They match after edits that the source makes while it is asked. -/
theorem foldl_replace (h : Matches used plain) (lists : List (List α)) :
    Matches (lists.foldl HandlerList.replace used) (lists.foldl replacePlain plain) := by
  induction lists generalizing used plain with
  | nil => exact h
  | cons items rest ih => exact ih (h.replace items)

/-- The snapshots that were shown stand at the same places. -/
theorem snapshot? (h : Matches used plain) (k : Nat) :
    used.2.snapshots[k]? = none ∧ plain.2.snapshots[k]? = none ∨
      ∃ snapshot view, used.2.snapshots[k]? = some snapshot ∧
        plain.2.snapshots[k]? = some view ∧ SameMoment used.1 plain.1 snapshot view := by
  obtain ⟨hlength, hsame⟩ := List.forall₂_iff_get.1 h.snapshots
  by_cases hk : k < used.2.snapshots.length
  · have hk' : k < plain.2.snapshots.length := hlength ▸ hk
    exact .inr ⟨_, _, List.getElem?_eq_getElem hk, List.getElem?_eq_getElem hk', hsame k hk hk'⟩
  · have hk' : ¬ k < plain.2.snapshots.length := hlength ▸ hk
    exact .inl ⟨by simpa using hk, by simpa using hk'⟩

variable [DecidableEq α] (replies : Nat → Reply α)

/-- The first use of an unset list fills it: with what its source has installed, or else with its
    answer.  What is used is the snapshot that is current then. -/
theorem fetch (h : Matches used plain) :
    let play := (HandlerList.fetch used.1).play (answering replies) used.2
    ∃ snapshot, play.result = some snapshot ∧ play.state.current = some snapshot ∧
      Matches (play.state, play.memory) (fill replies plain) := by
  obtain ⟨list, journal⟩ := used
  obtain ⟨p, journal'⟩ := plain
  have hitems : list.current.map (·.items) = p.items? := h.items
  cases hcurrent : list.current with
  | some snapshot =>
    have hfill : fill replies (p, journal') = (p, journal') := by
      simp [fill, ← hitems, hcurrent]
    simp only [HandlerList.fetch, hcurrent, hfill]
    exact ⟨snapshot, rfl, hcurrent, h⟩
  | none =>
    have hlog : journal.log = journal'.log := h.log
    -- what the source has made of the list
    have hasked := (h.note .asked).foldl_replace (replies (journal.log.count .asked)).installed
    have hfill : fill replies (p, journal') =
        let asked := (replies (journal.log.count .asked)).installed.foldl replacePlain
          (p, journal'.note .asked)
        match asked.1.items? with
        | some _ => asked
        | none => (asked.1.change (replies (journal.log.count .asked)).answer, asked.2) := by
      simp only [fill, ← hitems, hcurrent, hlog, Option.map_none]
    simp only [HandlerList.fetch, hcurrent, Dialogue.play_ask, answering, Dialogue.play_announce,
      hfill]
    generalize (replies (journal.log.count .asked)).installed.foldl HandlerList.replace _ = asked
      at hasked ⊢
    generalize List.foldl replacePlain _ _ = asked' at hasked ⊢
    generalize (replies (journal.log.count .asked)).answer = answer
    -- from here on it does not matter how the source came to leave the list so
    obtain ⟨list, journal⟩ := asked
    obtain ⟨p, journal'⟩ := asked'
    have hitems : list.current.map (·.items) = p.items? := hasked.items
    cases hcurrent : list.current with
    | some winner =>
      simp only [← hitems, hcurrent, Option.map_some]
      exact ⟨winner, rfl, hcurrent, hasked⟩
    | none =>
      simp only [← hitems, hcurrent, Option.map_none]
      exact ⟨_, rfl, rfl, hasked.install answer⟩

/-- A command that uses the list first goes on from what its use has left. -/
theorem use (h : Matches used plain) (edit : Snapshot α → Program (source α) (HandlerList α) Unit)
    (f : Snapshot α → HandlerList α → HandlerList α)
    (hedit : ∀ snapshot list, edit snapshot list = .done (f snapshot list) ())
    (note : Unit → Journal (Snapshot α) α → Journal (Snapshot α) α) :
    ∃ snapshot list journal, list.current = some snapshot ∧
      Matches (list, journal) (fill replies plain) ∧
      HandlerList.use replies (HandlerList.fetch >>= edit) note used =
        (f snapshot list, note () journal) := by
  obtain ⟨snapshot, hresult, hcurrent, hmatches⟩ := h.fetch replies
  refine ⟨snapshot, _, _, hcurrent, hmatches, ?_⟩
  simp only [HandlerList.use, Program.bind_apply, Dialogue.play_bind,
    Dialogue.Play.bind_of_result hresult, hedit, Dialogue.play_done, Option.elim]

/-- Every command shows the same on both sides, and they go on showing the same. -/
theorem run (h : Matches used plain) (command : Command α) :
    Matches (command.run replies used) (command.runOnPlain replies plain) := by
  cases command with
  -- commands that use the list fill it on both sides, in the same way
  | get =>
    obtain ⟨snapshot, hresult, hcurrent, hmatches⟩ := h.fetch replies
    simp only [Command.run, HandlerList.use, hresult, Option.elim]
    exact hmatches.reveal (hmatches.sameMoment_view hcurrent)
  | add handler =>
    obtain ⟨snapshot, list, journal, hcurrent, hmatches, huse⟩ := h.use replies
      (fun snapshot => modify (·.install (snapshot.items ++ [handler])))
      (fun snapshot list => list.install (snapshot.items ++ [handler])) (fun _ _ => rfl)
      (fun _ journal => journal.note .edited)
    simp only [Command.run, HandlerList.add, huse, Command.runOnPlain, hmatches.items_eq hcurrent]
    exact (hmatches.install _).note .edited
  | remove handler =>
    obtain ⟨snapshot, list, journal, hcurrent, hmatches, huse⟩ := h.use replies
      (fun snapshot => if handler ∈ snapshot.items then
        modify (·.install (snapshot.items.erase handler)) else pure ())
      (fun snapshot list => if handler ∈ snapshot.items then
        list.install (snapshot.items.erase handler) else list)
      (fun _ _ => by split <;> rfl) (fun _ journal => journal.note .edited)
    simp only [Command.run, HandlerList.remove, huse, Command.runOnPlain,
      hmatches.items_eq hcurrent]
    split
    · exact (hmatches.install _).note .edited
    · exact hmatches.note .edited
  | set items => exact h.replace items
  | clear => exact h.replace []
  | compareAndSet expected items =>
    obtain ⟨hsnapshot, hview⟩ | ⟨snapshot, view, hsnapshot, hview, hsame⟩ := h.snapshot? expected
    · simp only [Command.run, Command.runOnPlain, hsnapshot, hview]
      exact h.note _
    · simp only [Command.run, Command.runOnPlain, hsnapshot, hview, Option.any_some,
        HandlerList.compareAndSet, hsame.current]
      split
      · exact (h.install items).note _
      · exact h.note _
  | isInitialized =>
    have hset : used.1.isInitialized = plain.1.items?.isSome := by
      rw [← h.items, Option.isSome_map]
      rfl
    simp only [Command.run, Command.runOnPlain, hset]
    exact h.note _

/-- So do all commands. -/
theorem runAll (h : Matches used plain) (commands : List (Command α)) :
    Matches (runAll replies commands used) (runAllOnPlain replies commands plain) := by
  induction commands generalizing used plain with
  | nil => exact h
  | cons command rest ih => exact ih (h.run replies command)

end Matches

/-! ### What is seen of a list after it was set -/

namespace Observation

/-- Whether the list is set when this is seen, or as soon as the source has answered. -/
def isOfSet : Observation α → Bool
  | asked | shown _ | edited => true
  | swapped success => success
  | initialized isInitialized => isInitialized

/-- Whether this is seen only of an unset list. -/
def isOfUnset : Observation α → Bool
  | asked => true
  | initialized isInitialized => !isInitialized
  | shown _ | edited | swapped _ => false

/-- Whether something may be seen of a list after something else: what only an unset list shows is
    not seen any more once the list was set, or its source asked. -/
def MayFollow (earlier later : Observation α) : Prop :=
  earlier.isOfSet = true → later.isOfUnset = false

end Observation

/-- What is seen between two moments of a plain list: nothing of an unset list after anything of a
    set one, and a list that was set stays so. -/
def Continues (plain plain' : Plain α) : Prop :=
  ∃ seen, plain'.2.log = plain.2.log ++ seen ∧ seen.Pairwise Observation.MayFollow ∧
    (plain.1.items?.isSome = true →
      plain'.1.items?.isSome = true ∧ ∀ observation ∈ seen, observation.isOfUnset = false) ∧
    (plain'.1.items? = none → ∀ observation ∈ seen, observation.isOfSet = false)

namespace Continues

/-- Nothing done, nothing seen. -/
theorem refl (plain : Plain α) : Continues plain plain :=
  ⟨[], by simp, .nil, fun h => ⟨h, by simp⟩, by simp⟩

/-- What is seen of two parts of a run, one after the other. -/
theorem trans {plain plain' plain'' : Plain α} (h : Continues plain plain')
    (h' : Continues plain' plain'') : Continues plain plain'' := by
  obtain ⟨seen, hlog, horder, hset, hunset⟩ := h
  obtain ⟨seen', hlog', horder', hset', hunset'⟩ := h'
  refine ⟨seen ++ seen', by rw [hlog', hlog, List.append_assoc], ?_, ?_, ?_⟩
  · refine List.pairwise_append.2 ⟨horder, horder', ?_⟩
    intro earlier hearlier later hlater hsettled
    -- the list was set before the second part began
    have hbetween : plain'.1.items?.isSome = true := by
      by_contra hnone
      have hnot := hunset (by simpa using hnone) earlier hearlier
      exact absurd (hsettled.symm.trans hnot) (by simp)
    exact (hset' hbetween).2 later hlater
  · intro hsome
    obtain ⟨hbetween, hseen⟩ := hset hsome
    obtain ⟨hend, hseen'⟩ := hset' hbetween
    exact ⟨hend, List.forall_mem_append.2 ⟨hseen, hseen'⟩⟩
  · intro hnone
    have hbetween : plain'.1.items? = none := by
      by_contra hsome
      have hend := (hset' (Option.isSome_iff_ne_none.2 hsome)).1
      rw [hnone] at hend
      exact absurd hend (by simp)
    exact List.forall_mem_append.2 ⟨hunset hbetween, hunset' hnone⟩

/-- One thing is seen. -/
theorem one {plain' : Plain α} {observation : Observation α}
    (hlog : plain'.2.log = plain.2.log ++ [observation])
    (hset : plain.1.items?.isSome = true →
      plain'.1.items?.isSome = true ∧ observation.isOfUnset = false)
    (hunset : plain'.1.items? = none → observation.isOfSet = false) : Continues plain plain' := by
  refine ⟨[observation], hlog, List.pairwise_singleton _ _, ?_, ?_⟩
  · simpa using hset
  · simpa using hunset

/-- While a source is asked, nothing is seen but snapshots. -/
theorem exists_log_foldl_replacePlain (lists : List (List α)) (plain : Plain α) :
    ∃ seen, (lists.foldl replacePlain plain).2.log = plain.2.log ++ seen ∧
      ∀ observation ∈ seen, observation.isOfUnset = false := by
  induction lists generalizing plain with
  | nil => exact ⟨[], by simp, by simp⟩
  | cons items rest ih =>
    obtain ⟨seen, hlog, hseen⟩ := ih (replacePlain plain items)
    refine ⟨.shown plain.1.view.items :: seen, ?_, List.forall_mem_cons.2 ⟨rfl, hseen⟩⟩
    rw [List.foldl_cons, hlog]
    simp [replacePlain, Journal.reveal]

/-- Items that are set continue a list, whether it was set before or not. -/
theorem replace (plain : Plain α) (items : List α) : Continues plain (replacePlain plain items) :=
  one rfl (fun _ => ⟨rfl, rfl⟩) fun hnone => absurd hnone (by simp [replacePlain, PlainList.change])

variable [DecidableEq α] (replies : Nat → Reply α)

/-- A list that was filled is set, whatever its source has answered or done. -/
theorem isSome_fill (plain : Plain α) : (fill replies plain).1.items?.isSome = true := by
  unfold fill
  split
  · rename_i hitems
    rw [hitems, Option.isSome_some]
  · dsimp only
    split
    · rename_i hitems
      rw [hitems, Option.isSome_some]
    · rfl

/-- The source is asked only if the list is unset, and leaves it set. -/
theorem fill (plain : Plain α) : Continues plain (fill replies plain) := by
  have hsome := isSome_fill replies plain
  cases hitems : plain.1.items? with
  | some items =>
    have hfill : HandlerList.fill replies plain = plain := by simp [HandlerList.fill, hitems]
    rw [hfill]
    exact refl plain
  | none =>
    obtain ⟨seen, hlog, hseen⟩ := exists_log_foldl_replacePlain
      (replies (plain.2.log.count .asked)).installed (plain.1, plain.2.note .asked)
    have hfill : (HandlerList.fill replies plain).2.log = plain.2.log ++ .asked :: seen := by
      have hlog' : (HandlerList.fill replies plain).2.log = _ :=
        Eq.trans (by unfold HandlerList.fill; rw [hitems]; dsimp only; split <;> rfl) hlog
      rw [hlog', Journal.note, List.append_assoc, List.singleton_append]
    -- the question comes first, and all that the source does meanwhile is seen after it
    refine ⟨.asked :: seen, hfill, ?_, ?_, ?_⟩
    · refine List.pairwise_cons.2 ⟨fun later hlater _ => hseen later hlater, ?_⟩
      exact List.pairwise_of_forall_mem_list fun _ _ later hlater _ => hseen later hlater
    · intro hset
      rw [hitems] at hset
      exact absurd hset (by simp)
    · intro hnone
      rw [hnone] at hsome
      exact absurd hsome (by simp)

/-- What is seen of one command. -/
theorem run (plain : Plain α) (command : Command α) :
    Continues plain (command.runOnPlain replies plain) := by
  -- a command that uses the list fills it first
  have hfill := fill replies plain
  have hsome := isSome_fill replies plain
  have hset : (HandlerList.fill replies plain).1.items? ≠ none := by
    intro hnone
    rw [hnone] at hsome
    exact absurd hsome (by simp)
  cases command with
  | get => exact hfill.trans (one rfl (fun h => ⟨h, rfl⟩) fun hnone => absurd hnone hset)
  | add handler =>
    refine hfill.trans (one rfl (fun _ => ⟨rfl, rfl⟩) fun hnone => absurd hnone ?_)
    simp [Command.runOnPlain, PlainList.change]
  | remove handler =>
    -- whether the handler was there does not show, and the list is set either way
    refine hfill.trans ?_
    simp only [Command.runOnPlain]
    split
    · exact one rfl (fun _ => ⟨rfl, rfl⟩) fun hnone => absurd hnone (by simp [PlainList.change])
    · exact one rfl (fun h => ⟨h, rfl⟩) fun hnone => absurd hnone hset
  | set items => exact replace plain items
  | clear => exact replace plain []
  | compareAndSet expected items =>
    simp only [Command.runOnPlain]
    split
    · exact one rfl (fun _ => ⟨rfl, rfl⟩) fun hnone => absurd hnone (by simp [PlainList.change])
    · exact one rfl (fun h => ⟨h, rfl⟩) fun _ => rfl
  | isInitialized =>
    refine one rfl (fun h => ⟨h, ?_⟩) fun hnone => ?_
    · simp [Observation.isOfUnset, h]
    · simp only [Command.runOnPlain] at hnone
      simp [Observation.isOfSet, hnone]

/-- What is seen of a run, command by command. -/
theorem runAll (commands : List (Command α)) (plain : Plain α) :
    Continues plain (runAllOnPlain replies commands plain) := by
  induction commands generalizing plain with
  | nil => exact refl plain
  | cons command rest ih => exact (run replies plain command).trans (ih _)

end Continues

/-! ### All runs -/

/-- Among things that may follow each other so, the source is asked once at most. -/
theorem count_asked_le_one [DecidableEq α] {log : List (Observation α)}
    (hlog : log.Pairwise Observation.MayFollow) : log.count .asked ≤ 1 := by
  induction hlog with
  | nil => simp
  | @cons first rest hfirst _ ih =>
    by_cases hasked : first = .asked
    · subst hasked
      have hnone : .asked ∉ rest := by
        intro hmem
        exact absurd (hfirst _ hmem rfl) (by simp [Observation.isOfUnset])
      simp [List.count_eq_zero.2 hnone]
    · simpa [List.count_cons, hasked] using ih

/-- Whatever is done to a handler list that starts unset or with given items, and whatever its
    source does when it is asked, what is seen is what the same commands show of a plain list.  The
    source is asked once at most; it is not asked, and the list is not seen unset, once the list was
    set, nor ever if it started with given items. -/
theorem log_runAll_eq [DecidableEq α] (replies : Nat → Reply α) (initial : Option (List α))
    (commands : List (Command α)) :
    let used := runAll replies commands (start initial)
    let plain := runAllOnPlain replies commands (⟨initial, 0⟩, {})
    used.2.log = plain.2.log ∧ used.1.current.map (·.items) = plain.1.items? ∧
      used.2.log.count .asked ≤ 1 ∧ used.2.log.Pairwise Observation.MayFollow ∧
      (initial.isSome = true → ∀ observation ∈ used.2.log, observation.isOfUnset = false) := by
  have hmatches := (matches_start initial).runAll replies commands
  obtain ⟨seen, hseen, horder, hset, -⟩ := Continues.runAll replies commands (⟨initial, 0⟩, {})
  rw [List.nil_append] at hseen
  dsimp only
  rw [hmatches.log, hseen]
  refine ⟨rfl, hmatches.items, count_asked_le_one horder, horder, ?_⟩
  intro hinitial
  exact (hset hinitial).2

/-- A list that starts with given items loses the first of two equal ones, and asks nobody. -/
theorem log_of_given_items :
    let used := runAll (fun _ => { answer := [] }) [.remove 1, .get] (start (some [1, 2, 1]))
    used.2.log = [.edited, .shown [2, 1]] ∧
      ∀ observation ∈ used.2.log, observation.isOfUnset = false := by
  obtain ⟨-, -, -, -, hset⟩ :=
    log_runAll_eq (fun _ => { answer := [] }) (some [1, 2, 1]) [.remove 1, .get]
  exact ⟨by decide, hset rfl⟩

end LoggerHierarchy.HandlerList
