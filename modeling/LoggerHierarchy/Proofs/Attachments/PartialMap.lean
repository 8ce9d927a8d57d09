import LoggerHierarchy.Proofs.Attachments
import Mathlib.Data.Finmap

namespace LoggerHierarchy.Attachments

/-!
# Slots as a partial map

Whatever is attached and detached, and in whatever order, a row of slots answers like a finite
partial map that holds at most as many values as there are slots:

* `Command`, `Outcome` — what may be asked of attachments, and what comes back.  A key is known by
  its identity, and `kind` tells the type of the values of each;
* `Command.run`, `Command.runOnMap` — a command on slots, and on a partial map;
* `Represents` — the slots hold the values of a map, each under its key and in one slot only;
* `Represents.run` — a command has the same outcome on both sides, and they go on agreeing;
* `outcomes_eq_outcomes_on_map` — so do all sequences of commands, from free slots on.
-/

variable {ι : Type} {El : ι → Type} {kind : Nat → ι}

/-! ### Commands -/

/-- The values under some keys, each of the type of its key. -/
abbrev PartialMap (El : ι → Type) (kind : Nat → ι) : Type :=
  Finmap fun id => El (kind id)

namespace PartialMap

variable (m : PartialMap El kind) {id : Nat} (value? : Option (El (kind id)))

/-- The map with another value under a key, or with none. -/
def assign (m : PartialMap El kind) (id : Nat) : Option (El (kind id)) → PartialMap El kind
  | some value => m.insert id value
  | none => m.erase id

/-- A key that was assigned has the assigned value, or none. -/
theorem lookup_assign : (m.assign id value?).lookup id = value? := by
  cases value? with
  | none => exact Finmap.lookup_erase id m
  | some value => exact Finmap.lookup_insert m

/-- Other keys keep what they had. -/
theorem lookup_assign_of_ne {id' : Nat} (hid : id' ≠ id) :
    (m.assign id value?).lookup id' = m.lookup id' := by
  cases value? with
  | none => exact Finmap.lookup_erase_ne hid
  | some value => exact Finmap.lookup_insert_of_ne m hid

/-- The number of keys after an assignment: the old value no longer counts, and the new one
    does. -/
theorem card_keys_assign : (m.assign id value?).keys.card =
    (m.keys.card - if id ∈ m then 1 else 0) + if value?.isSome = true then 1 else 0 := by
  cases value? with
  | none =>
    show (m.erase id).keys.card = _
    rw [Finmap.keys_erase, Finset.card_erase_eq_ite]
    simp only [Finmap.mem_keys]
    split <;> simp
  | some value =>
    have hkeys : (m.insert id value).keys = insert id m.keys := by
      ext id'
      simp [Finmap.mem_keys, Finmap.mem_insert]
    show (m.insert id value).keys.card = _
    rw [hkeys, Finset.card_insert_eq_ite]
    simp only [Finmap.mem_keys]
    split
    · have hpos : 0 < m.keys.card := Finset.card_pos.2 ⟨id, Finmap.mem_keys.2 ‹_›⟩
      simp
      omega
    · simp

end PartialMap

/-- What may be asked of attachments. -/
inductive Command (El : ι → Type) (kind : Nat → ι) where
  | attach (id : Nat) (value : El (kind id))
  | attachIfAbsent (id : Nat) (value : El (kind id))
  | detach (id : Nat)
  | get (id : Nat)
  | size

/-- What comes back. -/
inductive Outcome (El : ι → Type) (kind : Nat → ι) where
  /-- The value that the key has, or had. -/
  | value (id : Nat) (value? : Option (El (kind id)))
  | refused (error : Error)
  | size (n : Nat)

namespace Command

/-- The outcome of a way to attach; a refusal changes nothing. -/
def settle (a : Attachments El) (id : Nat) :
    Except Error (Option (El (kind id)) × Attachments El) → Outcome El kind × Attachments El
  | .ok (previous, b) => (.value id previous, b)
  | .error e => (.refused e, a)

/-- A command on slots. -/
def run [DecidableEq ι] : Command El kind → Attachments El → Outcome El kind × Attachments El
  | attach id value, a => settle a id (a.attach ⟨id, kind id⟩ value)
  | attachIfAbsent id value, a => settle a id (a.attachIfAbsent ⟨id, kind id⟩ value)
  | detach id, a => (.value id (a.detach ⟨id, kind id⟩).1, (a.detach ⟨id, kind id⟩).2)
  | get id, a => (.value id (a.get? ⟨id, kind id⟩), a)
  | size, a => (.size a.size, a)

/-- A command on a partial map for at most `capacity` values. -/
def runOnMap (capacity : Nat) :
    Command El kind → PartialMap El kind → Outcome El kind × PartialMap El kind
  | attach id value, m =>
    if id ∉ m ∧ m.keys.card = capacity then (.refused (.capacityExceeded capacity), m)
    else (.value id (m.lookup id), m.insert id value)
  | attachIfAbsent id value, m =>
    if id ∉ m ∧ m.keys.card = capacity then (.refused (.capacityExceeded capacity), m)
    else if id ∈ m then (.value id (m.lookup id), m)
    else (.value id none, m.insert id value)
  | detach id, m => (.value id (m.lookup id), m.erase id)
  | get id, m => (.value id (m.lookup id), m)
  | size, m => (.size m.keys.card, m)

/-- Some commands, one after the other, with their outcomes and what they leave. -/
def runAll {σ : Type} (step : Command El kind → σ → Outcome El kind × σ) :
    List (Command El kind) → σ → List (Outcome El kind) × σ
  | [], s => ([], s)
  | command :: rest, s =>
    let (outcome, s) := step command s
    let (outcomes, s) := runAll step rest s
    (outcome :: outcomes, s)

end Command

/-! ### What the slots hold -/

/-- The entry of a value under a key. -/
abbrev Entry.under (id : Nat) (value : El (kind id)) : Entry El :=
  ⟨id, kind id, value⟩

/-- What a slot holds. -/
def occupant? (a : Attachments El) (slot : Nat) : Option (Entry El) :=
  a.slots[slot]?.join

/-- The slots hold the values of a map, each under its key and in one slot only. -/
structure Represents (a : Attachments El) (m : PartialMap El kind) : Prop where
  unique {slot slot' : Nat} {entry entry' : Entry El} : a.occupant? slot = some entry →
    a.occupant? slot' = some entry' → entry.id = entry'.id → slot = slot'
  typed {slot : Nat} {entry : Entry El} : a.occupant? slot = some entry → entry.kind = kind entry.id
  lookup (id : Nat) (value : El (kind id)) :
    m.lookup id = some value ↔ ∃ slot, a.occupant? slot = some (.under id value)
  size : a.size = m.keys.card

/-- The results of a command on both sides: the same outcome, and slots that hold the map. -/
def Agree (capacity : Nat) (onSlots : Outcome El kind × Attachments El)
    (onMap : Outcome El kind × PartialMap El kind) : Prop :=
  onSlots.1 = onMap.1 ∧ onSlots.2.Represents onMap.2 ∧ onSlots.2.capacity = capacity

variable {a : Attachments El} {m : PartialMap El kind} {id slot : Nat} {entry : Entry El}

/-- The occupant of a slot is the entry that stands in it. -/
theorem occupant?_eq_some : a.occupant? slot = some entry ↔ a.slots[slot]? = some (some entry) :=
  Option.join_eq_some_iff

/-- Only slots that exist are occupied. -/
theorem lt_of_occupant? (h : a.occupant? slot = some entry) : slot < a.slots.length :=
  (List.getElem?_eq_some_iff.1 (occupant?_eq_some.1 h)).1

/-- A slot that exists has as its occupant what stands in it. -/
theorem occupant?_of_lt (hslot : slot < a.slots.length) : a.occupant? slot = a.slots[slot] := by
  simp [occupant?, List.getElem?_eq_getElem hslot]

/-- A slot holds a key when its entry is one for that key. -/
theorem holds_iff {content : Option (Entry El)} :
    holds id content = true ↔ ∃ entry, content = some entry ∧ entry.id = id := by
  cases content with
  | none => simp [holds]
  | some entry => simp [holds]

/-- One slot may be filled or freed without an effect on the others. -/
theorem occupant?_set (hslot : slot < a.slots.length) (content : Option (Entry El)) (n : Nat) :
    occupant? ⟨a.slots.set slot content⟩ n = if slot = n then content else a.occupant? n := by
  unfold occupant?
  rw [List.getElem?_set]
  split
  · rfl
  · rfl

/-- The size after a slot has got new contents. -/
theorem size_set (hslot : slot < a.slots.length) (content : Option (Entry El)) :
    size ⟨a.slots.set slot content⟩ =
      (a.size - if (a.occupant? slot).isSome = true then 1 else 0) +
        if content.isSome = true then 1 else 0 := by
  rw [occupant?_of_lt hslot]
  exact List.countP_set hslot

/-- Slots that are all empty stand for the map that maps nothing. -/
theorem represents_empty (capacity : Nat) : (empty capacity : Attachments El).Represents
    (∅ : PartialMap El kind) := by
  have hfree : ∀ slot, (empty capacity : Attachments El).occupant? slot = none := by
    intro slot
    unfold occupant? empty
    rw [List.getElem?_replicate]
    split <;> rfl
  constructor
  case unique => simp [hfree]
  case typed => simp [hfree]
  case lookup => simp [hfree]
  case size => simp [empty, size, List.countP_replicate]

namespace Represents

variable (h : a.Represents m)

include h

/-- An entry holds the value that the map has for its key. -/
theorem lookup_of_occupant? (hentry : a.occupant? slot = some entry) (hid : entry.id = id) :
    ∃ value, m.lookup id = some value ∧ a.occupant? slot = some (.under id value) := by
  subst hid
  obtain ⟨id, k, value⟩ := entry
  have hkind : k = kind id := h.typed hentry
  subst hkind
  exact ⟨value, (h.lookup id value).2 ⟨slot, hentry⟩, hentry⟩

/-- The slot that is found for a key of the map is the one with its value. -/
theorem findIdx?_holds {value : El (kind id)} (hvalue : m.lookup id = some value) :
    ∃ slot, a.slots.findIdx? (holds id) = some slot ∧
      a.occupant? slot = some (.under id value) := by
  obtain ⟨slot, hentry⟩ := (h.lookup id value).1 hvalue
  refine ⟨slot, ?_, hentry⟩
  obtain ⟨hslot, hcontent⟩ := List.getElem?_eq_some_iff.1 (occupant?_eq_some.1 hentry)
  rw [List.findIdx?_eq_some_iff_getElem]
  refine ⟨hslot, by simp [hcontent, holds], ?_⟩
  intro slot' hlt hholds
  -- no other slot holds a value of the key
  obtain ⟨entry', hcontent', hid⟩ := holds_iff.1 hholds
  have hentry' : a.occupant? slot' = some entry' := by
    rw [occupant?_of_lt (hlt.trans hslot), hcontent']
  exact absurd (h.unique hentry' hentry hid) (Nat.ne_of_lt hlt)

/-- A key that is not mapped is found in no slot. -/
theorem findIdx?_holds_of_notMem (hid : id ∉ m) : a.slots.findIdx? (holds id) = none := by
  rw [List.findIdx?_eq_none_iff]
  intro content hcontent
  rw [Bool.eq_false_iff]
  intro hholds
  obtain ⟨entry, rfl, hentry⟩ := holds_iff.1 hholds
  obtain ⟨slot, hslot⟩ := List.mem_iff_getElem?.1 hcontent
  obtain ⟨value, hvalue, -⟩ := h.lookup_of_occupant? (occupant?_eq_some.2 hslot) hentry
  exact hid (Finmap.mem_of_lookup_eq_some hvalue)

/-- What is read under a key is what the map has for it. -/
theorem get?_eq [DecidableEq ι] (id : Nat) : a.get? ⟨id, kind id⟩ = m.lookup id := by
  unfold get?
  rw [List.find?_eq_bind_findIdx?_getElem?]
  cases hvalue : m.lookup id with
  | none =>
    rw [h.findIdx?_holds_of_notMem (Finmap.lookup_eq_none.1 hvalue)]
    rfl
  | some value =>
    obtain ⟨slot, hslot, hentry⟩ := h.findIdx?_holds hvalue
    rw [hslot, Option.bind_some, occupant?_eq_some.1 hentry]
    simp [Entry.as?]

/-! ### Changes of one slot -/

/-- One slot may be given another content, if it is the key's, or if it is free and no slot is. -/
theorem set (hslot : slot < a.slots.length)
    (hown : ∀ entry, a.occupant? slot = some entry → entry.id = id)
    (hfree : a.occupant? slot = none → id ∉ m) (value? : Option (El (kind id))) :
    Represents ⟨a.slots.set slot (value?.map (Entry.under id))⟩ (m.assign id value?) := by
  -- the other slots hold values of other keys
  have hother : ∀ {n entry}, a.occupant? n = some entry → slot ≠ n → entry.id ≠ id := by
    intro n entry hentry hn hid
    cases hcontent : a.occupant? slot with
    | none =>
      obtain ⟨value, hvalue, -⟩ := h.lookup_of_occupant? hentry hid
      exact hfree hcontent (Finmap.mem_of_lookup_eq_some hvalue)
    | some own => exact hn (h.unique hcontent hentry ((hown own hcontent).trans hid.symm))
  -- and the slot itself one of the key, if any
  have hself : ∀ {entry}, value?.map (Entry.under id) = some entry →
      ∃ value, value? = some value ∧ entry = .under id value := by
    intro entry hentry
    obtain ⟨value, hvalue, rfl⟩ := Option.map_eq_some_iff.1 hentry
    exact ⟨value, hvalue, rfl⟩
  have hset := occupant?_set hslot (value?.map (Entry.under id))
  constructor
  case unique =>
    intro n n' entry entry' hentry hentry' hid
    rw [hset] at hentry hentry'
    split at hentry <;> split at hentry'
    · rename_i hn hn'
      exact hn.symm.trans hn'
    · rename_i hn hn'
      obtain ⟨value, -, rfl⟩ := hself hentry
      exact absurd hid.symm (hother hentry' hn')
    · rename_i hn hn'
      obtain ⟨value, -, rfl⟩ := hself hentry'
      exact absurd hid (hother hentry hn)
    · exact h.unique hentry hentry' hid
  case typed =>
    intro n entry hentry
    rw [hset] at hentry
    split at hentry
    · obtain ⟨value, -, rfl⟩ := hself hentry
      rfl
    · exact h.typed hentry
  case lookup =>
    intro id' value'
    by_cases hid : id' = id
    · subst hid
      rw [m.lookup_assign]
      constructor
      · rintro rfl
        exact ⟨slot, by rw [hset, if_pos rfl, Option.map_some]⟩
      · rintro ⟨n, hn⟩
        rw [hset] at hn
        split at hn
        · obtain ⟨value, rfl, heq⟩ := hself hn
          obtain rfl : value' = value := by simpa using heq
          rfl
        · exact absurd rfl (hother hn ‹_›)
    · rw [m.lookup_assign_of_ne _ hid, h.lookup id' value']
      constructor
      · rintro ⟨n, hn⟩
        refine ⟨n, ?_⟩
        have hne : slot ≠ n := by
          rintro rfl
          exact hid (hown _ hn)
        rw [hset, if_neg hne, hn]
      · rintro ⟨n, hn⟩
        rw [hset] at hn
        split at hn
        · obtain ⟨value, -, heq⟩ := hself hn
          exact absurd (congrArg Entry.id heq) hid
        · exact ⟨n, hn⟩
  case size =>
    have hmem : (a.occupant? slot).isSome = true ↔ id ∈ m := by
      constructor
      · intro hsome
        obtain ⟨entry, hentry⟩ := Option.isSome_iff_exists.1 hsome
        obtain ⟨value, hvalue, -⟩ := h.lookup_of_occupant? hentry (hown entry hentry)
        exact Finmap.mem_of_lookup_eq_some hvalue
      · intro hid
        by_contra hnone
        exact hfree (by simpa using hnone) hid
    rw [size_set hslot, m.card_keys_assign, h.size, Option.isSome_map]
    simp only [hmem]

/-! ### The slot of a key -/

/-- A new value goes to the slot of its key, or to a free one if no slot is the key's. -/
theorem of_slotFor? (hslot : a.slotFor? id = some slot) :
    slot < a.slots.length ∧ (∀ entry, a.occupant? slot = some entry → entry.id = id) ∧
      (a.occupant? slot = none → id ∉ m) := by
  unfold slotFor? at hslot
  cases hvalue : m.lookup id with
  | some value =>
    obtain ⟨own, hown, hentry⟩ := h.findIdx?_holds hvalue
    rw [hown, Option.some_or, Option.some.injEq] at hslot
    subst hslot
    simp [hentry, lt_of_occupant? hentry]
  | none =>
    have hid : id ∉ m := Finmap.lookup_eq_none.1 hvalue
    rw [h.findIdx?_holds_of_notMem hid, Option.none_or, List.findIdx?_eq_some_iff_getElem] at hslot
    obtain ⟨hlt, hfree, -⟩ := hslot
    have hnone : a.occupant? slot = none := by
      rw [occupant?_of_lt hlt, Option.isNone_iff_eq_none.1 hfree]
    exact ⟨hlt, by simp [hnone], fun _ => hid⟩

/-- There is no slot for a key iff all hold values of other keys. -/
theorem slotFor?_eq_none_iff :
    a.slotFor? id = none ↔ id ∉ m ∧ m.keys.card = a.capacity := by
  have hfull : a.slots.findIdx? Option.isNone = none ↔ m.keys.card = a.capacity := by
    rw [← h.size, Attachments.size, capacity, List.countP_eq_length, List.findIdx?_eq_none_iff]
    simp only [Option.isNone_eq_false_iff]
  rw [slotFor?, Option.or_eq_none_iff, hfull, and_congr_left_iff]
  intro _
  constructor
  · intro hnone hid
    obtain ⟨value, hvalue⟩ := Finmap.mem_iff.1 hid
    obtain ⟨slot, hslot, -⟩ := h.findIdx?_holds hvalue
    rw [hslot] at hnone
    exact absurd hnone (by simp)
  · exact h.findIdx?_holds_of_notMem

/-- Some slot holds a key just when the map has it. -/
theorem any_holds_iff : a.slots.any (holds id) = true ↔ id ∈ m := by
  rw [← List.findIdx?_isSome]
  constructor
  · intro hsome
    by_contra hid
    rw [h.findIdx?_holds_of_notMem hid] at hsome
    exact absurd hsome (by simp)
  · intro hid
    obtain ⟨value, hvalue⟩ := Finmap.mem_iff.1 hid
    obtain ⟨slot, hslot, -⟩ := h.findIdx?_holds hvalue
    rw [hslot, Option.isSome_some]

/-- There are never more values than slots. -/
theorem card_le_capacity : m.keys.card ≤ a.capacity := by
  rw [← h.size]
  exact List.countP_le_length

/-! ### Commands -/

variable [DecidableEq ι]

/-- Attaching does to the slots what it does to the map, a full table included. -/
theorem attach (id : Nat) (value : El (kind id)) :
    Agree a.capacity ((Command.attach id value).run a)
      ((Command.attach id value).runOnMap a.capacity m) := by
  simp only [Command.run, Command.runOnMap, Attachments.attach, ← h.slotFor?_eq_none_iff]
  cases hslot : a.slotFor? id with
  | none => exact ⟨rfl, h, rfl⟩
  | some slot =>
    obtain ⟨hlt, hown, hfree⟩ := h.of_slotFor? hslot
    rw [if_neg (by simp)]
    simp only [Command.settle, h.get?_eq]
    exact ⟨rfl, h.set hlt hown hfree (some value), capacity_put a slot ⟨id, kind id⟩ value⟩

/-- Attaching where nothing is attached yet does to the slots what it does to the map. -/
theorem attachIfAbsent (id : Nat) (value : El (kind id)) :
    Agree a.capacity ((Command.attachIfAbsent id value).run a)
      ((Command.attachIfAbsent id value).runOnMap a.capacity m) := by
  simp only [Command.run, Command.runOnMap, Attachments.attachIfAbsent, h.any_holds_iff,
    ← h.slotFor?_eq_none_iff]
  cases hslot : a.slotFor? id with
  | none => exact ⟨rfl, h, rfl⟩
  | some slot =>
    obtain ⟨hlt, hown, hfree⟩ := h.of_slotFor? hslot
    rw [if_neg (by simp)]
    by_cases hid : id ∈ m
    · simp only [if_pos hid, Command.settle, h.get?_eq]
      exact ⟨rfl, h, rfl⟩
    · simp only [if_neg hid, Command.settle]
      exact ⟨rfl, h.set hlt hown hfree (some value), capacity_put a slot ⟨id, kind id⟩ value⟩

/-- Detaching does to the slots what it does to the map. -/
theorem detach (id : Nat) :
    Agree a.capacity ((Command.detach id : Command El kind).run a)
      ((Command.detach id).runOnMap a.capacity m) := by
  simp only [Command.run, Command.runOnMap, Attachments.detach]
  cases hvalue : m.lookup id with
  | none =>
    -- there is nothing to take away
    have hid : id ∉ m := Finmap.lookup_eq_none.1 hvalue
    have herase : m.erase id = m := by
      refine Finmap.ext_lookup fun id' => ?_
      by_cases hne : id' = id
      · rw [hne, Finmap.lookup_erase, hvalue]
      · rw [Finmap.lookup_erase_ne hne]
    rw [h.findIdx?_holds_of_notMem hid, herase]
    exact ⟨rfl, h, rfl⟩
  | some value =>
    obtain ⟨slot, hslot, hentry⟩ := h.findIdx?_holds hvalue
    rw [hslot]
    refine ⟨by rw [h.get?_eq, hvalue], ?_, by simp [capacity]⟩
    refine h.set (lt_of_occupant? hentry) ?_ (by simp [hentry]) none
    intro entry hown
    obtain rfl := Option.some.inj (hentry.symm.trans hown)
    rfl

/-- Every command has the outcome that it has on the map, and slots and map go on agreeing. -/
theorem run (command : Command El kind) :
    Agree a.capacity (command.run a) (command.runOnMap a.capacity m) := by
  cases command with
  | attach id value => exact h.attach id value
  | attachIfAbsent id value => exact h.attachIfAbsent id value
  | detach id => exact h.detach id
  | get id => exact ⟨by simp only [Command.run, Command.runOnMap, h.get?_eq], h, rfl⟩
  | size => exact ⟨by simp only [Command.run, Command.runOnMap, h.size], h, rfl⟩

/-- So it is for all of some commands. -/
theorem runAll (commands : List (Command El kind)) :
    (Command.runAll Command.run commands a).1 =
        (Command.runAll (Command.runOnMap a.capacity) commands m).1 ∧
      (Command.runAll Command.run commands a).2.Represents
        (Command.runAll (Command.runOnMap a.capacity) commands m).2 ∧
      (Command.runAll Command.run commands a).2.capacity = a.capacity := by
  induction commands generalizing a m with
  | nil => exact ⟨rfl, h, rfl⟩
  | cons command rest ih =>
    obtain ⟨houtcome, hnext, hcapacity⟩ := h.run command
    obtain ⟨houtcomes, hend, hcapacity'⟩ := ih hnext
    rw [hcapacity] at houtcomes hend hcapacity'
    exact ⟨by simp only [Command.runAll, houtcome, houtcomes], hend, hcapacity'⟩

end Represents

/-! ### All runs -/

variable [DecidableEq ι]

/-- From free slots on, all commands have the outcomes that they have on a partial map for as many
    values as there are slots.  At the end every key reads what the map has for it, the number of
    values is that of the map's keys and no more than the slots, and no two slots hold values of one
    key.  What comes after depends on the map alone: other commands that lead to the same map may
    leave the values in other slots, and all that follows has the same outcomes. -/
theorem outcomes_eq_outcomes_on_map (kind : Nat → ι) (capacity : Nat)
    (commands : List (Command El kind)) :
    let slots := Command.runAll Command.run commands (empty capacity)
    let map := Command.runAll (Command.runOnMap capacity) commands ∅
    slots.1 = map.1 ∧
      (∀ id, slots.2.get? ⟨id, kind id⟩ = map.2.lookup id) ∧
      slots.2.size = map.2.keys.card ∧ map.2.keys.card ≤ capacity ∧
      (∀ n n' entry entry', slots.2.occupant? n = some entry → slots.2.occupant? n' = some entry' →
        entry.id = entry'.id → n = n') ∧
      ∀ others more : List (Command El kind),
        (Command.runAll (Command.runOnMap capacity) others ∅).2 = map.2 →
        (Command.runAll Command.run more slots.2).1 =
          (Command.runAll Command.run more
            (Command.runAll Command.run others (empty capacity)).2).1 := by
  have hall := (represents_empty capacity : (empty capacity).Represents
    (∅ : PartialMap El kind)).runAll
  rw [capacity_empty] at hall
  obtain ⟨houtcomes, hend, hcapacity⟩ := hall commands
  have hle := hend.card_le_capacity
  rw [hcapacity] at hle
  refine ⟨houtcomes, hend.get?_eq, hend.size, hle, fun _ _ _ _ => hend.unique, ?_⟩
  -- whatever came before, the two stand for the same map
  intro others more hsame
  obtain ⟨-, hothers, hcapacity'⟩ := hall others
  rw [hsame] at hothers
  rw [(hend.runAll more).1, (hothers.runAll more).1, hcapacity, hcapacity']

/-- Two values that were attached in either order, and so stand in different slots. -/
theorem outcomes_of_either_order :
    let text (id : Nat) (value : String) : Command (fun _ : Unit => String) fun _ => () :=
      .attach id value
    let slots := (Command.runAll Command.run [text 0 "a", text 1 "b"] (empty 2)).2
    let slots' := (Command.runAll Command.run [text 1 "b", text 0 "a"] (empty 2)).2
    (slots.occupant? 0).map (·.id) = some 0 ∧ (slots'.occupant? 0).map (·.id) = some 1 ∧
      ∀ more : List (Command (fun _ : Unit => String) fun _ => ()),
        (Command.runAll Command.run more slots).1 =
          (Command.runAll Command.run more slots').1 := by
  intro text slots slots'
  obtain ⟨-, -, -, -, -, hsame⟩ :=
    outcomes_eq_outcomes_on_map (fun _ => ()) 2 [text 0 "a", text 1 "b"]
  exact ⟨rfl, rfl, fun more => hsame [text 1 "b", text 0 "a"] more (by decide +kernel)⟩

end LoggerHierarchy.Attachments
