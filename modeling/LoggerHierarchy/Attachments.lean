import LoggerHierarchy.Error

namespace LoggerHierarchy

/-!
# Attachments

A fixed number of slots that hold values of different types under keys:

* `Attachments.Key` — the identity of a key and the type of its values; two keys are the same key
  iff their identities are;
* `Attachments.Entry` — a value with the key it was attached under;
* `Attachments` — the slots; those of detached values are free again;
* `attach`, `attachIfAbsent`, `detach`, `get?` — the operations; only a new key can be refused, when
  no slot is free.
-/

variable {ι : Type} {El : ι → Type}

/-- A key for values of the type that `kind` stands for. -/
structure Attachments.Key (ι : Type) where
  id : Nat
  kind : ι
  deriving DecidableEq, Repr

/-- An attached value. -/
structure Attachments.Entry (El : ι → Type) where
  id : Nat
  kind : ι
  value : El kind

/-- A row of slots, each free or holding one value. -/
structure Attachments (El : ι → Type) where
  slots : List (Option (Attachments.Entry El))

namespace Attachments

/-- A row of free slots. -/
def empty (capacity : Nat) : Attachments El :=
  ⟨List.replicate capacity none⟩

/-- The number of slots, free or not. -/
def capacity (a : Attachments El) : Nat :=
  a.slots.length

/-- The number of attached values. -/
def size (a : Attachments El) : Nat :=
  a.slots.countP Option.isSome

/-- Whether nothing is attached. -/
def isEmpty (a : Attachments El) : Bool :=
  a.size == 0

/-- Whether a slot holds the value of the key with this identity. -/
def holds (id : Nat) (slot : Option (Entry El)) : Bool :=
  slot.any (·.id == id)

/-- The slot of a key: the one that holds its value, else the first free one. -/
def slotFor? (a : Attachments El) (id : Nat) : Option Nat :=
  (a.slots.findIdx? (holds id)).or (a.slots.findIdx? Option.isNone)

/-- The value of an entry, if it has the type that the key asks for. -/
def Entry.as? [DecidableEq ι] (entry : Entry El) (kind : ι) : Option (El kind) :=
  if h : entry.kind = kind then some (h ▸ entry.value) else none

/-- The value attached under a key. -/
def get? [DecidableEq ι] (a : Attachments El) (key : Key ι) : Option (El key.kind) :=
  (a.slots.find? (holds key.id)).bind fun slot => slot.bind (·.as? key.kind)

/-- Puts a value into a slot. -/
def put (a : Attachments El) (slot : Nat) (key : Key ι) (value : El key.kind) : Attachments El :=
  ⟨a.slots.set slot (some ⟨key.id, key.kind, value⟩)⟩

/-- Attaches a value, in place of the key's value if it has one, which is returned. -/
def attach [DecidableEq ι] (a : Attachments El) (key : Key ι) (value : El key.kind) :
    Except Error (Option (El key.kind) × Attachments El) :=
  match a.slotFor? key.id with
  | some slot => .ok (a.get? key, a.put slot key value)
  | none => .error (.capacityExceeded a.capacity)

/-- Attaches a value unless the key has one, which is returned and stays. -/
def attachIfAbsent [DecidableEq ι] (a : Attachments El) (key : Key ι) (value : El key.kind) :
    Except Error (Option (El key.kind) × Attachments El) :=
  match a.slotFor? key.id with
  | some slot =>
    if a.slots.any (holds key.id) then .ok (a.get? key, a) else .ok (none, a.put slot key value)
  | none => .error (.capacityExceeded a.capacity)

/-- Takes the value of a key away and returns it. -/
def detach [DecidableEq ι] (a : Attachments El) (key : Key ι) :
    Option (El key.kind) × Attachments El :=
  match a.slots.findIdx? (holds key.id) with
  | some slot => (a.get? key, ⟨a.slots.set slot none⟩)
  | none => (none, a)

@[simp] theorem capacity_empty (n : Nat) : (empty n : Attachments El).capacity = n := by
  simp [empty, capacity]

@[simp] theorem capacity_put (a : Attachments El) (slot : Nat) (key : Key ι)
    (value : El key.kind) : (a.put slot key value).capacity = a.capacity := by
  simp [put, capacity]

end Attachments

end LoggerHierarchy
