import LoggerHierarchy.Dialogue

namespace LoggerHierarchy

/-!
# Handler lists

A handler list is published as a snapshot that never changes; every change installs a new one.  It
may start unset, and is then filled on first use with what its source answers:

* `Snapshot` — the handlers of one moment, with the serial number that tells snapshots of equal
  contents apart;
* `HandlerList` — the current snapshot, if any, and the number of snapshots issued so far;
* `HandlerList.install`, `set`, `clear`, `compareAndSet` — changes that ask nobody;
* `HandlerList.fetch`, `add`, `remove` — uses of the list, which ask the source if it is unset.
-/

/-- The handlers of one moment. -/
structure Snapshot (α : Type) where
  serial : Nat
  items : List α
  deriving DecidableEq, Repr

/-- A list of handlers that starts unset or with given ones. -/
structure HandlerList (α : Type) where
  current : Option (Snapshot α) := none
  issued : Nat := 0
  deriving DecidableEq, Repr

namespace HandlerList

variable {α : Type}

/-- The only question of a handler list: which handlers it starts with. -/
abbrev source (α : Type) : Protocol where
  Question := Unit
  Answer _ := List α

/-- A list that its source fills on first use. -/
def unset : HandlerList α := {}

/-- Makes a new snapshot with the items the current one. -/
def install (list : HandlerList α) (items : List α) : HandlerList α :=
  { current := some ⟨list.issued, items⟩, issued := list.issued + 1 }

/-- A list with given items. -/
def ofList (items : List α) : HandlerList α :=
  unset.install items

/-- Whether the list has been fetched or set. -/
def isInitialized (list : HandlerList α) : Bool :=
  list.current.isSome

/-- The items of the current snapshot, none while the list is unset. -/
def items (list : HandlerList α) : List α :=
  (list.current.map (·.items)).getD []

/-- Whether the snapshot is the very one that is current. -/
def isCurrent (list : HandlerList α) (snapshot : Snapshot α) : Bool :=
  list.current.any (·.serial == snapshot.serial)

/-- Replaces the list and returns the snapshot before; in place of an unset list stands a new empty
    snapshot, which never is the current one. -/
def set (list : HandlerList α) (items : List α) : Snapshot α × HandlerList α :=
  match list.current with
  | some previous => (previous, list.install items)
  | none => (⟨list.issued, []⟩, { list with issued := list.issued + 1 }.install items)

/-- Empties the list and returns the snapshot before. -/
def clear (list : HandlerList α) : Snapshot α × HandlerList α :=
  list.set []

/-- Replaces the list only while `expected` is the current snapshot. -/
def compareAndSet (list : HandlerList α) (expected : Snapshot α) (items : List α) :
    Bool × HandlerList α :=
  if list.isCurrent expected then (true, list.install items) else (false, list)

/-! ### Uses that may ask the source -/

/-- The event of a fetch that brought `count` handlers. -/
def fetched (count : Nat) : Event :=
  ⟨.trace, "Fetched initial handlers", [("count", .number count)]⟩

/-- The current snapshot; an unset list asks its source.  Handlers that were installed before the
    source answered stay, and the fetched ones are dropped. -/
def fetch : Program (source α) (HandlerList α) (Snapshot α) := fun list =>
  match list.current with
  | some snapshot => .done list snapshot
  | none =>
    .ask list () fun list items =>
      .announce (fetched items.length) <|
        match list.current with
        -- the source, or somebody it called, has installed handlers meanwhile
        | some winner => .done list winner
        | none => .done (list.install items) ⟨list.issued, items⟩

/-- Adds a handler at the end. -/
def add (handler : α) : Program (source α) (HandlerList α) Unit := do
  let snapshot ← fetch
  modify (·.install (snapshot.items ++ [handler]))

/-- Removes the first occurrence of a handler; one that is absent leaves the snapshot as it is. -/
def remove [DecidableEq α] (handler : α) : Program (source α) (HandlerList α) Unit := do
  let snapshot ← fetch
  if handler ∈ snapshot.items then
    modify (·.install (snapshot.items.erase handler))

/-! ### What each operation leaves -/

@[simp] theorem items_install (list : HandlerList α) (items : List α) :
    (list.install items).items = items := rfl

@[simp] theorem isInitialized_install (list : HandlerList α) (items : List α) :
    (list.install items).isInitialized = true := rfl

@[simp] theorem items_ofList (items : List α) : (ofList items).items = items := rfl

/-- The snapshot that `set` returns holds the items before. -/
@[simp] theorem items_fst_set (list : HandlerList α) (items : List α) :
    (list.set items).1.items = list.items := by
  cases h : list.current <;> simp [set, HandlerList.items, h]

@[simp] theorem items_snd_set (list : HandlerList α) (items : List α) :
    (list.set items).2.items = items := by
  cases h : list.current <;> simp [set, h]

end HandlerList

end LoggerHierarchy
