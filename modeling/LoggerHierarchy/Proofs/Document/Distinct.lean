import LoggerHierarchy.Document.Toml
import Mathlib.Data.List.Nodup
import Mathlib.Data.Option.Basic

namespace LoggerHierarchy

/-!
# Keys of a file

A file that can be read has no key twice in any table, however the table came about:

* `Text.Yields` — what a reader makes has a property, with one rule for each way to join readers;
* `Document.Distinct`, `Section.Distinct` — no table has a key twice, nor has one inside it;
* `Keyed` — entries with keys that differ, and values with a property;
* `Section.keyed_assign`, `Section.keyed_beneath` — what is added to a table keeps its keys apart;
* `Toml.keyed_parse` — so does a whole file.
-/

namespace Text

open Reader

variable {α β : Type} {P : α → Prop} {Q : β → Prop}

/-- All that a reader makes has a property. -/
def Yields (P : α → Prop) (r : Reader α) : Prop :=
  ∀ cs a rest, r cs = some (a, rest) → P a

namespace Yields

/-- Of any reader it can be said that it makes something. -/
theorem trivial (r : Reader α) : Yields (fun _ => True) r :=
  fun _ _ _ _ => True.intro

/-- A reader that makes a value without reading. -/
theorem pure {a : α} (h : P a) : Yields P (pure a : Reader α) := by
  rintro cs a rest ⟨⟩
  exact h

/-- A reader that refuses every text makes nothing, so anything may be said of it. -/
theorem refuse : Yields P (refuse : Reader α) := by
  rintro cs a rest ⟨⟩

/-- Nothing follows a reader that refuses. -/
theorem refuse_bind {f : α → Reader β} : Yields Q (Reader.refuse >>= f) := by
  rintro cs b rest ⟨⟩

/-- One reader after another: the second may rely on what the first has made. -/
theorem bind {r : Reader α} {f : α → Reader β} (hr : Yields P r) (hf : ∀ a, P a → Yields Q (f a)) :
    Yields Q (r >>= f) := by
  intro cs b rest h
  obtain ⟨⟨a, rest'⟩, ha, hb⟩ := Option.bind_eq_some_iff.1 h
  exact hf a (hr cs a rest' ha) rest' b rest hb

/-- What was made before does not matter. -/
theorem after {r : Reader α} {f : α → Reader β} (hf : ∀ a, Yields Q (f a)) : Yields Q (r >>= f) :=
  (trivial r).bind fun a _ => hf a

/-- A choice between two readers. -/
theorem ite {c : Prop} [Decidable c] {r r' : Reader α} (h : Yields P r) (h' : Yields P r') :
    Yields P (if c then r else r') := by
  split
  · exact h
  · exact h'

/-- What is made of a whole text has the property too. -/
theorem readAll {r : Reader α} (h : Yields P r) {s : String} {a : α} (ha : readAll r s = some a) :
    P a := by
  unfold Reader.readAll at ha
  split at ha
  · rename_i a' heq
    cases ha
    exact h _ _ _ heq
  · cases ha

end Yields

end Text

open Text

/-- Entries with keys that differ, and with values that have a property. -/
structure Keyed {α : Type} (P : α → Prop) (entries : List (String × α)) : Prop where
  keys : (entries.map (·.1)).Nodup
  values : ∀ entry ∈ entries, P entry.2

namespace Document

/-- No table has a key twice. -/
inductive Distinct : Document → Prop where
  | null : Distinct .null
  | bool (b : Bool) : Distinct (.bool b)
  | integer (i : Int) : Distinct (.integer i)
  | float (x : Decimal.Binary64) : Distinct (.float x)
  | text (s : String) : Distinct (.text s)
  | array {items : List Document} (h : ∀ d ∈ items, Distinct d) : Distinct (.array items)
  | table {entries : List (String × Document)} (hkeys : (entries.map (·.1)).Nodup)
      (hvalues : ∀ entry ∈ entries, Distinct entry.2) : Distinct (.table entries)

/-- The entries of a table without repeated keys. -/
theorem keyed_of_distinct {entries : List (String × Document)} (h : Distinct (.table entries)) :
    Keyed Distinct entries := by
  cases h with
  | table hkeys hvalues => exact ⟨hkeys, hvalues⟩

namespace Toml

/-! ### Tables in the making -/

namespace Section

/-- No table in the making has a key twice, nor has one in a value. -/
inductive Distinct : Section → Prop where
  | value {d : Document} (h : d.Distinct) : Distinct (.value d)
  | table {origin : Origin} {entries : List (String × Section)}
      (hkeys : (entries.map (·.1)).Nodup) (hvalues : ∀ entry ∈ entries, Distinct entry.2) :
      Distinct (.table origin entries)
  | tables {items : List (List (String × Section))}
      (hkeys : ∀ entries ∈ items, (entries.map (·.1)).Nodup)
      (hvalues : ∀ entries ∈ items, ∀ entry ∈ entries, Distinct entry.2) :
      Distinct (.tables items)

variable {entries entries' inner : List (String × Section)}
  {before : List (List (String × Section))} {k : String} {s : Section} {origin : Origin}

/-- A table under construction has no repeated keys just when its entries have none, wherever
    it came from. -/
theorem distinct_table_iff : Distinct (.table origin entries) ↔ Keyed Distinct entries := by
  constructor
  · rintro ⟨⟩
    exact ⟨‹_›, ‹_›⟩
  · exact fun h => .table h.keys h.values

/-- An array of tables has no repeated keys just when none of its tables has any. -/
theorem distinct_tables_iff {items : List (List (String × Section))} :
    Distinct (.tables items) ↔ ∀ entries ∈ items, Keyed Distinct entries := by
  constructor
  · rintro ⟨⟩
    rename_i hkeys hvalues
    exact fun entries hentries => ⟨hkeys entries hentries, hvalues entries hentries⟩
  · exact fun h => .tables (fun entries hentries => (h entries hentries).keys)
      fun entries hentries => (h entries hentries).values

/-- A key that is not found is no key of the table. -/
theorem find?_eq_none_iff : find? entries k = none ↔ k ∉ entries.map (·.1) := by
  induction entries with
  | nil => simp [find?]
  | cons entry rest ih =>
    obtain ⟨first, s⟩ := entry
    by_cases h : first = k
    · simp [find?, h]
    · simp [find?, h, ih, Ne.symm h]

/-- What is found under a key is one of the entries. -/
theorem mem_of_find?_eq_some (h : find? entries k = some s) : (k, s) ∈ entries := by
  induction entries with
  | nil => cases h
  | cons entry rest ih =>
    obtain ⟨first, s'⟩ := entry
    rw [find?] at h
    split at h
    · rename_i hfirst
      cases h
      exact hfirst ▸ List.mem_cons_self
    · exact List.mem_cons_of_mem _ (ih h)

/-- An empty table has no repeated keys. -/
theorem keyed_nil : Keyed Distinct ([] : List (String × Section)) :=
  ⟨.nil, fun _ h => absurd h List.not_mem_nil⟩

/-- An entry with a new key is added. -/
theorem keyed_append (h : Keyed Distinct entries) (hnew : find? entries k = none)
    (hs : s.Distinct) : Keyed Distinct (entries ++ [(k, s)]) := by
  rw [find?_eq_none_iff] at hnew
  constructor
  case keys =>
    rw [List.map_append, List.nodup_append]
    refine ⟨h.keys, List.nodup_singleton _, ?_⟩
    simp only [List.map_cons, List.map_nil, List.mem_singleton]
    rintro a ha b rfl rfl
    exact hnew ha
  case values =>
    intro entry hentry
    rcases List.mem_append.1 hentry with hold | hlast
    · exact h.values entry hold
    · rw [List.mem_singleton.1 hlast]
      exact hs

/-- A new value leaves all keys, and their order, as they are. -/
theorem map_fst_replace (hfound : find? entries k ≠ none) (s : Section) :
    (replace entries k s).map (·.1) = entries.map (·.1) := by
  induction entries with
  | nil => exact absurd rfl hfound
  | cons entry rest ih =>
    obtain ⟨first, old⟩ := entry
    by_cases h : first = k
    · simp [replace, h]
    · have hrest : find? rest k ≠ none := by simpa [find?, h] using hfound
      simp [replace, h, ih hrest]

/-- After a new value every entry is the new one or an old one. -/
theorem mem_replace {entry : String × Section} (h : entry ∈ replace entries k s) :
    entry.2 = s ∨ entry ∈ entries := by
  induction entries with
  | nil => exact .inl (by rw [List.mem_singleton.1 h])
  | cons first rest ih =>
    rw [replace] at h
    split at h
    · rcases List.mem_cons.1 h with rfl | hrest
      · exact .inl rfl
      · exact .inr (List.mem_cons_of_mem _ hrest)
    · rcases List.mem_cons.1 h with rfl | hrest
      · exact .inr List.mem_cons_self
      · exact (ih hrest).imp id (List.mem_cons_of_mem _)

/-- An entry that is there gets another value. -/
theorem keyed_replace (h : Keyed Distinct entries) (hfound : find? entries k ≠ none)
    (hs : s.Distinct) : Keyed Distinct (replace entries k s) := by
  constructor
  case keys =>
    rw [map_fst_replace hfound]
    exact h.keys
  case values =>
    intro entry hentry
    rcases mem_replace hentry with heq | hold
    · rw [heq]
      exact hs
    · exact h.values entry hold

/-- A table that is found has its keys apart. -/
theorem keyed_of_find?_table (h : Keyed Distinct entries)
    (hfound : find? entries k = some (.table origin inner)) : Keyed Distinct inner :=
  distinct_table_iff.1 (h.values _ (mem_of_find?_eq_some hfound))

/-- The tables of an array that is found have their keys apart. -/
theorem keyed_of_find?_tables {items : List (List (String × Section))} (h : Keyed Distinct entries)
    (hfound : find? entries k = some (.tables items)) : ∀ inner ∈ items, Keyed Distinct inner :=
  distinct_tables_iff.1 (h.values _ (mem_of_find?_eq_some hfound))

/-- A table takes the place of what is found. -/
theorem keyed_replace_table (h : Keyed Distinct entries) (hfound : find? entries k = some s)
    (hinner : Keyed Distinct inner) : Keyed Distinct (replace entries k (.table origin inner)) :=
  keyed_replace h (by simp [hfound]) (distinct_table_iff.2 hinner)

/-- A table takes the place of the last one of an array. -/
theorem keyed_replace_last {last : List (String × Section)} (h : Keyed Distinct entries)
    (hfound : find? entries k = some (.tables (last :: before))) (hinner : Keyed Distinct inner) :
    Keyed Distinct (replace entries k (.tables (inner :: before))) := by
  refine keyed_replace h (by simp [hfound]) (distinct_tables_iff.2 ?_)
  have hitems := keyed_of_find?_tables h hfound
  exact List.forall_mem_cons.2 ⟨hinner, (List.forall_mem_cons.1 hitems).2⟩

/-- A value is added under a key with dots. -/
theorem keyed_assign {path : List String} {d : Document} (h : Keyed Distinct entries)
    (hd : d.Distinct) (hassign : assign entries path d = some entries') :
    Keyed Distinct entries' := by
  induction path generalizing entries entries' with
  | nil => cases hassign
  | cons k rest ih =>
    cases rest with
    | nil =>
      -- the last key of the path must be new
      rw [assign] at hassign
      split at hassign
      · cases hassign
      · rename_i hnew
        cases hassign
        exact keyed_append h hnew (.value hd)
    | cons next rest =>
      -- any other key opens a table, or leads into one: a table or the last one of an array
      rw [assign] at hassign
      split at hassign
      · rename_i hnew
        obtain ⟨inner, hinner, hsome⟩ := Option.bind_eq_some_iff.1 hassign
        cases hsome
        exact keyed_append h hnew (distinct_table_iff.2 (ih keyed_nil hinner))
      · rename_i hfound
        obtain ⟨inner, hinner, hsome⟩ := Option.bind_eq_some_iff.1 hassign
        cases hsome
        exact keyed_replace_table h hfound (ih (keyed_of_find?_table h hfound) hinner)
      · rename_i hfound
        obtain ⟨-, -, hrest⟩ := Option.bind_eq_some_iff.1 hassign
        obtain ⟨inner, hinner, hsome⟩ := Option.bind_eq_some_iff.1 hrest
        cases hsome
        exact keyed_replace_table h hfound (ih (keyed_of_find?_table h hfound) hinner)
      · rename_i hfound
        obtain ⟨-, -, hrest⟩ := Option.bind_eq_some_iff.1 hassign
        obtain ⟨inner, hinner, hsome⟩ := Option.bind_eq_some_iff.1 hrest
        cases hsome
        have hlast := keyed_of_find?_tables h hfound _ List.mem_cons_self
        exact keyed_replace_last h hfound (ih hlast hinner)
      · cases hassign

/-- A change below a headed path keeps keys apart if it does so where it is made. -/
theorem keyed_beneath {path : List String}
    {change : List (String × Section) → Option (List (String × Section))}
    (hchange : ∀ entries entries', Keyed Distinct entries → change entries = some entries' →
      Keyed Distinct entries')
    (h : Keyed Distinct entries) (hbeneath : beneath entries change path = some entries') :
    Keyed Distinct entries' := by
  induction path generalizing entries entries' with
  | nil => exact hchange _ _ h hbeneath
  | cons k rest ih =>
    rw [beneath] at hbeneath
    -- a table is opened, or led into: a table or the last one of an array
    split at hbeneath
    · rename_i hnew
      obtain ⟨inner, hinner, hsome⟩ := Option.bind_eq_some_iff.1 hbeneath
      cases hsome
      exact keyed_append h hnew (distinct_table_iff.2 (ih keyed_nil hinner))
    · rename_i hfound
      obtain ⟨inner, hinner, hsome⟩ := Option.bind_eq_some_iff.1 hbeneath
      cases hsome
      exact keyed_replace_table h hfound (ih (keyed_of_find?_table h hfound) hinner)
    · rename_i hfound
      obtain ⟨inner, hinner, hsome⟩ := Option.bind_eq_some_iff.1 hbeneath
      cases hsome
      have hlast := keyed_of_find?_tables h hfound _ List.mem_cons_self
      exact keyed_replace_last h hfound (ih hlast hinner)
    · cases hbeneath

/-- A header such as `[k]` opens a table without repeating a key. -/
theorem keyed_openTable (h : Keyed Distinct entries) (hopen : openTable k entries = some entries') :
    Keyed Distinct entries' := by
  unfold openTable at hopen
  split at hopen
  · rename_i hnew
    cases hopen
    exact keyed_append h hnew (distinct_table_iff.2 keyed_nil)
  · rename_i hfound
    cases hopen
    exact keyed_replace_table h hfound (keyed_of_find?_table h hfound)
  · cases hopen

/-- A header such as `[[k]]` adds a table to an array without repeating a key. -/
theorem keyed_openItem (h : Keyed Distinct entries) (hopen : openItem k entries = some entries') :
    Keyed Distinct entries' := by
  unfold openItem at hopen
  split at hopen
  · rename_i hnew
    cases hopen
    refine keyed_append h hnew (distinct_tables_iff.2 fun inner hinner => ?_)
    rw [List.mem_singleton.1 hinner]
    exact keyed_nil
  · rename_i items hfound
    cases hopen
    refine keyed_replace h (by simp [hfound]) (distinct_tables_iff.2 ?_)
    exact List.forall_mem_cons.2 ⟨keyed_nil, keyed_of_find?_tables h hfound⟩
  · cases hopen

/-- A finished table has the keys of its draft. -/
theorem map_fst_finishEntries (entries : List (String × Section)) :
    (finishEntries entries).map (·.1) = entries.map (·.1) := by
  induction entries with
  | nil => simp [finishEntries]
  | cons entry rest ih => simp [finishEntries, ih]

mutual

/-- What is finished has its keys apart. -/
theorem distinct_finish : ∀ {s : Section}, s.Distinct → (finish s).Distinct
  | .value d, h => by
    cases h with
    | value hd => rwa [finish]
  | .table origin entries, h => by
    have hentries := keyed_finishEntries (distinct_table_iff.1 h)
    rw [finish]
    exact .table hentries.keys hentries.values
  | .tables items, h => by
    rw [finish]
    exact .array (distinct_finishItems (distinct_tables_iff.1 h) (by simp))

/-- The entries of a finished table have their keys apart, at every depth. -/
theorem keyed_finishEntries : ∀ {entries : List (String × Section)}, Keyed Distinct entries →
    Keyed Document.Distinct (finishEntries entries)
  | [], _ => by
    rw [finishEntries]
    exact ⟨.nil, fun _ h => absurd h List.not_mem_nil⟩
  | (k, s) :: rest, h => by
    have hs := distinct_finish (h.values _ List.mem_cons_self)
    have hrest := keyed_finishEntries
      ⟨(List.nodup_cons.1 h.keys).2, fun entry he => h.values entry (List.mem_cons_of_mem _ he)⟩
    constructor
    case keys =>
      rw [map_fst_finishEntries]
      exact h.keys
    case values =>
      rw [finishEntries]
      exact List.forall_mem_cons.2 ⟨hs, hrest.values⟩

/-- The tables of a finished array have their keys apart. -/
theorem distinct_finishItems : ∀ {items : List (List (String × Section))} {done : List Document},
    (∀ entries ∈ items, Keyed Distinct entries) → (∀ d ∈ done, d.Distinct) →
    ∀ d ∈ finishItems items done, d.Distinct
  | [], done, _, hdone => by
    rw [finishItems]
    exact hdone
  | entries :: before, done, h, hdone => by
    have hentries := keyed_finishEntries (h entries List.mem_cons_self)
    rw [finishItems]
    exact distinct_finishItems (fun inner he => h inner (List.mem_cons_of_mem _ he))
      (List.forall_mem_cons.2 ⟨.table hentries.keys hentries.values, hdone⟩)

end

end Section

/-! ### Values and files -/

open Text.Reader Section

/-- A number in another base is no table. -/
theorem distinct_inBase {base : Nat} {cs : List Char} {d : Document} (h : inBase base cs = some d) :
    d.Distinct := by
  obtain ⟨-, -, h⟩ := Option.bind_eq_some_iff.1 h
  obtain ⟨-, -, h⟩ := Option.bind_eq_some_iff.1 h
  cases h
  exact .integer _

/-- A number with a fraction is no table. -/
theorem distinct_double? {negative : Bool} {whole places : List Char} {exponent : Int}
    {d : Document} (h : double? negative whole places exponent = some d) : d.Distinct := by
  unfold double? at h
  dsimp only at h
  split at h
  · cases h
  · cases h
    exact .float _

/-- A decimal number is no table. -/
theorem distinct_decimal? {negative : Bool} {cs : List Char} {d : Document}
    (h : decimal? negative cs = some d) : d.Distinct := by
  obtain ⟨-, -, h⟩ := Option.bind_eq_some_iff.1 h
  split at h
  · obtain ⟨-, -, h⟩ := Option.bind_eq_some_iff.1 h
    cases h
    exact .integer _
  · obtain ⟨-, -, h⟩ := Option.bind_eq_some_iff.1 h
    dsimp only at h
    split at h
    · exact distinct_double? h
    · obtain ⟨exponent, -, h⟩ := Option.bind_eq_some_iff.1 h
      exact distinct_double? h

/-- A number without its sign is no table. -/
theorem distinct_unsigned? {negative : Bool} {cs : List Char} {d : Document}
    (h : unsigned? negative cs = some d) : d.Distinct := by
  unfold unsigned? at h
  split at h
  · cases h
    exact .float _
  · cases h
    exact .float _
  · exact distinct_decimal? h

/-- A number is no table. -/
theorem distinct_number? {cs : List Char} {d : Document} (h : number? cs = some d) :
    d.Distinct := by
  unfold number? at h
  split at h
  · exact distinct_inBase h
  · exact distinct_inBase h
  · exact distinct_inBase h
  · exact distinct_unsigned? h
  · exact distinct_unsigned? h
  · exact distinct_unsigned? h

/-- A word that stands for a value is no table. -/
theorem yields_word : Yields Document.Distinct word := by
  refine .after fun cs => ?_
  split
  · exact .pure (.bool true)
  · exact .pure (.bool false)
  · split
    · rename_i d hd
      exact .pure (distinct_number? hd)
    · exact .refuse

mutual

/-- No value has a key twice, at whatever depth it is nested. -/
theorem yields_valueIn : ∀ fuel depth, Yields Document.Distinct (valueIn fuel depth)
  | 0, _ => .refuse
  | fuel + 1, depth => by
    rw [valueIn]
    refine .after fun c => ?_
    split
    · exact .after fun s => .pure (.text s)
    · exact .after fun s => .pure (.text s)
    · refine .after fun _ => .ite .refuse_bind ?_
      exact (yields_itemsIn fuel (depth - 1) (by simp)).bind fun items h => .pure (.array h)
    · refine .after fun _ => .ite .refuse_bind (.after fun _ => .after fun _ => .ite ?_ ?_)
      · exact .pure (.table .nil fun _ h => absurd h List.not_mem_nil)
      · refine (yields_pairsIn fuel (depth - 1) keyed_nil).bind fun entries h => .pure ?_
        have hfinished := keyed_finishEntries h
        exact .table hfinished.keys hfinished.values
    · exact yields_word

/-- No item of an array has a key twice. -/
theorem yields_itemsIn : ∀ fuel depth {reversed : List Document}, (∀ d ∈ reversed, d.Distinct) →
    Yields (fun items => ∀ d ∈ items, d.Distinct) (itemsIn fuel depth reversed)
  | 0, _, _, _ => .refuse
  | fuel + 1, depth, reversed, h => by
    rw [itemsIn]
    refine .after fun _ => .after fun _ => .after fun _ => .ite (.pure (by simpa using h)) ?_
    refine (yields_valueIn fuel depth).bind fun item hitem => ?_
    have hcons : ∀ d ∈ item :: reversed, d.Distinct := List.forall_mem_cons.2 ⟨hitem, h⟩
    refine .after fun _ => .after fun _ => .after fun _ => .ite ?_ ?_
    · exact yields_itemsIn fuel depth hcons
    · exact .after fun _ => .pure fun d hd => hcons d (List.mem_reverse.1 hd)

/-- The pairs of an inline table are added one by one, and each keeps the keys apart. -/
theorem yields_pairsIn : ∀ fuel depth {entries : List (String × Section)},
    Keyed Section.Distinct entries →
    Yields (Keyed Section.Distinct) (pairsIn fuel depth entries)
  | 0, _, _, _ => .refuse
  | fuel + 1, depth, entries, h => by
    rw [pairsIn]
    refine .after fun _ => .after fun k => .after fun _ => .after fun _ => ?_
    refine (yields_valueIn fuel depth).bind fun d hd => ?_
    split
    · exact .refuse
    · rename_i entries' hassign
      have hadded := keyed_assign h hd hassign
      refine .after fun _ => .after fun _ => .ite ?_ ?_
      · exact yields_pairsIn fuel depth hadded
      · exact .after fun _ => .pure hadded

end

/-- A value that is assigned has its keys apart. -/
def Statement.Distinct : Statement → Prop
  | .assignment _ d => d.Distinct
  | .table _ | .item _ => True

/-- A statement gives a value without repeated keys. -/
theorem yields_statement : Yields Statement.Distinct statement := by
  refine .after fun _ => .ite ?_ ?_
  · refine .after fun _ => .ite ?_ ?_
    · exact .after fun _ => .after fun k => .after fun _ => .pure True.intro
    · exact .after fun _ => .after fun k => .after fun _ => .pure True.intro
  · refine .after fun k => .after fun _ => .after fun _ => ?_
    exact Yields.bind (.after fun _ => yields_valueIn _ _) fun d hd => .pure hd

/-- No statement of a file has a key twice in its value. -/
theorem yields_statements : ∀ fuel {reversed : List Statement},
    (∀ s ∈ reversed, s.Distinct) →
    Yields (fun found => ∀ s ∈ found, s.Distinct) (statements fuel reversed)
  | 0, _, _ => .refuse
  | fuel + 1, reversed, h => by
    rw [statements]
    refine .after fun _ => .after fun _ => .after fun _ => .ite (.pure (by simpa using h)) ?_
    refine yields_statement.bind fun s hs => .after fun _ => .after fun _ => .after fun _ => ?_
    have hcons : ∀ s' ∈ s :: reversed, s'.Distinct := List.forall_mem_cons.2 ⟨hs, h⟩
    exact .after fun _ => .ite (yields_statements fuel hcons) .refuse

/-- Every statement keeps the keys of a file apart. -/
theorem keyed_add {draft draft' : Draft} {s : Statement} (h : Keyed Section.Distinct draft.entries)
    (hs : s.Distinct) (hadd : draft.add s = some draft') :
    Keyed Section.Distinct draft'.entries := by
  cases s with
  | assignment key d =>
    obtain ⟨entries, hentries, hsome⟩ := Option.bind_eq_some_iff.1 hadd
    cases hsome
    exact keyed_beneath (fun _ _ h h' => keyed_assign h hs h') h hentries
  | table key =>
    obtain ⟨entries, hentries, hsome⟩ := Option.bind_eq_some_iff.1 hadd
    cases hsome
    exact keyed_beneath (fun _ _ h h' => keyed_openTable h h') h hentries
  | item key =>
    obtain ⟨entries, hentries, hsome⟩ := Option.bind_eq_some_iff.1 hadd
    cases hsome
    exact keyed_beneath (fun _ _ h h' => keyed_openItem h h') h hentries

/-- All statements together keep the keys of a file apart, from the first to the last. -/
theorem keyed_foldlM_add {found : List Statement} {draft draft' : Draft}
    (h : Keyed Section.Distinct draft.entries) (hfound : ∀ s ∈ found, s.Distinct)
    (hadd : found.foldlM Draft.add draft = some draft') :
    Keyed Section.Distinct draft'.entries := by
  induction found generalizing draft with
  | nil =>
    cases hadd
    exact h
  | cons s rest ih =>
    rw [List.foldlM_cons] at hadd
    obtain ⟨next, hnext, hrest⟩ := Option.bind_eq_some_iff.1 hadd
    obtain ⟨hs, htail⟩ := List.forall_mem_cons.1 hfound
    exact ih (keyed_add h hs hnext) htail hrest

/-- A file that can be read has no key twice in a table. -/
theorem keyed_parse {s : String} {entries : List (String × Document)}
    (h : parse s = some entries) : Keyed Document.Distinct entries := by
  obtain ⟨found, hfound, h⟩ := Option.bind_eq_some_iff.1 h
  obtain ⟨draft, hdraft, h⟩ := Option.bind_eq_some_iff.1 h
  cases h
  have hstatements : Yields (fun found => ∀ s ∈ found, s.Distinct) file :=
    .after fun _ => .after fun _ => yields_statements _ (by simp)
  exact keyed_finishEntries (keyed_foldlM_add keyed_nil (hstatements.readAll hfound) hdraft)

end Toml

end Document

end LoggerHierarchy
