import LoggerHierarchy.Proofs.Tree.Delivery
import Mathlib.Data.List.Forall2

namespace LoggerHierarchy.Tree

/-!
# Records before the filters

A node takes a record if the level is high enough and the filters accept it: the node's own and,
where nodes delegate, those above it.  Filters are asked one after the other; the first that does
not accept has the last word:

* `Passes` — whether a level is high enough for a node;
* `acceptedBy` — whether the filters at a node accept, by recursion on its parent;
* `screen`, `consulted` — the nodes whose filters apply, and those that are asked, with their
  verdicts;
* `Consultation` — what is seen of a filter that is asked;
* `acceptedBy_eq_all` — the filters accept if all that apply do;
* `signed` — the record under a name; `walk_publication` — the way of a record that was accepted;
* `Situation.Reachable.log_screens` — what becomes of a record that is logged.
-/

variable {may : Answers} {ω : Type} {t t' : Tree} {n m : NodeId} {judge : NodeId → Verdict}

/-! ### What filters and levels say -/

/-- Whether a level is high enough for a node. -/
def Passes (t : Tree) (n : NodeId) (severity : Int32) : Prop :=
  severity ≠ Level.off.value ∧ t.minimum n ≤ severity ∧ t.effective n ≤ severity

instance (t : Tree) (n : NodeId) (severity : Int32) : Decidable (t.Passes n severity) :=
  inferInstanceAs (Decidable (_ ∧ _))

/-- The filter of a node. -/
def filter? (t : Tree) (n : NodeId) : Option Filter :=
  (t.node? n).bind (·.filter)

/-- Whether the filters at a node accept a record of which the filter of each node says what `judge`
    says: its own does, if there is one, and if the node delegates and is not the root, those at its
    parent do. -/
def acceptedBy (t : Tree) (judge : NodeId → Verdict) (n : NodeId) : Bool :=
  ((t.filter? n).isNone || decide (judge n = .accept)) &&
    (!t.delegatesFilters n || t.isRoot n ||
      match _h : t.parent? n with
      | some p => t.acceptedBy judge p
      | none => false)
termination_by n
decreasing_by exact lt_of_parent? _h

/-- The nodes whose filters apply at a node, from there upwards. -/
def screen (t : Tree) (n : NodeId) : List NodeId :=
  (if (t.filter? n).isSome then [n] else []) ++
    if t.delegatesFilters n then
      match _h : t.parent? n with
      | some p => t.screen p
      | none => []
    else []
termination_by n
decreasing_by exact lt_of_parent? _h

/-- The nodes whose filters are asked, up to the first that does not accept, with their verdicts. -/
def consulted (judge : NodeId → Verdict) : List NodeId → List (NodeId × Verdict)
  | [] => []
  | n :: rest => (n, judge n) :: if judge n = .accept then consulted judge rest else []

/-- A filter that is asked finds and leaves the nodes as they are. -/
inductive Consultation (t : Tree) (record : Record) : NodeId × Verdict → Move → Prop where
  | mk {n : NodeId} {verdict : Verdict} {filter : Filter} {found : Tree}
      (hfilter : t.filter? n = some filter) (hfound : found.nodes = t.nodes) :
      Consultation t record (n, verdict) (.asked found (.accepts filter record) verdict found)

/-- What a verdict makes of the operation that asks for it. -/
def conclusion : Verdict → Option Bool
  | .accept => some true
  | .reject => some false
  | .panic => none

/-- What the filters of some nodes make of the operation that asks them in order. -/
def ruling (judge : NodeId → Verdict) : List NodeId → Option Bool
  | [] => some true
  | n :: rest => if judge n = .accept then ruling judge rest else conclusion (judge n)

/-- A panic is what is left of the operation; else all filters have to accept. -/
theorem ruling_eq (judge : NodeId → Verdict) (nodes : List NodeId) :
    ruling judge nodes =
      if Verdict.panic ∈ (consulted judge nodes).map (·.2) then none
      else some (nodes.all fun m => decide (judge m = .accept)) := by
  induction nodes with
  | nil => simp [ruling, consulted]
  | cons n rest ih =>
    cases hverdict : judge n with
    | accept =>
      have hconsulted : consulted judge (n :: rest) = (n, .accept) :: consulted judge rest := by
        rw [consulted, hverdict, if_pos rfl]
      rw [ruling, if_pos hverdict, ih, hconsulted]
      refine if_congr ?_ rfl ?_
      · simp
      · simp [hverdict]
    | reject => simp [ruling, consulted, hverdict, conclusion]
    | panic => simp [ruling, consulted, hverdict, conclusion]

/-- Where no filter objects, all are asked and the record is accepted. -/
theorem ruling_of_all {nodes : List NodeId} (h : ∀ m ∈ nodes, judge m = .accept) :
    ruling judge nodes = some true := by
  induction nodes with
  | nil => rfl
  | cons n rest ih =>
    obtain ⟨hn, hrest⟩ := List.forall_mem_cons.1 h
    rw [ruling, if_pos hn, ih hrest]

/-- Which filters are asked depends on what these say, and on nothing else. -/
theorem consulted_congr {judge' : NodeId → Verdict} {nodes : List NodeId}
    (h : ∀ m ∈ nodes, judge m = judge' m) : consulted judge nodes = consulted judge' nodes := by
  induction nodes with
  | nil => rfl
  | cons n rest ih =>
    obtain ⟨hn, hrest⟩ := List.forall_mem_cons.1 h
    rw [consulted, consulted, hn, ih hrest]

/-- What filters make of a record depends on what they say, and on nothing else. -/
theorem ruling_congr {judge' : NodeId → Verdict} {nodes : List NodeId}
    (h : ∀ m ∈ nodes, judge m = judge' m) : ruling judge nodes = ruling judge' nodes := by
  induction nodes with
  | nil => rfl
  | cons n rest ih =>
    obtain ⟨hn, hrest⟩ := List.forall_mem_cons.1 h
    rw [ruling, ruling, hn, ih hrest]

/-! ### The filters that apply -/

/-- The nodes above a node whose filters apply there. -/
def screenAbove (t : Tree) (n : NodeId) : List NodeId :=
  if t.delegatesFilters n then (t.parent? n).elim [] t.screen else []

/-- The filter of the node itself comes first, then those above. -/
theorem screen_eq (t : Tree) (n : NodeId) :
    t.screen n = (if (t.filter? n).isSome then [n] else []) ++ t.screenAbove n := by
  rw [screen, screenAbove]
  congr 1
  split
  · split <;> rename_i hparent <;> rw [hparent] <;> rfl
  · rfl

/-- The filters above are those that apply at the parent. -/
theorem mem_screenAbove (hm : m ∈ t.screenAbove n) :
    ∃ p, t.parent? n = some p ∧ m ∈ t.screen p := by
  unfold screenAbove at hm
  split at hm
  · cases hparent : t.parent? n with
    | none => simp [hparent] at hm
    | some p => exact ⟨p, rfl, by simpa [hparent] using hm⟩
  · simp at hm

/-- The nodes whose filters apply have descending numbers, so none is asked twice. -/
theorem screen_pairwise (t : Tree) (n : NodeId) :
    (t.screen n).Pairwise (· > ·) ∧ ∀ m ∈ t.screen n, m ≤ n := by
  induction n using Nat.strongRecOn with
  | ind n ih =>
    have habove : ∀ m ∈ t.screenAbove n, m < n := by
      intro m hm
      obtain ⟨p, hparent, hm⟩ := mem_screenAbove hm
      have hlt := lt_of_parent? hparent
      exact Nat.lt_of_le_of_lt ((ih p hlt).2 m hm) hlt
    -- the first part of the claim for the parent needs the second, so both go together
    have hpairwise : (t.screenAbove n).Pairwise (· > ·) := by
      unfold screenAbove
      split
      · cases hparent : t.parent? n with
        | none => exact .nil
        | some p => exact (ih p (lt_of_parent? hparent)).1
      · exact .nil
    rw [screen_eq]
    split
    · refine ⟨List.pairwise_cons.2 ⟨habove, hpairwise⟩, ?_⟩
      exact List.forall_mem_cons.2 ⟨Nat.le_refl n, fun m hm => Nat.le_of_lt (habove m hm)⟩
    · exact ⟨hpairwise, fun m hm => Nat.le_of_lt (habove m hm)⟩

/-- The filters at a node of an open context accept if all that apply do. -/
theorem acceptedBy_eq_all (h : t.Fit may) (hn : t.IsAttached n) (judge : NodeId → Verdict) :
    t.acceptedBy judge n = (t.screen n).all fun m => decide (judge m = .accept) := by
  induction n using Nat.strongRecOn with
  | ind n ih =>
    obtain ⟨p, hp, hattached⟩ := id hn
    have hparent := h.wellFormed.shaped.parent?_eq h.isOpen hp hattached
    rw [screen_eq, List.all_append, acceptedBy]
    congr 1
    · cases t.filter? n <;> simp
    · -- only the root of an open context has no parent, so no filter is left out
      have hroot : t.isRoot n = (t.parent? n).isNone := by
        obtain ⟨node, hnode, rfl⟩ := place?_eq_some.1 hp
        rw [hparent]
        simp [isRoot, hnode, Node.place]
      rw [hroot, screenAbove]
      cases t.delegatesFilters n with
      | false => rfl
      | true =>
        cases hup : t.parent? n with
        | none => rfl
        | some m =>
          have hm := h.wellFormed.isAttached_of_parent? hn hup
          simpa using ih m (lt_of_parent? hup) hm

/-- What the filters at a node of an open context make of the operation that asks them. -/
theorem ruling_screen (h : t.Fit may) (hn : t.IsAttached n) (judge : NodeId → Verdict) :
    ruling judge (t.screen n) =
      if t.acceptedBy judge n then some true
      else if Verdict.panic ∈ (consulted judge (t.screen n)).map (·.2) then none
      else some false := by
  have hall := acceptedBy_eq_all h hn judge
  split
  · rename_i haccepted
    exact ruling_of_all (by simpa using hall.symm.trans haccepted)
  · rename_i haccepted
    rw [ruling_eq, ← hall, Bool.eq_false_iff.2 haccepted]

/-! ### The parts of the way -/

variable (record : Record)

/-- Where there is no filter, nobody is asked. -/
theorem ownFilterAccepts_of_none (hfilter : t.filter? n = none) :
    ownFilterAccepts n record t = .done t true := by
  simp only [ownFilterAccepts, Program.bind_apply, Program.get_apply, Dialogue.bind_done]
  rw [filter?] at hfilter
  rw [hfilter]
  rfl

/-- A filter is asked once, and its verdict counts. -/
theorem ownFilterAccepts_of_some {filter : Filter} (hfilter : t.filter? n = some filter) :
    ownFilterAccepts n record t =
      .ask t (.accepts filter record) fun u (verdict : Verdict) =>
        match conclusion verdict with
        | some accepted => .done u accepted
        | none => .aborted u := by
  simp only [ownFilterAccepts, Program.bind_apply, Program.get_apply, Dialogue.bind_done]
  rw [filter?] at hfilter
  rw [hfilter]
  refine congrArg (Dialogue.ask (P := outside) t (.accepts filter record)) ?_
  funext u (verdict : Verdict)
  cases verdict <;> rfl

/-- What follows at a node that was delegated to, once its own filter has accepted. -/
def acceptsAbove (n : NodeId) (record : Record) (t : Tree) : Dialogue outside Tree Bool :=
  if t.delegatesFilters n then
    match t.parent? n with
    | some p => acceptsFrom p record t
    | none => .done t true
  else .done t true

/-- At a node that was delegated to, its own filter is asked and then those above, if it
    delegates in turn. -/
theorem acceptsFrom_eq (n : NodeId) (t : Tree) :
    acceptsFrom n record t =
      ((ownFilterAccepts n record (t.pin n)).bind fun u accepted =>
        if accepted then acceptsAbove n record u else .done u false).ensure (·.unpin n) := by
  rw [acceptsFrom]
  refine congrArg (Dialogue.ensure _) (congrArg (Dialogue.bind _) ?_)
  funext u accepted
  cases accepted with
  | false => rfl
  | true =>
    show (if u.delegatesFilters n = true then _ else _ : Run Bool) u = _
    rw [acceptsAbove]
    cases u.delegatesFilters n with
    | false => rfl
    | true => exact match_forget (u.parent? n) _ _

/-- At the node of the call the same is done, but whether it delegates was seen before its own
    filter was asked. -/
theorem accepts_eq (n : NodeId) (t : Tree) :
    accepts n record t =
      ((ownFilterAccepts n record (t.pin n)).bind fun u accepted =>
        if accepted then
          if t.delegatesFilters n then
            match u.parent? n with
            | some p => acceptsFrom p record u
            | none => .done u true
          else .done u true
        else .done u false).ensure (·.unpin n) := by
  show Dialogue.ensure _ ((ownFilterAccepts n record (t.pin n)).bind _) = _
  refine congrArg (Dialogue.ensure _) (congrArg (Dialogue.bind _) ?_)
  funext u accepted
  cases accepted with
  | false => rfl
  | true =>
    show (if t.delegatesFilters n = true then _ else _ : Run Bool) u = _
    cases t.delegatesFilters n with
    | false => rfl
    | true =>
      show (match u.parent? n with | some p => acceptsFrom p record | none => _ : Run Bool) u = _
      cases u.parent? n <;> rfl

/-! ### What is seen of these parts -/

/-- An outside whose filters do no more than answer. -/
def FiltersOnlyAnswer (world : Dialogue.Outside outside Tree ω) : Prop :=
  ∀ filter record t w, (world (.accepts filter record) t w).2.1 = t

/-- Whether a dialogue asks the filters of some nodes, and ends with what they make of it in the
    tree `u`. -/
def Screens (world : Dialogue.Outside outside Tree ω) (t : Tree) (record : Record)
    (nodes : List NodeId) (u : Tree) (d : Dialogue outside Tree Bool) : Prop :=
  ∀ w, ∃ judge moves w', d.play world w = ⟨moves, ruling judge nodes, u, w'⟩ ∧
    List.Forall₂ (Consultation t record) (consulted judge nodes) moves

section

variable {world : Dialogue.Outside outside Tree ω} {record}

/-- Where no filters are left, the record is accepted. -/
theorem screens_done (u : Tree) : Screens world t record [] u (.done u true) :=
  fun w => ⟨fun _ => .accept, [], w, rfl, .nil⟩

/-- References that are given up at the end make no difference. -/
theorem Screens.ensure {nodes : List NodeId} {u : Tree} {d : Dialogue outside Tree Bool}
    (h : Screens world t record nodes u d) (f : Tree → Tree) :
    Screens world t record nodes (f u) (d.ensure f) := by
  intro w
  obtain ⟨judge, moves, w', hplay, hmoves⟩ := h w
  exact ⟨judge, moves, w', by rw [Dialogue.play_ensure, hplay], hmoves⟩

/-- A filter that is asked makes one move, its verdict. -/
theorem play_ownFilterAccepts {filter : Filter} {verdict : Verdict} {u : Tree} {w w' : ω}
    (hfilter : t.filter? n = some filter)
    (hanswer : world (.accepts filter record) t w = (verdict, u, w')) :
    (ownFilterAccepts n record t).play world w =
      ⟨[.asked t (.accepts filter record) verdict u], conclusion verdict, u, w'⟩ := by
  rw [Dialogue.play_of_ask (ownFilterAccepts_of_some record hfilter) hanswer]
  cases verdict <;> rfl

/-- The filter of a node is asked before those above it, if there is one. -/
theorem Screens.cons (hworld : FiltersOnlyAnswer world) {nodes : List NodeId}
    {rest : Tree → Dialogue outside Tree Bool} (hnodes : t'.nodes = t.nodes)
    (h : Screens world t record nodes t' (rest t')) (hbelow : ∀ m ∈ nodes, m ≠ n) :
    Screens world t record ((if (t.filter? n).isSome then [n] else []) ++ nodes) t'
      ((ownFilterAccepts n record t').bind fun u accepted =>
        if accepted then rest u else .done u false) := by
  intro w
  have hsame : t'.filter? n = t.filter? n := by simp only [filter?, node?, hnodes]
  cases hfilter : t.filter? n with
  | none =>
    rw [ownFilterAccepts_of_none record (hsame.trans hfilter)]
    exact h w
  | some filter =>
    have hstill := hworld filter record t' w
    rcases hanswer : world (.accepts filter record) t' w with ⟨(verdict : Verdict), u, w'⟩
    rw [hanswer] at hstill
    obtain rfl : u = t' := hstill
    have hplay := play_ownFilterAccepts (hsame.trans hfilter) hanswer
    let move : Move := .asked u (.accepts filter record) verdict u
    have hasked : Consultation t record (n, verdict) move := .mk hfilter hnodes
    obtain ⟨judge, moves, w'', hrest, hmoves⟩ := h w'
    -- nothing else was said by the filter of this node, which is not among those above
    let judge' : NodeId → Verdict := Function.update judge n verdict
    have hn : judge' n = verdict := Function.update_self n verdict judge
    have habove : ∀ m ∈ nodes, judge' m = judge m :=
      fun m hm => Function.update_of_ne (hbelow m hm) verdict judge
    have hruling : ruling judge' (n :: nodes) =
        if verdict = .accept then ruling judge nodes else conclusion verdict := by
      rw [ruling, hn, ruling_congr habove]
    have hconsulted : consulted judge' (n :: nodes) =
        (n, verdict) :: if verdict = .accept then consulted judge nodes else [] := by
      rw [consulted, hn, consulted_congr habove]
    rw [Option.isSome_some, if_pos rfl, List.singleton_append]
    rw [Dialogue.play_bind, hplay]
    cases verdict with
    | accept =>
      -- the others are asked, and theirs is the ruling
      refine ⟨judge', move :: moves, w'', ?_, ?_⟩
      · rw [hruling, Dialogue.Play.bind_of_result rfl]
        dsimp only
        rw [if_pos rfl, if_pos rfl, hrest]
        rfl
      · rw [hconsulted]
        exact .cons hasked hmoves
    | reject | panic =>
      refine ⟨judge', [move], w', ?_, ?_⟩
      · rw [hruling]
        rfl
      · rw [hconsulted]
        exact .cons hasked .nil

/-- A node is not above itself. -/
theorem ne_of_mem_screenAbove (hm : m ∈ t.screenAbove n) : m ≠ n := by
  obtain ⟨p, hparent, hm⟩ := mem_screenAbove hm
  exact Nat.ne_of_lt (Nat.lt_of_le_of_lt ((screen_pairwise t p).2 m hm) (lt_of_parent? hparent))

/-- After a node has accepted, the filters above are asked if it delegates. -/
theorem screens_acceptsAbove (h : SameNodes may t t') (hn : t'.IsAttached n)
    (hup : ∀ p, t.parent? n = some p →
      Screens world t record (t.screen p) t' (acceptsFrom p record t')) :
    Screens world t record (t.screenAbove n) t' (acceptsAbove n record t') := by
  have hdelegates : t'.delegatesFilters n = t.delegatesFilters n := by
    simp only [delegatesFilters, node?, h.nodes]
  unfold acceptsAbove screenAbove
  rw [hdelegates, h.parent? hn]
  cases t.delegatesFilters n with
  | false => exact screens_done t'
  | true =>
    cases hparent : t.parent? n with
    | none => exact screens_done t'
    | some p => exact hup p hparent

/-- The check at a node with a reference to it, however it reads whether the node delegates. -/
theorem screens_pinned (hworld : FiltersOnlyAnswer world) (h : SameNodes may t t')
    (hn : t'.IsAttached n) {rest : Tree → Dialogue outside Tree Bool}
    (hrest : rest (t'.pin n) = acceptsAbove n record (t'.pin n))
    (hup : ∀ p, t.parent? n = some p → t'.IsAttached p →
      Screens world t record (t.screen p) (t'.pin n) (acceptsFrom p record (t'.pin n))) :
    Screens world t record (t.screen n) t'
      (((ownFilterAccepts n record (t'.pin n)).bind fun u accepted =>
        if accepted then rest u else .done u false).ensure (·.unpin n)) := by
  have hpin := h.pin hn
  have habove : Screens world t record (t.screenAbove n) (t'.pin n) (rest (t'.pin n)) := by
    rw [hrest]
    refine screens_acceptsAbove hpin hn fun p hparent => hup p hparent ?_
    exact h.fit'.wellFormed.isAttached_of_parent? hn ((h.parent? hn).trans hparent)
  have hcons := habove.cons hworld hpin.nodes fun m hm => ne_of_mem_screenAbove hm
  have hensured : Screens world t record _ ((t'.pin n).unpin n) _ := hcons.ensure (·.unpin n)
  -- filters change nothing, so the tree is the one from before the reference was taken
  rw [unpin_pin] at hensured
  rw [screen_eq]
  exact hensured

/-- The walk along the filters asks those that apply, since parents have smaller numbers. -/
theorem screens_acceptsFrom (hworld : FiltersOnlyAnswer world) (h : SameNodes may t t')
    (hn : t'.IsAttached n) :
    Screens world t record (t.screen n) t' (acceptsFrom n record t') := by
  induction n using Nat.strongRecOn generalizing t' with
  | ind n ih =>
    rw [acceptsFrom_eq]
    refine screens_pinned hworld h hn rfl fun p hparent hp => ?_
    exact ih p (lt_of_parent? hparent) (h.pin hn) hp

/-- So does the check where a record enters, which reads first whether the node delegates. -/
theorem screens_accepts (hworld : FiltersOnlyAnswer world) (h : SameNodes may t t')
    (hn : t'.IsAttached n) : Screens world t record (t.screen n) t' (accepts n record t') := by
  rw [accepts_eq]
  refine screens_pinned hworld h hn rfl fun p _ hp => ?_
  exact screens_acceptsFrom hworld (h.pin hn) hp

end

/-! ### Every run -/

/-- The record under its own logger's name or, where it has none, under that of the node. -/
def signed (t : Tree) (n : NodeId) (record : Record) : Record :=
  { record with loggerName := if record.loggerName = "" then t.name n else record.loggerName }

/-- This is the record that a log call goes on with. -/
theorem signed_eq (t : Tree) (n : NodeId) (record : Record) : t.signed n record =
    if record.loggerName.isEmpty then record.named (t.name n) else record := by
  by_cases hname : record.loggerName = ""
  · simp [signed, Record.named, hname]
  · simp [signed, hname]

/-- A level passes the check just when it is high enough for the node. -/
theorem isLoggable_iff (hn : t.IsAttached n) (severity : Int32) :
    t.isLoggable n severity = true ↔ t.Passes n severity := by
  obtain ⟨p, hp, -⟩ := hn
  obtain ⟨node, hnode, rfl⟩ := place?_eq_some.1 hp
  simp [isLoggable, Passes, minimum, effective, hnode, and_assoc]

/-- A log call is screened, then published under its name, while it holds its node. -/
theorem log_eq (n : NodeId) (t : Tree) :
    log n record t =
      (if t.isLoggable n record.level.value then
        (accepts n (t.signed n record) (t.pin n)).bind fun u accepted =>
          if accepted then (publish n (t.signed n record) u).bind fun v _ => .done v true
          else .done u false
      else .done (t.pin n) false).ensure (·.unpin n) := by
  rw [signed_eq]
  show Dialogue.ensure _ ((if t.isLoggable n record.level.value = true then _ else _ : Run Bool)
    (t.pin n)) = _
  refine congrArg (Dialogue.ensure _) ?_
  cases t.isLoggable n record.level.value with
  | false => rfl
  | true =>
    refine congrArg (Dialogue.bind _) ?_
    funext u accepted
    cases accepted <;> rfl

section

variable {world : Dialogue.Outside outside Tree ω} {memory w : ω} {screening : List Move} {record}

/-- A record whose level is too low is dropped before anybody is asked. -/
theorem play_log_of_not_loggable (hlevel : t.isLoggable n record.level.value = false) :
    (log n record t).play world memory = ⟨[], some false, t, memory⟩ := by
  rw [log_eq, hlevel]
  simp [Dialogue.ensure]

/-- A record that the filters accept is handed to the handlers. -/
theorem play_log_of_accepted (hlevel : t.isLoggable n record.level.value = true)
    (haccepts : (accepts n (t.signed n record) (t.pin n)).play world memory =
      ⟨screening, some true, t.pin n, w⟩) :
    let way := (publish n (t.signed n record) (t.pin n)).play world w
    (log n record t).play world memory =
      ⟨screening ++ way.moves, some true, way.state.unpin n, way.memory⟩ := by
  obtain ⟨done, hdone⟩ :=
    (returns_publish n (t.signed n record) (t.pin n)).exists_result world w
  dsimp only
  rw [log_eq, hlevel, if_pos rfl, Dialogue.play_ensure, Dialogue.play_bind, haccepts,
    Dialogue.Play.bind_of_result rfl]
  dsimp only
  rw [if_pos rfl, Dialogue.play_bind, Dialogue.Play.bind_of_result hdone]
  simp

/-- A record that they do not accept leaves no trace. -/
theorem play_log_of_not_accepted {result : Option Bool}
    (hlevel : t.isLoggable n record.level.value = true)
    (haccepts : (accepts n (t.signed n record) (t.pin n)).play world memory =
      ⟨screening, result, t.pin n, w⟩) (hresult : result ≠ some true) :
    (log n record t).play world memory = ⟨screening, result, t, w⟩ := by
  rw [log_eq, hlevel, if_pos rfl, Dialogue.play_ensure, Dialogue.play_bind, haccepts]
  cases result with
  | none => simp [Dialogue.Play.bind_of_aborted]
  | some accepted =>
    obtain rfl : accepted = false := by simpa using hresult
    rw [Dialogue.Play.bind_of_result rfl]
    simp

/-- Where the outside is considerate, the handlers have their turns at the node and above it. -/
theorem walk_publication (hworld : Considerate may world) (h : t.Fit may) (hn : t.IsAttached n)
    (record : Record) (w : ω) :
    let way := (publish n record (t.pin n)).play world w
    ∃ u, Walk record n t way.moves u ∧ (way.state.unpin n).nodes = u.nodes ∧
      (way.state.unpin n).pins = t.pins := by
  obtain ⟨moves, u, u', w', hplay, hwalk, hsame, hpins⟩ :=
    walk_publish hworld record (h.sameNodes.pin hn) hn w
  dsimp only
  rw [hplay]
  exact ⟨u, hwalk, hsame.nodes, pins_unpin hpins⟩

end

/-- Whenever an open context is reached, whose filters do no more than answer, a record is logged as
    its level and the filters say.  If the level is high enough, the filters that apply are asked in
    order, up to the first that does not accept, and else none is.  If they accept, the record then
    goes to the handlers of the node, and on from there while nodes delegate, under the name of the
    node if it has none; if not, nothing else is asked or changed, and a panic of a filter is passed
    on. -/
theorem Situation.Reachable.log_screens {s : Situation} (h : Reachable may s)
    (hopen : s.tree.isOpen = true) (hn : s.tree.contains n = true)
    {world : Dialogue.Outside outside Tree ω} (hworld : FiltersOnlyAnswer world) (record : Record)
    (memory : ω) :
    let signed := s.tree.signed n record
    let passes := s.tree.Passes n record.level.value
    let play := (log n record s.tree).play world memory
    (s.tree.screen n).Pairwise (· > ·) ∧
    ∃ (judge : NodeId → Verdict) (screening publication : List Move),
      play.moves = screening ++ publication ∧
      List.Forall₂ (Consultation s.tree signed)
        (if passes then consulted judge (s.tree.screen n) else []) screening ∧
      if passes ∧ s.tree.acceptedBy judge n = true then
        play.result = some true ∧
        (∃ w, let way := (publish n signed (s.tree.pin n)).play world w
          publication = way.moves ∧ play.state = way.state.unpin n) ∧
        (∀ found q a left, .asked found q a left ∈ publication → q.IsAboutDelivery signed) ∧
        (Considerate may world → ∃ u, Walk signed n s.tree publication u ∧
          play.state.nodes = u.nodes ∧ play.state.pins = s.tree.pins)
      else
        publication = [] ∧ play.state = s.tree ∧
        play.result =
          if passes ∧ Verdict.panic ∈ (consulted judge (s.tree.screen n)).map (·.2) then none
          else some false := by
  have hfit : s.tree.Fit may := ⟨h.wellFormed, hopen⟩
  have hattached := h.wellFormed.shaped.contains_iff.1 hn
  have hpin := hfit.sameNodes.pin hattached
  have hscreens : Screens world s.tree (s.tree.signed n record) (s.tree.screen n) _ _ :=
    screens_accepts hworld hpin hattached
  obtain ⟨judge, screening, w, haccepts, hscreening⟩ := hscreens memory
  have hruling := ruling_screen hfit hattached judge
  refine ⟨(screen_pairwise s.tree n).1, judge, ?_⟩
  by_cases hpasses : s.tree.Passes n record.level.value
  case neg =>
    -- no filter is asked, so the verdicts are those of nobody
    have hlevel := Bool.eq_false_iff.2 (mt (isLoggable_iff hattached _).1 hpasses)
    rw [play_log_of_not_loggable hlevel]
    exact ⟨[], [], rfl, by simp [hpasses], by simp [hpasses]⟩
  case pos =>
    have hlevel := (isLoggable_iff hattached _).2 hpasses
    by_cases haccepted : s.tree.acceptedBy judge n = true
    case pos =>
      rw [hruling, if_pos haccepted] at haccepts
      rw [play_log_of_accepted hlevel haccepts]
      refine ⟨screening, _, rfl, by simpa [hpasses] using hscreening, ?_⟩
      rw [if_pos ⟨hpasses, haccepted⟩]
      refine ⟨rfl, ⟨w, rfl, rfl⟩, fun found q a left hmove => ?_, fun hconsiderate => ?_⟩
      · exact (returns_publish n _ _).allowed_of_mem world w hmove
      · exact walk_publication hconsiderate hfit hattached _ w
    case neg =>
      rw [hruling, if_neg haccepted] at haccepts
      rw [play_log_of_not_accepted hlevel haccepts (by split <;> simp)]
      refine ⟨screening, [], by simp, by simpa [hpasses] using hscreening, ?_⟩
      rw [if_neg fun h => haccepted h.2]
      exact ⟨rfl, rfl, if_congr (and_iff_right hpasses).symm rfl rfl⟩

/-- A node with a filter and two handlers. -/
def Situation.screened : Situation :=
  ((initial .doubled).after .doubled (.getOrCreate root "a")).after .doubled
    (.setFilter 1 (some ⟨0⟩))

/-- The same node when it delegates to the root, which has a filter of its own. -/
def Situation.filtered : Situation :=
  (screened.after .doubled (.setUseParentFilters 1 true)).after .doubled
    (.setFilter root (some ⟨1⟩))

/-- The first of the two situations is reached by a run. -/
theorem Situation.reachable_screened : Reachable Configuration.doubled.Allows screened := by
  have hcreated := (reachable_initial .doubled).after (.getOrCreate root "a") (.inr ⟨rfl, rfl⟩) rfl
  exact hcreated.after (.setFilter 1 (some ⟨0⟩)) (.inl (by decide +kernel)) rfl

/-- The second situation is reached by a run, too. -/
theorem Situation.reachable_filtered : Reachable Configuration.doubled.Allows filtered := by
  have hdelegating := reachable_screened.after (.setUseParentFilters 1 true)
    (.inl (by decide +kernel)) rfl
  exact hdelegating.after (.setFilter root (some ⟨1⟩)) (.inr ⟨rfl, by decide +kernel⟩) rfl

/-- The first filter accepts, and the others panic. -/
def panicky : Dialogue.Outside outside Tree Unit
  | .accepts filter _, t, w => (if filter.serial = 0 then Verdict.accept else Verdict.panic, t, w)
  | q, t, w => (Configuration.doubled.answer q, t, w)

/-- The filters of this outside touch no node. -/
theorem filtersOnlyAnswer_panicky : FiltersOnlyAnswer panicky :=
  fun _ _ _ _ => rfl

/-- It is a considerate outside too. -/
theorem considerate_panicky : Considerate may panicky := by
  intro q t w _ hopen
  cases q with
  | accepts => exact ⟨.nothing, hopen⟩
  | _ => exact ⟨.nothing, hopen⟩

/-- A record without a name that the filter of a node accepts reaches the handlers of that node
    under the node's name; where the filter of the root is asked too, its panic is passed on, and
    leaves no trace. -/
theorem log_walks_or_stops_at_panic :
    let record : Record := { level := .severe, message := "x" }
    let play := (log 1 record Situation.screened.tree).play panicky ()
    let stopped := (log 1 record Situation.filtered.tree).play panicky ()
    (play.result = some true ∧
      (∃ screening publication u, play.moves = screening ++ publication ∧
        Walk { record with loggerName := "a" } 1 Situation.screened.tree publication u) ∧
      (play.questions.filter fun q => q matches .publish ..) =
        [.publish ⟨0, "file"⟩ { record with loggerName := "a" },
          .publish ⟨0, "file"⟩ { record with loggerName := "a" },
          .publish ⟨1, "console"⟩ { record with loggerName := "a" }]) ∧
    stopped.result = none ∧ stopped.moves.length = 2 ∧
      stopped.state = Situation.filtered.tree := by
  refine ⟨?_, ?_⟩
  -- the record passes: the filter of the node accepts it, and no other one applies
  · obtain ⟨-, judge, screening, publication, hmoves, -, hend⟩ :=
      Situation.Reachable.log_screens (n := 1) Situation.reachable_screened (by decide +kernel)
        (by decide +kernel) filtersOnlyAnswer_panicky { level := .severe, message := "x" } ()
    have hresult : ((log 1 { level := .severe, message := "x" } Situation.screened.tree).play
        panicky ()).result = some true := by decide +kernel
    have hsigned : Situation.screened.tree.signed 1 { level := .severe, message := "x" } =
        { level := .severe, loggerName := "a", message := "x" } := by decide +kernel
    split at hend
    · obtain ⟨-, -, -, hwalk⟩ := hend
      obtain ⟨u, hwalk, -⟩ := hwalk considerate_panicky
      rw [hsigned] at hwalk
      exact ⟨hresult, ⟨screening, publication, u, hmoves, hwalk⟩, by decide +kernel⟩
    · rw [hresult] at hend
      exact absurd hend.2.2 (by split <;> simp)
  -- the record stops: the filter of the root panics
  · obtain ⟨-, judge, screening, publication, -, -, hend⟩ :=
      Situation.Reachable.log_screens (n := 1) Situation.reachable_filtered (by decide +kernel)
        (by decide +kernel) filtersOnlyAnswer_panicky { level := .severe, message := "x" } ()
    have hresult : ((log 1 { level := .severe, message := "x" } Situation.filtered.tree).play
        panicky ()).result = none := by decide +kernel
    refine ⟨hresult, by decide +kernel, ?_⟩
    split at hend
    · rw [hresult] at hend
      exact absurd hend.1 (by simp)
    · exact hend.2.1

end LoggerHierarchy.Tree
