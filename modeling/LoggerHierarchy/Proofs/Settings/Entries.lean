import LoggerHierarchy.Proofs.Settings.Validity
import LoggerHierarchy.Proofs.Tree.Recreation
import LoggerHierarchy.Proofs.Tree.Resolution
import LoggerHierarchy.Settings.Configurator

namespace LoggerHierarchy

/-!
# Entries that take effect

What the loggers of a new context carry that a configurator answers for:

* `Tree.WellFormed.answeredBy_getOrCreate` — a name is followed to its end, and what is missing is
  made;
* `Tree.AsMade` — the nodes of a context in which nothing but loggers were made;
* `Configurator.Carries` — a node shows what some settings say;
* `Configurator.logger_carries` — the logger of an entry carries what is found under the name that
  the entry's name leads to, which is the same name iff it is regular.
-/

/-- A dialogue that is never aborted has a result if its questions are answered without touching the
    state. -/
theorem Dialogue.Returns.exists_answeredBy {P : Protocol} {σ α : Type} {d : Dialogue P σ α}
    {allowed : P.Question → Prop} (h : d.Returns allowed)
    (answer : (q : P.Question) → P.Answer q) : ∃ a, (d.answeredBy answer).2 = some a := by
  induction d with
  | done s a => exact ⟨a, rfl⟩
  | aborted s => exact h.elim
  | announce e d ih => exact ih h
  | ask s q resume ih => exact ih s (answer q) (h.2 s (answer q))

namespace Tree

variable {c : Configuration} {t u : Tree} {n m : NodeId} {node : Node} {segment : String}

/-! ### Following a name -/

/-- A name is followed to its end, and what is missing is made. -/
theorem WellFormed.answeredBy_getOrCreate (h : t.WellFormed c.Allows) (hn : t.IsAttached n)
    (name : String) :
    ∃ u m, (getOrCreate n name t).answeredBy c.answer = (u, some m) ∧ u.WellFormed c.Allows ∧
      Alters c.Allows (.getOrCreate n name) t u ∧ u.getIfExists n name = some m ∧
      u.IsAttached m := by
  obtain ⟨m, hm⟩ := (returns_followOrCreate n (Name.segments name) t).exists_answeredBy c.answer
  have hrests : ∀ (q : Question) (s u : Tree), Later c.Allows s u →
      (contract c.Allows).rely q u u (c.answer q) := fun q _ _ hu =>
    ⟨⟨hu.wellFormed.later_self, rfl, fun _ => ⟨rfl, fun _ => id⟩⟩, c.allows_answer q⟩
  have halters : ∀ (q : Question) (s u : Tree), Alters c.Allows (.getOrCreate n name) s u →
      (altering c.Allows (.getOrCreate n name)).rely q u u (c.answer q) := fun q _ u _ =>
    ⟨Grows.refl u, c.allows_answer q, fun _ => rfl⟩
  have hconfined : Confined c.Allows (.getOrCreate n name) Any (getOrCreate n name) t :=
    confined_followOrCreate ⟨n, name, rfl⟩ hn.exists
  obtain ⟨hlater, -, -, hfound⟩ := Dialogue.Keeps.answeredBy hrests (respects_getOrCreate h hn name)
  obtain ⟨hfind, hattached⟩ := hfound m hm
  obtain ⟨haltered, -⟩ := Dialogue.Keeps.answeredBy halters hconfined
  exact ⟨_, m, Prod.ext rfl hm, hlater.wellFormed, haltered, hfind, hattached⟩

/-! ### Loggers -/

/-- Whether an operation does no more than to make loggers and to look for them. -/
def Operation.makesLoggers : Operation → Bool
  | rootNode | getOrCreate .. | getIfExists .. | parent _ | children _ | createLogger _ => true
  | _ => false

@[simp] theorem place?_createLogger (t : Tree) (n m : NodeId) :
    (t.createLogger n).place? m = t.place? m := by
  refine place?_update (fun _ _ => ?_) m
  rfl

/-- Whether all nodes are as they were made, but for their loggers. -/
structure AsMade (c : Configuration) (t : Tree) : Prop where
  isOpen : t.isOpen = true
  handlers {n : NodeId} {node : Node} : t.node? n = some node → node.handlers = .unset
  level {n : NodeId} {node : Node} : t.node? n = some node → n ≠ root →
    node.level = c.level node.name

/-- Making loggers and looking for them changes nothing else of any node. -/
theorem AsMade.altered {op : Operation} (h : AsMade c t) (halters : Alters c.Allows op t u)
    (hop : op.makesLoggers = true) : AsMade c u := by
  have husesHandlers : op.usesHandlers = false := by
    cases op <;> first | rfl | simp [Operation.makesLoggers] at hop
  have hsetLevel : ∀ n level, op ≠ .setLevel n level := by
    rintro n level rfl
    simp [Operation.makesLoggers] at hop
  constructor
  case isOpen =>
    obtain hsame | ⟨rfl, -⟩ := halters.isOpen
    · exact hsame.trans h.isOpen
    · simp [Operation.makesLoggers] at hop
  case handlers =>
    intro n new hnew
    cases hold : t.node? n with
    | none => exact (halters.fresh hnew hold).handlers
    | some old =>
      have hages := halters.ages hold hnew
      exact (hages.handlers husesHandlers).trans (h.handlers hold)
  case level =>
    intro n new hnew hn
    cases hold : t.node? n with
    | none => exact (halters.fresh hnew hold).level
    | some old =>
      have hages := halters.ages hold hnew
      rw [hages.level (hsetLevel n), hages.name_eq]
      exact h.level hold hn

/-- In a run that only makes loggers, every node is as it was made. -/
theorem Situation.ReachableBy.asMade {s : Situation}
    (h : s.ReachableBy c.Allows fun op => op.makesLoggers = true) : AsMade c s.tree := by
  refine h.invariant ?_ ?_
  · intro minimum level
    constructor
    case isOpen => rfl
    case handlers =>
      intro n node hnode
      rw [(eq_of_node?_planted hnode).2]
      rfl
    case level =>
      intro n node hnode hn
      exact absurd (eq_of_node?_planted hnode).1 hn
  · rintro op t u (hop | rfl) halters ht
    · exact ht.altered halters hop
    · exact ht.altered halters rfl

end Tree

/-! ### What loggers carry -/

namespace Configurator

open LoggerHierarchy.Tree

variable {conf : Configurator} {t : Tree} {n : NodeId}

/-- The answers of a configurator, which never change. -/
def configuration (conf : Configurator) : Configuration where
  level := conf.level
  minimum := conf.minimum
  handlers := conf.handlers

/-- Whether a node shows what some settings say: their level, their floor or else its parent's, and
    those of their handlers that are registered. -/
structure Carries (conf : Configurator) (t : Tree) (n : NodeId) (settings : LoggerSettings) :
    Prop where
  level : (t.node? n).map (·.level) = some settings.level
  minimum : ∃ p, t.parent? n = some p ∧
    t.minimum n = (settings.minimum.map (·.value)).getD (t.minimum p)
  handlers : conf.configuration.handlersOf t n = some (settings.handlers.filterMap conf.handler?)

/-- A node that is as it was made carries what is found under its name. -/
theorem carries_lookup (hwf : t.WellFormed conf.configuration.Allows)
    (hmade : AsMade conf.configuration t) (hn : t.IsAttached n) (hroot : n ≠ root) :
    conf.Carries t n ((conf.settings.lookup (t.name n)).getD {}) := by
  obtain ⟨p, hp, hattached⟩ := hn
  obtain ⟨node, hnode, rfl⟩ := place?_eq_some.1 hp
  have hname : t.name n = node.name := by simp [Tree.name, hnode]
  rw [hname]
  constructor
  case level =>
    have hlevel : node.level = conf.level node.name := hmade.level hnode hroot
    rw [hnode, Option.map_some, hlevel, level]
    cases conf.settings.lookup node.name <;> rfl
  case minimum =>
    obtain ⟨m, q, hparent, -⟩ := hwf.shaped.parent hp hroot
    obtain ⟨answer, hanswer, hfloor⟩ := hwf.floored hp
    have hanswer : answer = conf.minimum node.name := hanswer
    refine ⟨m, (hwf.shaped.parent?_eq hmade.isOpen hp hattached).trans hparent, ?_⟩
    rw [minimum_eq, hp, Option.map_some, Option.getD_some, hfloor, hparent, hanswer, minimum]
    cases conf.settings.lookup node.name <;> rfl
  case handlers =>
    rw [handlersOf_eq hnode, hmade.handlers hnode]
    change some (conf.handlers node.name) = _
    rw [handlers, handlerNames]
    cases conf.settings.lookup node.name <;> rfl

/-- A logger is handed out for every name, at the node whose path are the segments of the name. -/
theorem answeredBy_logger {s : Situation} (h : s.Reachable conf.configuration.Allows)
    (hmade : AsMade conf.configuration s.tree) (name : String) :
    ∃ t n, (logger name s.tree).answeredBy conf.configuration.answer = (t, some n) ∧
      t.WellFormed conf.configuration.Allows ∧ AsMade conf.configuration t ∧ t.IsAttached n ∧
      t.path n = Name.segments name := by
  obtain ⟨u, n, hrun, hwf, halters, hfind, hattached⟩ :=
    h.wellFormed.answeredBy_getOrCreate h.wellFormed.shaped.root_isAttached name
  have hmade : AsMade conf.configuration u := hmade.altered halters rfl
  have hcreate : Alters conf.configuration.Allows (.createLogger n) u (u.createLogger n) :=
    Alters.update fun _ _ => ⟨rfl, .inl rfl, fun _ => rfl, fun _ => rfl, .inr ⟨rfl, rfl⟩⟩
  have hlater := hwf.later_createLogger n
  have hstays := hattached.of_place?_eq (place?_createLogger u n n)
  refine ⟨u.createLogger n, n, Dialogue.answeredBy_bind hrun, hlater.wellFormed,
    hmade.altered hcreate rfl, hstays, ?_⟩
  have hshaped := hlater.wellFormed.shaped
  rw [hshaped.path_of_find? (hlater.grows.find? hshaped hfind hstays).1, hshaped.path_root,
    List.nil_append]

/-- The logger of an entry of valid settings is handed out, whatever loggers were made before.  Its
    full name is that of the entry, with one dot more in front if there is one, and without a dot at
    the end; it carries what is found under that name, and so, if the name of the entry is regular,
    what the entry says. -/
theorem logger_carries {s : Situation} (hvalid : conf.settings.validate = .ok ())
    (hs : s.ReachableBy conf.configuration.Allows fun op => op.makesLoggers = true)
    {entry : NamedSettings} (hentry : entry ∈ conf.settings.loggers) :
    ∃ t n, (logger entry.name s.tree).answeredBy conf.configuration.answer = (t, some n) ∧
      (t.name n).toList = (if entry.name.toList.head? = some '.' then ['.'] else []) ++
        (if entry.name.toList.getLast? = some '.' then entry.name.toList.dropLast
          else entry.name.toList) ∧
      conf.Carries t n ((conf.settings.lookup (t.name n)).getD {}) ∧
      (t.name n = entry.name ↔ Name.IsRegular entry.name) ∧
      (Name.IsRegular entry.name → conf.Carries t n entry.settings) := by
  -- the name of the node follows from the path that the look-up took
  obtain ⟨hnamed, hlookup⟩ := TreeSettings.lookup_of_validate hvalid hentry
  obtain ⟨t, n, hrun, hwf, hmade, hattached, hpath⟩ :=
    answeredBy_logger hs.reachable hs.asMade entry.name
  have hname : t.name n = Name.full (Name.segments entry.name) := by
    rw [hwf.shaped.name_eq hattached.exists, hpath]
  have hregular : t.name n = entry.name ↔ Name.IsRegular entry.name := by
    rw [hname, Name.full_segments_eq_self_iff]
  -- an entry has a name, so its logger is not the root's
  have hroot : n ≠ root := by
    rintro rfl
    rw [hwf.shaped.path_root, eq_comm, Name.segments_eq_nil_iff] at hpath
    exact hnamed hpath
  have hcarries := carries_lookup hwf hmade hattached hroot
  refine ⟨t, n, hrun, ?_, hcarries, hregular, ?_⟩
  · rw [hname, Name.toList_full_segments]
  · intro h
    rw [hregular.2 h, hlookup] at hcarries
    exact hcarries

/-- Settings for one logger, whose name is regular; one of its handlers is not registered. -/
def namedRegularly : Configurator where
  settings := { loggers := [⟨"a.b", { level := some .debug
                                      minimum := some .info
                                      handlers := ["file", "syslog", "file"] }⟩] }
  registered := [("file", ⟨1, "file"⟩)]

/-- They take effect. -/
theorem logger_carries_namedRegularly :
    ∃ t n, (logger "a.b" (Situation.initial namedRegularly.configuration).tree).answeredBy
        namedRegularly.configuration.answer = (t, some n) ∧ t.name n = "a.b" ∧
      (t.node? n).map (·.level) = some (some .debug) ∧ t.minimum n = Level.info.value ∧
      namedRegularly.configuration.handlersOf t n = some [⟨1, "file"⟩, ⟨1, "file"⟩] := by
  have hnew : (Situation.initial namedRegularly.configuration).ReachableBy
      namedRegularly.configuration.Allows fun op => op.makesLoggers = true :=
    .start (Configuration.allows_answer _ _) (Configuration.allows_answer _ _)
  obtain ⟨t, n, hrun, -, -, hname, hcarries⟩ :=
    logger_carries (show namedRegularly.settings.validate = .ok () from rfl) hnew
      (List.mem_singleton_self _)
  have hregular : Name.IsRegular "a.b" := by decide +kernel
  obtain ⟨hlevel, ⟨p, -, hminimum⟩, hhandlers⟩ := hcarries hregular
  exact ⟨t, n, hrun, hname.2 hregular, hlevel, hminimum, hhandlers⟩

/-- Settings for one logger, whose name ends with a dot. -/
def namedWithFinalDot : Configurator where
  settings := { loggers := [⟨"a.", { level := some .debug }⟩] }

/-- They are valid and have no effect: what is handed out for that name is the logger `a`. -/
theorem not_carries_namedWithFinalDot :
    let conf := namedWithFinalDot
    let s := Situation.initial conf.configuration
    conf.settings.validate = .ok () ∧
      s.ReachableBy conf.configuration.Allows (fun op => op.makesLoggers = true) ∧
      ¬ ∀ entry ∈ conf.settings.loggers, ∃ t n,
        (logger entry.name s.tree).answeredBy conf.configuration.answer = (t, some n) ∧
          conf.Carries t n entry.settings := by
  intro conf s
  refine ⟨rfl, .start (Configuration.allows_answer _ _) (Configuration.allows_answer _ _), ?_⟩
  intro h
  obtain ⟨t, n, hrun, hlevel, -⟩ := h _ (List.mem_singleton_self _)
  let run := (logger "a." s.tree).answeredBy conf.configuration.answer
  have hunset : run.2.map (fun n => (run.1.node? n).map (·.level)) = some (some none) := by
    decide +kernel
  have hend : run = (t, some n) := hrun
  rw [hend, Option.map_some, hlevel] at hunset
  exact absurd hunset (by simp)

end Configurator

end LoggerHierarchy
