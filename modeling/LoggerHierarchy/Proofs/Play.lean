import LoggerHierarchy.Proofs.Contract
import Mathlib.Logic.Function.Basic

namespace LoggerHierarchy.Dialogue

/-!
# Plays of a dialogue

A dialogue against an outside that is free to change the state before it answers, and free to
remember what happened to it before:

* `Outside` — how the outside answers, with a memory of its own;
* `Move` — what is seen of a run: an event, or a question with its answer and with the states that
  the outside found and left;
* `play` — the run of a dialogue to its end, which it always reaches, since a dialogue is finite
  whatever is answered;
* `play_bind`, `play_ensure` — the rules for sequencing and for a last change;
* `Play.questions` — what was asked in a run;
* `Keeps.play` — what a contract says of the end of a run;
* `Told` — answers that are those of a run; `exists_told`, `answeredBy_of_told` — a run in which no
  question is asked twice has such answers, and they tell where it ends if the outside does nothing
  but answer;
* `Returns` — a dialogue is never aborted, whatever is answered, and asks only what it may.
-/

/-- How the outside answers, with a memory `ω` of its own: it may change the state before. -/
abbrev Outside (P : Protocol) (σ ω : Type) : Type :=
  (q : P.Question) → σ → ω → P.Answer q × σ × ω

/-- What is seen of a run. -/
inductive Move (P : Protocol) (σ : Type) where
  | announced (event : Event)
  | asked (found : σ) (question : P.Question) (answer : P.Answer question) (left : σ)

/-- The question of a move, if it is one. -/
def Move.question? {P : Protocol} {σ : Type} : Move P σ → Option P.Question
  | announced _ => none
  | asked _ q _ _ => some q

/-- A run to its end. -/
structure Play (P : Protocol) (σ ω α : Type) where
  moves : List (Move P σ)
  /-- What the run ended with, none if it was aborted. -/
  result : Option α
  state : σ
  memory : ω

variable {P : Protocol} {σ ω α β : Type}

namespace Play

/-- What was asked, in the order of the run. -/
def questions (p : Play P σ ω α) : List P.Question :=
  p.moves.filterMap Move.question?

/-- A run with one more move before it. -/
def after (p : Play P σ ω α) (move : Move P σ) : Play P σ ω α :=
  { p with moves := move :: p.moves }

/-- A run with what follows it if it ends well. -/
def bind (p : Play P σ ω α) (k : σ → α → ω → Play P σ ω β) : Play P σ ω β :=
  match p.result with
  | none => ⟨p.moves, none, p.state, p.memory⟩
  | some a =>
    let rest := k p.state a p.memory
    { rest with moves := p.moves ++ rest.moves }

/-- A play that has ended is continued with its result, from its state and memory. -/
theorem bind_of_result {p : Play P σ ω α} {a : α} (h : p.result = some a)
    (k : σ → α → ω → Play P σ ω β) :
    p.bind k = { k p.state a p.memory with moves := p.moves ++ (k p.state a p.memory).moves } := by
  simp only [bind, h]

/-- After an abort nothing more is played. -/
theorem bind_of_aborted {p : Play P σ ω α} (h : p.result = none)
    (k : σ → α → ω → Play P σ ω β) :
    p.bind k = ⟨p.moves, none, p.state, p.memory⟩ := by
  simp only [bind, h]

/-- A move that was made first stays the first. -/
theorem bind_after (p : Play P σ ω α) (move : Move P σ) (k : σ → α → ω → Play P σ ω β) :
    (p.after move).bind k = (p.bind k).after move := by
  cases h : p.result with
  | none =>
    rw [bind_of_aborted h, bind_of_aborted (show (p.after move).result = none from h)]
    rfl
  | some a =>
    rw [bind_of_result h, bind_of_result (show (p.after move).result = some a from h)]
    rfl

end Play

/-- The run of a dialogue against the outside. -/
def play (outside : Outside P σ ω) : Dialogue P σ α → ω → Play P σ ω α
  | done s a, w => ⟨[], some a, s, w⟩
  | aborted s, w => ⟨[], none, s, w⟩
  | announce e d, w => (d.play outside w).after (.announced e)
  | ask s q resume, w =>
    let (a, u, w) := outside q s w
    ((resume u a).play outside w).after (.asked s q a u)

variable {outside : Outside P σ ω}

@[simp] theorem play_done (s : σ) (a : α) (w : ω) :
    (done s a : Dialogue P σ α).play outside w = ⟨[], some a, s, w⟩ := rfl

@[simp] theorem play_aborted (s : σ) (w : ω) :
    (aborted s : Dialogue P σ α).play outside w = ⟨[], none, s, w⟩ := rfl

@[simp] theorem play_announce (e : Event) (d : Dialogue P σ α) (w : ω) :
    (announce e d).play outside w = (d.play outside w).after (.announced e) := rfl

/-- A question is a move, with the answer of the outside and the state that it leaves. -/
theorem play_ask (s : σ) (q : P.Question) (resume : σ → P.Answer q → Dialogue P σ α) (w : ω) :
    (ask s q resume).play outside w =
      ((resume (outside q s w).2.1 (outside q s w).1).play outside (outside q s w).2.2).after
        (.asked s q (outside q s w).1 (outside q s w).2.1) := rfl

/-- A dialogue that begins with a question goes on from what the outside has made of the state. -/
theorem play_of_ask {d : Dialogue P σ α} {s u : σ} {q : P.Question} {a : P.Answer q} {w w' : ω}
    {resume : σ → P.Answer q → Dialogue P σ α} (hask : d = ask s q resume)
    (hanswer : outside q s w = (a, u, w')) :
    d.play outside w = ((resume u a).play outside w').after (.asked s q a u) := by
  rw [hask, play_ask, hanswer]

/-- What follows a dialogue is played from where that one ends. -/
theorem play_bind (d : Dialogue P σ α) (k : σ → α → Dialogue P σ β) (w : ω) :
    (d.bind k).play outside w =
      (d.play outside w).bind fun s a w => (k s a).play outside w := by
  induction d generalizing w with
  | done s a => rfl
  | aborted s => rfl
  | announce e d ih => rw [bind_announce, play_announce, play_announce, ih, Play.bind_after]
  | ask s q resume ih => rw [bind_ask, play_ask, play_ask, ih, Play.bind_after]

/-- What a contract says of the end, if the outside keeps the other side of it. -/
theorem Keeps.play {C : Contract P σ} {post : σ → Option α → Prop} {d : Dialogue P σ α} {s : σ}
    (hworld : ∀ q s u w, C.guarantee s u → C.rely q u (outside q u w).2.1 (outside q u w).1)
    (h : d.Keeps C post s) (w : ω) :
    post (d.play outside w).state (d.play outside w).result := by
  induction d generalizing s w with
  | done u a => exact h.2
  | aborted u => exact h.2
  | announce e d ih => exact ih h w
  | ask u q resume ih => exact ih _ _ (h.2 _ _ (hworld q s u w h.1)) _

/-- A last change is made to the state at the end. -/
theorem play_ensure (d : Dialogue P σ α) (f : σ → σ) (w : ω) :
    (d.ensure f).play outside w =
      { d.play outside w with state := f (d.play outside w).state } := by
  induction d generalizing w with
  | done s a => rfl
  | aborted s => rfl
  | announce e d ih => rw [ensure, play_announce, ih]; rfl
  | ask s q resume ih => rw [ensure, play_ask, ih]; rfl

/-! ### Answers that tell a run -/

/-- Whether all that was answered is what `answer` says. -/
def Told (answer : (q : P.Question) → P.Answer q) (moves : List (Move P σ)) : Prop :=
  ∀ s q a u, .asked s q a u ∈ moves → a = answer q

/-- Whether the outside left every state as it found it. -/
def Still (moves : List (Move P σ)) : Prop :=
  ∀ s q a u, Move.asked s q a u ∈ moves → u = s

/-- The questions of some moves are those that were asked, whatever was answered. -/
theorem mem_questions_iff {moves : List (Move P σ)} {q : P.Question} :
    q ∈ moves.filterMap Move.question? ↔ ∃ s a u, Move.asked s q a u ∈ moves := by
  rw [List.mem_filterMap]
  constructor
  · rintro ⟨move, hmove, hquestion⟩
    cases move with
    | announced e => cases hquestion
    | asked s q' a u =>
      cases hquestion
      exact ⟨s, a, u, hmove⟩
  · rintro ⟨s, a, u, hmove⟩
    exact ⟨_, hmove, rfl⟩

/-- Where no question is asked twice, some answers are those of the run; the others are free. -/
theorem exists_told [DecidableEq P.Question] (base : (q : P.Question) → P.Answer q)
    {moves : List (Move P σ)} (hnodup : (moves.filterMap Move.question?).Nodup) :
    ∃ answer, Told answer moves ∧
      ∀ q, q ∉ moves.filterMap Move.question? → answer q = base q := by
  induction moves with
  | nil => exact ⟨base, fun s q a u hmove => absurd hmove List.not_mem_nil, fun _ _ => rfl⟩
  | cons move moves ih =>
    cases move with
    | announced e =>
      obtain ⟨answer, htold, hbase⟩ := ih hnodup
      exact ⟨answer, fun s q a u hmove => htold s q a u (by simpa using hmove), hbase⟩
    | asked s q a u =>
      obtain ⟨hnew, hrest⟩ := List.nodup_cons.1 hnodup
      obtain ⟨answer, htold, hbase⟩ := ih hrest
      refine ⟨Function.update answer q a, fun s' q' a' u' hmove => ?_, fun q' hq' => ?_⟩
      · obtain hfirst | hlater := List.mem_cons.1 hmove
        · cases hfirst
          exact (Function.update_self ..).symm
        · -- this question is another one, for it comes again later
          have hne : q' ≠ q := by
            rintro rfl
            exact hnew (mem_questions_iff.2 ⟨s', a', u', hlater⟩)
          rw [Function.update_of_ne hne]
          exact htold s' q' a' u' hlater
      · obtain ⟨hne, hq'⟩ : q' ≠ q ∧ q' ∉ moves.filterMap Move.question? := by
          simpa [Move.question?] using hq'
        rw [Function.update_of_ne hne]
        exact hbase q' hq'

/-- A run whose outside does nothing but answer ends where its answers lead. -/
theorem answeredBy_of_told {answer : (q : P.Question) → P.Answer q} (d : Dialogue P σ α) (w : ω)
    (hstill : Still (d.play outside w).moves) (htold : Told answer (d.play outside w).moves) :
    d.answeredBy answer = ((d.play outside w).state, (d.play outside w).result) := by
  induction d generalizing w with
  | done s a => rfl
  | aborted s => rfl
  | announce e d ih =>
    exact ih w (fun s q a u hmove => hstill s q a u (List.mem_cons_of_mem _ hmove))
      fun s q a u hmove => htold s q a u (List.mem_cons_of_mem _ hmove)
  | ask s q resume ih =>
    rw [play_ask] at hstill htold ⊢
    have hsame := hstill _ _ _ _ List.mem_cons_self
    have hsaid := htold _ _ _ _ List.mem_cons_self
    have hrest := ih _ _ _ (fun s q a u hmove => hstill s q a u (List.mem_cons_of_mem _ hmove))
      fun s q a u hmove => htold s q a u (List.mem_cons_of_mem _ hmove)
    rw [answeredBy_ask, ← hsaid]
    rw [hsame] at hrest ⊢
    exact hrest

/-! ### Dialogues that are never aborted -/

/-- Whether a dialogue ends with a result, whatever is answered, and asks only questions that are
    allowed. -/
def Returns (allowed : P.Question → Prop) : Dialogue P σ α → Prop
  | done _ _ => True
  | aborted _ => False
  | announce _ d => d.Returns allowed
  | ask _ q resume => allowed q ∧ ∀ s a, (resume s a).Returns allowed

namespace Returns

variable {allowed : P.Question → Prop} {d : Dialogue P σ α}

/-- A dialogue that returns may be continued by others that return. -/
theorem bind {k : σ → α → Dialogue P σ β} (h : d.Returns allowed)
    (hk : ∀ s a, (k s a).Returns allowed) : (d.bind k).Returns allowed := by
  induction d with
  | done s a => exact hk s a
  | aborted s => exact h.elim
  | announce e d ih => exact ih h
  | ask s q resume ih => exact ⟨h.1, fun s a => ih s a (h.2 s a)⟩

/-- A clean-up at the end aborts nothing. -/
theorem ensure {f : σ → σ} (h : d.Returns allowed) : (d.ensure f).Returns allowed := by
  induction d with
  | done s a => trivial
  | aborted s => exact h.elim
  | announce e d ih => exact ih h
  | ask s q resume ih => exact ⟨h.1, fun s a => ih s a (h.2 s a)⟩

/-- Whatever the outside answers, there is a result. -/
theorem exists_result (h : d.Returns allowed) (outside : Outside P σ ω) (w : ω) :
    ∃ a, (d.play outside w).result = some a := by
  induction d generalizing w with
  | done s a => exact ⟨a, rfl⟩
  | aborted s => exact h.elim
  | announce e d ih => exact ih h w
  | ask s q resume ih => exact ih _ _ (h.2 _ _) _

/-- All questions of a play are allowed ones. -/
theorem allowed_of_mem (h : d.Returns allowed) (outside : Outside P σ ω) (w : ω) {s u : σ}
    {q : P.Question} {a : P.Answer q} (hmove : .asked s q a u ∈ (d.play outside w).moves) :
    allowed q := by
  induction d generalizing w with
  | done s a => exact absurd hmove List.not_mem_nil
  | aborted s => exact h.elim
  | announce e d ih =>
    obtain hmove | hmove := List.mem_cons.1 hmove
    · exact absurd hmove (by simp)
    · exact ih h w hmove
  | ask s' q' resume ih =>
    obtain hmove | hmove := List.mem_cons.1 hmove
    · cases hmove
      exact h.1
    · exact ih _ _ (h.2 _ _) _ hmove

end Returns

end LoggerHierarchy.Dialogue
