import LoggerHierarchy.Event

namespace LoggerHierarchy

/-!
# Dialogues with the outside

An operation of this library may call code that it does not own: a handler, a filter, a
configuration.  Such code may use the library again before it answers.  A `Dialogue` makes each of
these calls visible as a question, together with the state that the outside finds then; the answer
comes with the state that the outside leaves behind.

* `Protocol` — the questions that may be asked and the answers they have;
* `Dialogue` — a run up to its next question, or its end;
* `Program` — a dialogue for each state it may start in, with the usual sequencing;
* `Dialogue.ensure` — a last change of the state, made however the dialogue ends;
* `Dialogue.within` — a dialogue about a part of a larger state.
-/

/-- The questions that may be asked of the outside, and the answers to each. -/
structure Protocol where
  Question : Type
  Answer : Question → Type

/-- A run over states `σ` that ends with an `α`. -/
inductive Dialogue (P : Protocol) (σ α : Type) where
  /-- The run has ended. -/
  | done (state : σ) (result : α)
  /-- Code from the outside has panicked and nothing here stops the panic. -/
  | aborted (state : σ)
  /-- The run announces an event and goes on. -/
  | announce (event : Event) (next : Dialogue P σ α)
  /-- The run waits for the answer to a question.  The outside finds `state` and may change it. -/
  | ask (state : σ) (question : P.Question) (resume : σ → P.Answer question → Dialogue P σ α)

namespace Dialogue

variable {P Q : Protocol} {σ τ α β : Type}

/-- What follows a run that ends well. -/
def bind : Dialogue P σ α → (σ → α → Dialogue P σ β) → Dialogue P σ β
  | done s a, k => k s a
  | aborted s, _ => aborted s
  | announce e d, k => announce e (d.bind k)
  | ask s q resume, k => ask s q fun s a => (resume s a).bind k

/-- A last change of the state, made whether the run ends well or is aborted. -/
def ensure (f : σ → σ) : Dialogue P σ α → Dialogue P σ α
  | done s a => done (f s) a
  | aborted s => aborted (f s)
  | announce e d => announce e (d.ensure f)
  | ask s q resume => ask s q fun s a => (resume s a).ensure f

/-- The way from a part `σ` of a state `τ`, and from the part's questions, to the whole. -/
structure Embedding (P Q : Protocol) (σ τ : Type) where
  get : τ → σ
  set : τ → σ → τ
  question : P.Question → Q.Question
  answer : (q : P.Question) → Q.Answer (question q) → P.Answer q

/-- A run over a part of the state, as a run over the whole: after each answer the part is read
    afresh from what the outside left. -/
def within (E : Embedding P Q σ τ) (whole : τ) : Dialogue P σ α → Dialogue Q τ α
  | done s a => done (E.set whole s) a
  | aborted s => aborted (E.set whole s)
  | announce e d => announce e (d.within E whole)
  | ask s q resume =>
    ask (E.set whole s) (E.question q) fun whole a =>
      (resume (E.get whole) (E.answer q a)).within E whole

@[simp] theorem bind_done (s : σ) (a : α) (k : σ → α → Dialogue P σ β) :
    (done s a).bind k = k s a := rfl

@[simp] theorem bind_aborted (s : σ) (k : σ → α → Dialogue P σ β) :
    (aborted s).bind k = aborted s := rfl

@[simp] theorem bind_announce (e : Event) (d : Dialogue P σ α) (k : σ → α → Dialogue P σ β) :
    (announce e d).bind k = announce e (d.bind k) := rfl

@[simp] theorem bind_ask (s : σ) (q : P.Question) (resume : σ → P.Answer q → Dialogue P σ α)
    (k : σ → α → Dialogue P σ β) :
    (ask s q resume).bind k = ask s q fun s a => (resume s a).bind k := rfl

/-- Ending at once is neutral on the right. -/
@[simp] theorem bind_done_right (d : Dialogue P σ α) : d.bind done = d := by
  induction d with
  | done | aborted => rfl
  | announce e d ih => simp [ih]
  | ask s q resume ih => simp [ih]

/-- Sequencing is associative. -/
theorem bind_assoc {γ : Type} (d : Dialogue P σ α) (k : σ → α → Dialogue P σ β)
    (l : σ → β → Dialogue P σ γ) :
    (d.bind k).bind l = d.bind fun s a => (k s a).bind l := by
  induction d with
  | done | aborted => rfl
  | announce e d ih => simp [ih]
  | ask s q resume ih => simp [ih]

end Dialogue

/-- A run for each state it may start in. -/
def Program (P : Protocol) (σ α : Type) : Type :=
  σ → Dialogue P σ α

namespace Program

variable {P Q : Protocol} {σ τ α β : Type}

instance : Monad (Program P σ) where
  pure a := fun s => .done s a
  bind p k := fun s => (p s).bind fun s a => k a s

instance : MonadStateOf σ (Program P σ) where
  get := fun s => .done s s
  set s := fun _ => .done s ()
  modifyGet f := fun s => let (a, s) := f s; .done s a

instance : LawfulMonad (Program P σ) :=
  LawfulMonad.mk' _ (fun p => funext fun s => Dialogue.bind_done_right (p s)) (fun _ _ => rfl)
    fun p _ _ => funext fun s => Dialogue.bind_assoc (p s) _ _

/-- Announces an event. -/
def announce (event : Event) : Program P σ Unit := fun s => .announce event (.done s ())

/-- Asks the outside. -/
def ask (question : P.Question) : Program P σ (P.Answer question) :=
  fun s => .ask s question .done

/-- Lets a panic from the outside pass. -/
def abort : Program P σ α := .aborted

/-- Makes a last change of the state, however the program ends. -/
def ensuring (p : Program P σ α) (f : σ → σ) : Program P σ α := fun s => (p s).ensure f

/-- The program on a part of the state. -/
def within (E : Dialogue.Embedding P Q σ τ) (p : Program P σ α) : Program Q τ α :=
  fun whole => (p (E.get whole)).within E whole

@[simp] theorem pure_apply (a : α) (s : σ) : (pure a : Program P σ α) s = .done s a := rfl

@[simp] theorem bind_apply (p : Program P σ α) (k : α → Program P σ β) (s : σ) :
    (p >>= k) s = (p s).bind fun s a => k a s := rfl

@[simp] theorem get_apply (s : σ) : (get : Program P σ σ) s = .done s s := rfl

@[simp] theorem set_apply (t s : σ) : (set t : Program P σ PUnit) s = .done t ⟨⟩ := rfl

@[simp] theorem modify_apply (f : σ → σ) (s : σ) :
    (modify f : Program P σ PUnit) s = .done (f s) ⟨⟩ := rfl

@[simp] theorem announce_apply (e : Event) (s : σ) :
    (announce e : Program P σ Unit) s = .announce e (.done s ()) := rfl

@[simp] theorem ask_apply (q : P.Question) (s : σ) :
    (ask q : Program P σ _) s = .ask s q .done := rfl

@[simp] theorem abort_apply (s : σ) : (abort : Program P σ α) s = .aborted s := rfl

end Program

end LoggerHierarchy
