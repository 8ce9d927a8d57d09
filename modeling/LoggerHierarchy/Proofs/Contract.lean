import LoggerHierarchy.Dialogue

namespace LoggerHierarchy.Dialogue

/-!
# Contracts between a dialogue and the outside

Rely-guarantee reasoning about dialogues, whose questions may be answered by code that changes the
state first:

* `Contract` — how a dialogue may change the state between two questions, and what the outside may
  do before it answers;
* `Dialogue.Keeps` — a dialogue keeps its side as long as the outside keeps the other, and ends as a
  postcondition says;
* `Keeps.bind`, `Keeps.ensure` — the rules for sequencing and for a last change;
* `answeredBy` — the run of a dialogue whose questions are answered without touching the state;
  `Keeps.answeredBy` — what a contract says of its end.
-/

/-- What a dialogue owes the outside, and what it may expect of it. -/
structure Contract (P : Protocol) (σ : Type) where
  /-- How a dialogue may change the state up to its next question or its end. -/
  guarantee : σ → σ → Prop
  /-- How the outside may change the state before it answers, and what it may answer. -/
  rely : (q : P.Question) → σ → σ → P.Answer q → Prop
  guarantee_trans {s t u : σ} : guarantee s t → guarantee t u → guarantee s u

variable {P Q : Protocol} {σ τ α β : Type} {C : Contract P σ}

/-- Whether a dialogue that goes on from the state `s` keeps the contract and, if it ends, ends as
    `post` says: with its result, or with none if it is aborted. -/
def Keeps (C : Contract P σ) (post : σ → Option α → Prop) : Dialogue P σ α → σ → Prop
  | done u a, s => C.guarantee s u ∧ post u (some a)
  | aborted u, s => C.guarantee s u ∧ post u none
  | announce _ d, s => d.Keeps C post s
  | ask u q resume, s =>
    C.guarantee s u ∧ ∀ v a, C.rely q u v a → (resume v a).Keeps C post v

namespace Keeps

variable {post mid : σ → Option α → Prop} {d : Dialogue P σ α} {s t : σ}

/-- A weaker postcondition. -/
theorem mono {post' : σ → Option α → Prop} (h : d.Keeps C post s)
    (hpost : ∀ u r, post u r → post' u r) : d.Keeps C post' s := by
  induction d generalizing s with
  | done u a => exact ⟨h.1, hpost _ _ h.2⟩
  | aborted u => exact ⟨h.1, hpost _ _ h.2⟩
  | announce e d ih => exact ih h
  | ask u q resume ih => exact ⟨h.1, fun v a hv => ih v a (h.2 v a hv)⟩

/-- A change before the dialogue goes on. -/
theorem after (hst : C.guarantee s t) (h : d.Keeps C post t) : d.Keeps C post s := by
  induction d with
  | done u a => exact ⟨C.guarantee_trans hst h.1, h.2⟩
  | aborted u => exact ⟨C.guarantee_trans hst h.1, h.2⟩
  | announce e d ih => exact ih h
  | ask u q resume _ => exact ⟨C.guarantee_trans hst h.1, h.2⟩

/-- What follows a dialogue starts from where that one ends. -/
theorem bind {post : σ → Option β → Prop} {k : σ → α → Dialogue P σ β}
    (h : d.Keeps C mid s) (hk : ∀ u a, mid u (some a) → (k u a).Keeps C post u)
    (haborted : ∀ u, mid u none → post u none) : (d.bind k).Keeps C post s := by
  induction d generalizing s with
  | done u a => exact after h.1 (hk u a h.2)
  | aborted u => exact ⟨h.1, haborted u h.2⟩
  | announce e d ih => exact ih h
  | ask u q resume ih => exact ⟨h.1, fun v a hv => ih v a (h.2 v a hv)⟩

/-- A last change is made however the dialogue ends. -/
theorem ensure {f : σ → σ} (h : d.Keeps C mid s)
    (hf : ∀ u r, mid u r → C.guarantee u (f u) ∧ post (f u) r) : (d.ensure f).Keeps C post s := by
  induction d generalizing s with
  | done u a => exact ⟨C.guarantee_trans h.1 (hf u _ h.2).1, (hf u _ h.2).2⟩
  | aborted u => exact ⟨C.guarantee_trans h.1 (hf u _ h.2).1, (hf u _ h.2).2⟩
  | announce e d ih => exact ih h
  | ask u q resume ih => exact ⟨h.1, fun v a hv => ih v a (h.2 v a hv)⟩

end Keeps

/-! ### Answers that leave the state alone -/

/-- The state and the result of a dialogue, none if it was aborted, when all that the outside does
    is to answer. -/
def answeredBy (answer : (q : P.Question) → P.Answer q) : Dialogue P σ α → σ × Option α
  | done s a => (s, some a)
  | aborted s => (s, none)
  | announce _ d => d.answeredBy answer
  | ask s q resume => (resume s (answer q)).answeredBy answer

variable {answer : (q : P.Question) → P.Answer q}

@[simp] theorem answeredBy_done (s : σ) (a : α) :
    (done s a : Dialogue P σ α).answeredBy answer = (s, some a) := rfl

@[simp] theorem answeredBy_announce (e : Event) (d : Dialogue P σ α) :
    (announce e d).answeredBy answer = d.answeredBy answer := rfl

@[simp] theorem answeredBy_ask (s : σ) (q : P.Question) (resume : σ → P.Answer q → Dialogue P σ α) :
    (ask s q resume).answeredBy answer = (resume s (answer q)).answeredBy answer := rfl

/-- What follows a dialogue that ends is answered from its end on. -/
theorem answeredBy_bind {d : Dialogue P σ α} {k : σ → α → Dialogue P σ β} {s : σ} {a : α}
    (h : d.answeredBy answer = (s, some a)) :
    (d.bind k).answeredBy answer = (k s a).answeredBy answer := by
  induction d with
  | done u b =>
    obtain ⟨rfl, rfl⟩ : u = s ∧ b = a := by simpa using h
    rfl
  | aborted u => simp [answeredBy] at h
  | announce e d ih => exact ih h
  | ask u q resume ih => exact ih u (answer q) h

/-- What is made of the result of a dialogue asks nobody. -/
theorem answeredBy_bind_done {d : Dialogue P σ α} (f : α → β) :
    (d.bind fun s a => done s (f a)).answeredBy answer =
      ((d.answeredBy answer).1, (d.answeredBy answer).2.map f) := by
  induction d with
  | done u b => rfl
  | aborted u => rfl
  | announce e d ih => exact ih
  | ask u q resume ih => exact ih u (answer q)

/-- A last change is made to the state at the end. -/
theorem answeredBy_ensure {d : Dialogue P σ α} {f : σ → σ} :
    (d.ensure f).answeredBy answer =
      (f (d.answeredBy answer).1, (d.answeredBy answer).2) := by
  induction d with
  | done u b => rfl
  | aborted u => rfl
  | announce e d ih => exact ih
  | ask u q resume ih => exact ih u (answer q)

/-- What a contract says of the end, if answers alone keep its other side. -/
theorem Keeps.answeredBy {post : σ → Option α → Prop} {d : Dialogue P σ α} {s : σ}
    (hrely : ∀ q s u, C.guarantee s u → C.rely q u u (answer q)) (h : d.Keeps C post s) :
    C.guarantee s (d.answeredBy answer).1 ∧
      post (d.answeredBy answer).1 (d.answeredBy answer).2 := by
  induction d generalizing s with
  | done u a => exact h
  | aborted u => exact h
  | announce e d ih => exact ih h
  | ask u q resume ih =>
    obtain ⟨hu, hresume⟩ := h
    obtain ⟨hend, hpost⟩ := ih u (answer q) (hresume u (answer q) (hrely q s u hu))
    exact ⟨C.guarantee_trans hu hend, hpost⟩

end LoggerHierarchy.Dialogue
