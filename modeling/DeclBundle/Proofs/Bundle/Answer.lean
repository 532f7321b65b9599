import DeclBundle.System
set_option autoImplicit false

/-!
# Answers and what is left

A computation on a state gives an answer and leaves a state, and the two can be looked at apart
(`answer_bind`, `after_bind`).  A relation between states that can be followed along holds from the
first state to the last one if it holds across every step (`Carries.bind`).
-/

namespace DeclBundle.Bundle

variable {σ α β : Type}

/-- What a computation gives. -/
def answer (x : EStateM Fault σ α) (s : σ) : Except Fault α :=
  match x s with
  | .ok a _ => .ok a
  | .error e _ => .error e

/-- What a computation leaves, whatever it gives. -/
def after (x : EStateM Fault σ α) (s : σ) : σ :=
  match x s with
  | .ok _ s => s
  | .error _ s => s

theorem answer_eq_ok_iff {x : EStateM Fault σ α} {s : σ} {a : α} :
    answer x s = .ok a ↔ x s = .ok a (after x s) := by
  unfold answer after
  cases x s <;> simp

/-- A computation that gives an answer ends with it. -/
theorem exists_of_answer {x : EStateM Fault σ α} {s : σ} {a : α}
    (h : (answer x s).toOption = some a) : ∃ last, x s = .ok a last := by
  cases hanswer : answer x s with
  | error e =>
    rw [hanswer] at h
    cases h
  | ok b =>
    rw [hanswer] at h
    obtain rfl := Option.some.inj h
    exact ⟨_, answer_eq_ok_iff.1 hanswer⟩

theorem answer_bind (x : EStateM Fault σ α) (f : α → EStateM Fault σ β) (s : σ) :
    answer (x >>= f) s = (answer x s >>= fun a => answer (f a) (after x s)) := by
  simp only [answer, after, bind, EStateM.bind, Except.bind]
  cases x s <;> rfl

theorem after_bind (x : EStateM Fault σ α) (f : α → EStateM Fault σ β) (s : σ) :
    after (x >>= f) s =
      match answer x s with
      | .ok a => after (f a) (after x s)
      | .error _ => after x s := by
  simp only [answer, after, bind, EStateM.bind]
  cases x s <;> rfl

theorem answer_pure (a : α) (s : σ) : answer (pure a) s = .ok a := rfl

theorem ok_bind (a : α) (f : α → Except Fault β) : (Except.ok a >>= f) = f a := rfl

/-! ## Relations that are carried along -/

/-- Whether a relation between states can be followed along: it holds from each to itself, and from
the first of three to the last. -/
structure IsCourse (R : σ → σ → Prop) : Prop where
  refl : ∀ s, R s s
  trans : ∀ {a b c}, R a b → R b c → R a c

/-- A view of states that stays the same can be followed along. -/
theorem isCourse_view {ν : Type} (view : σ → ν) : IsCourse fun s s' => view s' = view s where
  refl _ := rfl
  trans h h' := h'.trans h

/-- Whether a relation holds from what a computation finds to what it leaves. -/
def Carries (R : σ → σ → Prop) (x : EStateM Fault σ α) : Prop :=
  ∀ s, R s (after x s)

section

variable {R : σ → σ → Prop}

theorem carries_pure (hR : IsCourse R) (a : α) : Carries R (pure a) :=
  hR.refl

theorem carries_throw (hR : IsCourse R) (e : Fault) : Carries R (throw e : EStateM Fault σ α) :=
  hR.refl

theorem carries_get (hR : IsCourse R) : Carries R get :=
  hR.refl

theorem Carries.bind (hR : IsCourse R) {x : EStateM Fault σ α} {f : α → EStateM Fault σ β}
    (hx : Carries R x) (hf : ∀ a, Carries R (f a)) : Carries R (x >>= f) := by
  intro s
  rw [after_bind]
  cases answer x s with
  | ok a => exact hR.trans (hx s) (hf a _)
  | error e => exact hx s

theorem carries_forM (hR : IsCourse R) {f : α → EStateM Fault σ Unit} (hf : ∀ a, Carries R (f a))
    (as : List α) : Carries R (as.forM f) := by
  induction as with
  | nil => exact carries_pure hR ()
  | cons a as ih => exact (hf a).bind hR fun _ => ih

end

/-- Whether a computation leaves what it finds, as far as a view of the state shows. -/
def Preserves {ν : Type} (view : σ → ν) (x : EStateM Fault σ α) : Prop :=
  ∀ s, view (after x s) = view s

end DeclBundle.Bundle
