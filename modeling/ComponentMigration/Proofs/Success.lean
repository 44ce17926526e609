import Mathlib.Data.List.Forall2
import Mathlib.Tactic.Lemma

/-!
Computations that may fail, and when they succeed.

* **Success.** `Succeeds x` says that `x` has a value. `succeeds_bind_iff` and
  `succeeds_mapM_iff` take a computation apart into its steps.
* **Values.** `bind_eq_ok` and `mapM_eq_ok` say which value comes out.
* **Failures.** `FailsOnly P x` says that no failure of `x` breaks `P`. A computation inherits
  that from its steps.
-/

namespace ComponentMigration

variable {ε ε' α β : Type}

/-- A computation that does not fail. -/
def Succeeds (x : Except ε α) : Prop := ∃ a, x = .ok a

@[simp] lemma succeeds_ok (a : α) : Succeeds (.ok a : Except ε α) := ⟨a, rfl⟩

@[simp] lemma succeeds_pure (a : α) : Succeeds (pure a : Except ε α) := ⟨a, rfl⟩

@[simp] lemma not_succeeds_error (e : ε) : ¬ Succeeds (.error e : Except ε α) := by
  rintro ⟨a, h⟩
  cases h

instance : DecidablePred (Succeeds : Except ε α → Prop)
  | .ok a => isTrue (succeeds_ok a)
  | .error e => isFalse (not_succeeds_error e)

/-- Two steps give a value if the first gives one and the second goes on from it. -/
lemma bind_eq_ok {x : Except ε α} {f : α → Except ε β} {b : β} :
    x >>= f = .ok b ↔ ∃ a, x = .ok a ∧ f a = .ok b := by
  cases x with
  | error e => simp [bind, Except.bind]
  | ok a => simp [bind, Except.bind]

/-- A first step with a value goes on from it. -/
lemma ok_bind (a : α) (f : α → Except ε β) : (.ok a >>= f : Except ε β) = f a := rfl

lemma pure_eq_ok {a b : α} : (pure a : Except ε α) = .ok b ↔ b = a := by
  simp [pure, Except.pure, eq_comm]

lemma succeeds_bind_iff {x : Except ε α} {f : α → Except ε β} :
    Succeeds (x >>= f) ↔ ∃ a, x = .ok a ∧ Succeeds (f a) := by
  simp only [Succeeds, bind_eq_ok]
  constructor
  · rintro ⟨b, a, hx, hf⟩
    exact ⟨a, hx, b, hf⟩
  · rintro ⟨a, hx, b, hf⟩
    exact ⟨b, a, hx, hf⟩

/-- If the second step does not depend on the value of the first, both count. -/
lemma succeeds_bind_and {x : Except ε α} {f : α → Except ε β} {p : Prop}
    (hf : ∀ a, Succeeds (f a) ↔ p) : Succeeds (x >>= f) ↔ Succeeds x ∧ p := by
  rw [succeeds_bind_iff]
  exact ⟨fun ⟨a, hx, h⟩ => ⟨⟨a, hx⟩, (hf a).mp h⟩, fun ⟨⟨a, hx⟩, h⟩ => ⟨a, hx, (hf a).mpr h⟩⟩

/-- If the second step never fails, only the first counts. -/
lemma succeeds_bind_of_forall {x : Except ε α} {f : α → Except ε β} (hf : ∀ a, Succeeds (f a)) :
    Succeeds (x >>= f) ↔ Succeeds x := by
  rw [succeeds_bind_and fun a => iff_true_intro (hf a), and_true]

/-- Renaming the failure does not touch the value. -/
lemma mapError_eq_ok {x : Except ε α} {g : ε → ε'} {a : α} :
    x.mapError g = .ok a ↔ x = .ok a := by
  cases x <;> simp [Except.mapError]

/-- Renaming the failure renames it. -/
lemma mapError_eq_error {x : Except ε α} {g : ε → ε'} {e : ε'} :
    x.mapError g = .error e ↔ ∃ e', x = .error e' ∧ g e' = e := by
  cases x <;> simp [Except.mapError]

/-- A list of steps gives the list of their values. -/
lemma mapM_eq_ok {f : α → Except ε β} {xs : List α} {ys : List β} :
    xs.mapM f = .ok ys ↔ List.Forall₂ (fun x y => f x = .ok y) xs ys := by
  induction xs generalizing ys with
  | nil => cases ys <;> simp [pure, Except.pure]
  | cons x xs ih =>
      rw [List.mapM_cons, bind_eq_ok]
      simp only [bind_eq_ok, ih]
      constructor
      · rintro ⟨y, hy, ys', hys, h⟩
        cases h
        exact .cons hy hys
      · rintro (_ | ⟨hy, hys⟩)
        exact ⟨_, hy, _, hys, rfl⟩

/-- A list of steps succeeds if every one of them does. -/
lemma succeeds_mapM_iff {f : α → Except ε β} {xs : List α} :
    Succeeds (xs.mapM f) ↔ ∀ x ∈ xs, Succeeds (f x) := by
  induction xs with
  | nil => simp
  | cons x xs ih =>
      rw [List.mapM_cons, succeeds_bind_iff, List.forall_mem_cons, ← ih]
      constructor
      · rintro ⟨y, hy, h⟩
        exact ⟨⟨y, hy⟩, (succeeds_bind_of_forall fun _ => succeeds_pure _).mp h⟩
      · rintro ⟨⟨y, hy⟩, h⟩
        exact ⟨y, hy, (succeeds_bind_of_forall fun _ => succeeds_pure _).mpr h⟩

/-! ### Failures -/

/-- A computation whose failure, if it fails, satisfies `P`. -/
def FailsOnly (P : ε → Prop) (x : Except ε α) : Prop := ∀ e, x = .error e → P e

namespace FailsOnly

variable {P : ε → Prop}

@[simp] lemma ok (a : α) : FailsOnly P (.ok a : Except ε α) := fun _ h => nomatch h

@[simp] lemma pure (a : α) : FailsOnly P (pure a : Except ε α) := fun _ h => nomatch h

lemma error {e : ε} (h : P e) : FailsOnly P (.error e : Except ε α) := by
  rintro _ ⟨⟩
  exact h

/-- Two steps fail as the first, or as the second with a value of the first. -/
lemma bind {x : Except ε α} {f : α → Except ε β} (hx : FailsOnly P x)
    (hf : ∀ a, x = .ok a → FailsOnly P (f a)) : FailsOnly P (x >>= f) := by
  cases x with
  | error e => exact error (hx e rfl)
  | ok a => exact hf a rfl

/-- A list of steps fails as one of them. -/
lemma mapM {f : α → Except ε β} {xs : List α} (hf : ∀ x ∈ xs, FailsOnly P (f x)) :
    FailsOnly P (xs.mapM f) := by
  induction xs with
  | nil => exact pure []
  | cons x xs ih =>
      obtain ⟨hx, hxs⟩ := List.forall_mem_cons.mp hf
      rw [List.mapM_cons]
      exact hx.bind fun _ _ => (ih hxs).bind fun _ _ => pure _

/-- Steps that go on from each other fail as one of them. -/
lemma foldlM {f : β → α → Except ε β} {xs : List α} (hf : ∀ x ∈ xs, ∀ b, FailsOnly P (f b x))
    (b : β) : FailsOnly P (xs.foldlM f b) := by
  induction xs generalizing b with
  | nil => exact pure b
  | cons x xs ih =>
      obtain ⟨hx, hxs⟩ := List.forall_mem_cons.mp hf
      rw [List.foldlM_cons]
      exact (hx b).bind fun b' _ => ih hxs b'

/-- What fails only with `P` keeps to all that follows from `P`. -/
lemma mono {Q : ε → Prop} {x : Except ε α} (hx : FailsOnly P x) (h : ∀ e, P e → Q e) :
    FailsOnly Q x := fun e he => h e (hx e he)

/-- A mapped value fails as before. -/
lemma map {x : Except ε α} {g : α → β} (hx : FailsOnly P x) : FailsOnly P (x.map g) := by
  cases x with
  | error e => exact error (hx e rfl)
  | ok a => exact ok _

/-- A renamed failure satisfies what the names do. -/
lemma mapError {x : Except ε' α} {g : ε' → ε} (hg : ∀ e, P (g e)) :
    FailsOnly P (x.mapError g) := by
  intro e h
  obtain ⟨e', -, rfl⟩ := mapError_eq_error.mp h
  exact hg e'

end FailsOnly

end ComponentMigration
