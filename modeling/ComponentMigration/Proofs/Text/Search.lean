import ComponentMigration.Text.Basic
import Mathlib.Data.List.TakeWhile
import Mathlib.Tactic.Lemma

/-!
Where a search in a text ends.

* **Runs.** `Runs p s r`: of the text `s ++ r` the longest beginning with `p` is `s`.
* **Occurrences.** `IsFirst p b`: behind `b` the pattern `p` occurs for the first time, whatever
  follows it. This is where a text is cut (`cutAt?_eq_some_iff`).
-/

namespace ComponentMigration.Text

variable {q : Char → Bool} {a b p r r' s t : Text} {c : Char}

-- Only the characters of the text are tried, not all that there are.
instance (t : Text) (q : Char → Prop) [DecidablePred q] : Decidable (∀ c ∈ t, q c) :=
  List.decidableBAll q t

/-! ### Runs -/

/-- Of the text `s ++ r` the longest beginning with `q` is `s`. -/
structure Runs (q : Char → Bool) (s r : Text) : Prop where
  all : ∀ x ∈ s, q x = true
  stops : ∀ x ∈ r.head?, q x = false

lemma runs_takeWhile (q : Char → Bool) (t : Text) : Runs q (t.takeWhile q) (t.dropWhile q) := by
  refine ⟨List.all_eq_true.mp List.all_takeWhile, fun x hx => ?_⟩
  have h := List.head?_dropWhile_not q t
  rw [Option.mem_def.mp hx] at h
  simpa using h

lemma Runs.takeWhile_eq (h : Runs q s r) : (s ++ r).takeWhile q = s := by
  rw [List.takeWhile_append_of_pos h.all]
  cases r with
  | nil => simp
  | cons x r =>
      have hx := h.stops x rfl
      simp [hx]

lemma Runs.dropWhile_eq (h : Runs q s r) : (s ++ r).dropWhile q = r := by
  have hsplit := List.takeWhile_append_dropWhile (p := q) (l := s ++ r)
  rw [h.takeWhile_eq] at hsplit
  exact List.append_cancel_left hsplit

lemma mem_head?_mono (hr : r' <+: r) (hc : c ∈ r'.head?) : c ∈ r.head? := by
  obtain ⟨d, rfl⟩ := hr
  cases r' with
  | nil => cases hc
  | cons y r' => exact hc

/-- A run stays one when less follows. -/
lemma Runs.shorten (h : Runs q s r) (hr : r' <+: r) : Runs q s r' :=
  ⟨h.all, fun x hx => h.stops x (mem_head?_mono hr hx)⟩

lemma runs_cons (hs : ∀ x ∈ s, q x = true) (hc : q c = false) : Runs q s (c :: r) :=
  ⟨hs, fun x hx => by
    cases hx
    exact hc⟩

/-! ### Occurrences -/

/-- The pattern `p` does not begin inside of `b`, when it follows `b`. -/
def IsFirst (p b : Text) : Prop := ∀ v, v <:+ b → v ≠ [] → ¬ p <+: v ++ p

lemma isFirst_nil (p : Text) : IsFirst p [] := fun _ hv hne => absurd (List.suffix_nil.mp hv) hne

lemma isFirst_cons_iff : IsFirst p (c :: b) ↔ ¬ p <+: c :: b ++ p ∧ IsFirst p b := by
  constructor
  · intro h
    exact ⟨h _ List.suffix_rfl (List.cons_ne_nil c b),
      fun v hv => h v (hv.trans (List.suffix_cons c b))⟩
  · rintro ⟨hc, hb⟩ v hv hne
    rcases List.suffix_cons_iff.mp hv with rfl | hv
    · exact hc
    · exact hb v hv hne

/-- A single character occurs for the first time behind a text without it. -/
lemma isFirst_singleton_iff : IsFirst [c] b ↔ c ∉ b := by
  induction b with
  | nil => simp [isFirst_nil]
  | cons x b ih => simp [isFirst_cons_iff, ih, List.cons_prefix_cons]

lemma dropPrefix?_eq_some_iff : dropPrefix? p t = some a ↔ t = p ++ a := by
  induction p generalizing t with
  | nil => simp [dropPrefix?]
  | cons x p ih =>
      cases t with
      | nil => simp [dropPrefix?]
      | cons y t =>
          rw [dropPrefix?]
          split_ifs with hxy
          · simp [hxy, ih]
          · simp [Ne.symm hxy]

lemma dropPrefix?_eq_none_iff : dropPrefix? p t = none ↔ ¬ p <+: t := by
  rw [Option.eq_none_iff_forall_ne_some]
  simp only [ne_eq, dropPrefix?_eq_some_iff, List.prefix_iff_exists_eq_append, not_exists]

/-- Whether a pattern begins in front of its own occurrence does not depend on what follows. -/
lemma prefix_append_append_iff : p <+: b ++ (p ++ a) ↔ p <+: b ++ p := by
  rw [← List.append_assoc]
  refine ⟨fun h => ?_, fun h => h.trans (List.prefix_append _ _)⟩
  exact List.prefix_of_prefix_length_le h (List.prefix_append _ _) (by simp)

/-- A text is cut where the pattern occurs for the first time. -/
lemma cutAt?_eq_some_iff (hp : p ≠ []) :
    cutAt? p t = some (b, a) ↔ t = b ++ (p ++ a) ∧ IsFirst p b := by
  induction t generalizing a b with
  | nil => simp [cutAt?, hp]
  | cons x t ih =>
      rw [cutAt?]
      cases b with
      | nil =>
          cases hd : dropPrefix? p (x :: t) with
          | none =>
              have hnot := dropPrefix?_eq_none_iff.mp hd
              refine iff_of_false (by simp) ?_
              rintro ⟨h, -⟩
              exact hnot ⟨a, h.symm⟩
          | some after =>
              have h := dropPrefix?_eq_some_iff.mp hd
              simp [h, isFirst_nil, eq_comm]
      | cons y b =>
          rw [isFirst_cons_iff, ← prefix_append_append_iff (a := a)]
          cases hd : dropPrefix? p (x :: t) with
          | none =>
              have hnot := dropPrefix?_eq_none_iff.mp hd
              simp only [Option.map_eq_some_iff, Prod.exists, ih, Prod.mk.injEq, List.cons.injEq]
              constructor
              · rintro ⟨b, a, ⟨rfl, hb⟩, ⟨rfl, rfl⟩, rfl⟩
                exact ⟨rfl, hnot, hb⟩
              · rintro ⟨hsplit, -, hb⟩
                obtain ⟨rfl, rfl⟩ := List.cons.inj hsplit
                exact ⟨b, a, ⟨rfl, hb⟩, ⟨rfl, rfl⟩, rfl⟩
          | some after =>
              have h := dropPrefix?_eq_some_iff.mp hd
              refine iff_of_false (by simp) ?_
              rintro ⟨hsplit, hnot, -⟩
              exact hnot ⟨after, by rw [← h, hsplit, List.cons_append]⟩

end ComponentMigration.Text
