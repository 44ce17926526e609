import ComponentMigration.Proofs.Script.Edited
import ComponentMigration.Proofs.Script.Grammar

/-!
Statements one behind the other.

* **Reading.** `Reads t xs u`: from `t` up to `u` stand the statements `xs`, each with the text from
  it on. A script is read in this way (`statements?_eq_some_iff`).
* **Staying.** `StaysRead`: statements that are no imports end where they did when a text is
  inserted behind them. It is a condition, for the grammar looks ahead without a bound. Up to the
  last of some imports it holds (`StaysRead.of_imports`), and statement by statement it is extended
  to the front (`StaysRead.cons`).
* **Main statement.** `Reads.front`: what stands in front of an insertion is read as it was.
-/

namespace ComponentMigration.Script

open Text Script.Parser

/-! ### Reading -/

namespace Program

/-- Whole statements lead from one text to another; each comes with the text from it on. -/
inductive Reads : Text → List (Text × Tree) → Text → Prop
  | nil {t : Text} : Reads t [] t
  | cons {t u v : Text} {x : Tree} {xs : List (Text × Tree)} (ht : t ≠ [])
      (h : statement? t = some (x, u)) (hxs : Reads u xs v) : Reads t ((t, x) :: xs) v

variable {t u v e e' ins w : Text} {x : Tree} {xs ys : List (Text × Tree)} {size n : Nat}
  {ts : List Tree}

lemma reads_append_iff : Reads t (xs ++ ys) v ↔ ∃ u, Reads t xs u ∧ Reads u ys v := by
  constructor
  · intro h
    induction xs generalizing t with
    | nil => exact ⟨t, .nil, h⟩
    | cons y xs ih =>
        cases h with
        | cons ht hy hxs =>
            obtain ⟨u, hu, hv⟩ := ih hxs
            exact ⟨u, .cons ht hy hu, hv⟩
  · rintro ⟨u, hxs, hys⟩
    induction hxs with
    | nil => exact hys
    | cons ht h _ ih => exact .cons ht h (ih hys)

lemma Reads.suffix (h : Reads t xs u) : u <:+ t := by
  induction h with
  | nil => exact List.suffix_refl _
  | cons _ hx _ ih => exact ih.trans (suffix_of_statement? hx)

/-- A script is read statement by statement. -/
lemma statements?_eq_some_iff : statements? size n t = some ts ↔ ∃ xs, Reads t xs [] ∧
    xs.length ≤ n ∧ ts = xs.map fun y => y.2.shift (size - byteLength y.1) := by
  constructor
  · intro h
    induction n generalizing t ts with
    | zero =>
        cases t with
        | nil =>
            cases h
            exact ⟨[], .nil, Nat.le_refl _, rfl⟩
        | cons c t => cases h
    | succ n ih =>
        cases t with
        | nil =>
            cases h
            exact ⟨[], .nil, Nat.zero_le _, rfl⟩
        | cons c t =>
            rw [statements?] at h
            · obtain ⟨⟨x, u⟩, hx, h⟩ := Option.bind_eq_some_iff.mp h
              obtain ⟨ts', hts, h⟩ := Option.bind_eq_some_iff.mp h
              cases h
              obtain ⟨xs, hxs, hlength, rfl⟩ := ih hts
              exact ⟨_ :: xs, .cons (by simp) hx hxs, Nat.succ_le_succ hlength, rfl⟩
            · simp
  · rintro ⟨xs, hxs, hlength, rfl⟩
    generalize hv : ([] : Text) = v at hxs
    induction hxs generalizing n with
    | nil =>
        subst hv
        cases n <;> rfl
    | @cons t u v x xs ht h _ ih =>
        obtain ⟨n, rfl⟩ := Nat.exists_eq_add_one_of_ne_zero (n := n) (by
          rintro rfl
          simp at hlength)
        obtain ⟨c, t, rfl⟩ := List.exists_cons_of_ne_nil ht
        rw [statements?]
        · rw [h]
          change (statements? size n u).bind _ = _
          rw [ih (by simpa using hlength) hv]
          rfl
        · simp

lemma isSound_of_statement? (h : statement? t = some (x, u)) : IsSound t :=
  (statement?_eq_some_iff.mp h).1

/-- A text is inserted in front of `e`. Every statement in front of it that is no import
declaration ends where it did, if what follows it is sound. -/
def StaysRead (t e ins : Text) : Prop :=
  ∀ ⦃xs : List (Text × Tree)⦄ ⦃u v : Text⦄ ⦃x : Tree⦄, Reads t xs u → statement? u = some (x, v) →
    ImportDeclaration.ofTree? x = none → byteLength e < byteLength v →
      ∃ w w', u = w ++ (w' ++ e) ∧ v = w' ++ e ∧ (IsSound (w' ++ (ins ++ e)) →
        ∃ x', statement? (w ++ (w' ++ (ins ++ e))) = some (x', w' ++ (ins ++ e)))

/-- What stays in front of a text stays so behind the first statement. -/
lemma StaysRead.tail (h : StaysRead t e ins) (ht : t ≠ []) (hx : statement? t = some (x, u)) :
    StaysRead u e ins := fun _ _ _ _ hxs => h (.cons ht hx hxs)

/-- A statement stays as it is read, and the statements behind it do. -/
lemma StaysRead.cons (hx : statement? t = some (x, u))
    (hstay : ImportDeclaration.ofTree? x = none → ∃ w w', t = w ++ (w' ++ e) ∧ u = w' ++ e ∧
      (IsSound (w' ++ (ins ++ e)) → ∃ x', statement? (w ++ (w' ++ (ins ++ e)))
        = some (x', w' ++ (ins ++ e))))
    (h : StaysRead u e ins) : StaysRead t e ins := by
  intro xs u' v x' hxs hx' hnone hlt
  cases hxs with
  | nil =>
      cases hx.symm.trans hx'
      exact hstay hnone
  | cons _ hy hxs =>
      cases hx.symm.trans hy
      exact h hxs hx' hnone hlt

/-- Statements that are imports up to the place of a text are no obstacle to it. -/
lemma StaysRead.of_imports (h : Reads t xs u) (hxs : ∀ y ∈ xs, ImportDeclaration.ofTree? y.2 ≠ none)
    (hx : statement? u = some (x, v)) (himport : ImportDeclaration.ofTree? x ≠ none)
    (hv : byteLength v ≤ byteLength e) : StaysRead t e ins := by
  induction h with
  | nil =>
      intro ys u' v' x' hys hx' hnone hlt
      exfalso
      cases hys with
      | nil =>
          cases hx.symm.trans hx'
          exact himport hnone
      -- A statement behind the last import begins behind the place of the text.
      | cons _ hy hys =>
          cases hx.symm.trans hy
          have hle := byteLength_le_of_suffix ((suffix_of_statement? hx').trans hys.suffix)
          omega
  | cons _ hy _ ih =>
      rw [List.forall_mem_cons] at hxs
      exact .cons hy (fun hnone => absurd hnone hxs.1) (ih hxs.2 hx)

lemma exists_importDeclaration (hx : ImportDeclaration.ofTree? x ≠ none) :
    ∃ m isType s ps, x = .node (.importDeclaration m isType) s ps := by
  unfold ImportDeclaration.ofTree? at hx
  split at hx
  · exact ⟨_, _, _, _, rfl⟩
  · exact absurd rfl hx

lemma append_ne_nil (hw : n + 1 ≤ w.length) : w ++ e ≠ [] :=
  List.append_ne_nil_of_left_ne_nil (List.ne_nil_of_length_pos (Nat.lt_of_lt_of_le n.succ_pos hw)) e

/-- An import declaration in front of the characters that tell how it ends. -/
lemma exists_statement?_import (hx : ImportDeclaration.ofTree? x ≠ none)
    (h : statement? t = some (x, w ++ e)) (hw : 7 ≤ w.length) (hsound : IsSound (w ++ e')) :
    ∃ w₀ x', t = w₀ ++ (w ++ e) ∧ x.SameAs x' ∧
      statement? (w₀ ++ (w ++ e')) = some (x', w ++ e') := by
  obtain ⟨m, isType, s, ps, rfl⟩ := exists_importDeclaration hx
  obtain ⟨w₀, r, rfl, -, -, -, heq, hmoved⟩ := exists_statement?_moved h
  obtain ⟨g, hg, hgap, htoken⟩ := exists_fromToken (t := r) (heq ▸ append_ne_nil hw)
  rw [← heq] at hg htoken
  have htoken' : IsToken (w ++ e') := htoken.of_append (by omega)
  have hcontinues : Continues (g ++ (w ++ e)) (g ++ (w ++ e')) := .of_gap hgap htoken hw
  rw [← hg] at hcontinues
  obtain ⟨s', ps', hsame, hmoved⟩ := hmoved ((fromToken_gap_append hgap _).2.mpr hsound) hcontinues
  rw [(fromToken_of_gap hgap htoken').1, ← List.append_assoc] at hmoved
  exact ⟨w₀ ++ g, _, by rw [hg, List.append_assoc], .node hsame _ _ _, hmoved⟩

/-- The statements in front of a text that is inserted are read as they were. -/
lemma Reads.front (h : Reads t xs (w ++ e)) (hw : 7 ≤ w.length) (hstay : StaysRead t e ins)
    (hsound : IsSound (w ++ (ins ++ e))) :
    ∃ w', t = w' ++ (w ++ e) ∧ IsSound (w' ++ (w ++ (ins ++ e))) ∧
      ∃ xs', Reads (w' ++ (w ++ (ins ++ e))) xs' (w ++ (ins ++ e)) ∧ List.Forall₂ (fun y y' =>
        ImportDeclaration.ofTree? y.2 = none ∨ y.2.SameAs y'.2) xs xs' := by
  generalize hv : w ++ e = v at h
  induction h with
  | nil => exact ⟨[], rfl, hsound, [], .nil, .nil⟩
  | @cons t u v x xs ht h _ ih =>
      obtain ⟨w₁, rfl, hsound', xs', hxs', hrel⟩ := ih (hstay.tail ht h) hv
      subst hv
      have hstatement : ∃ w₀ x', t = w₀ ++ (w₁ ++ (w ++ e)) ∧
          (ImportDeclaration.ofTree? x = none ∨ x.SameAs x') ∧
            statement? (w₀ ++ (w₁ ++ (w ++ (ins ++ e)))) = some (x', w₁ ++ (w ++ (ins ++ e))) := by
        by_cases hx : ImportDeclaration.ofTree? x = none
        · have hlt : byteLength e < byteLength (w₁ ++ (w ++ e)) := by
            have hpos : byteLength w ≠ 0 := fun h => by
              rw [byteLength_eq_zero_iff.mp h] at hw
              cases hw
            simp only [byteLength_append]
            omega
          obtain ⟨w₀, w', rfl, hu, hmoved⟩ := hstay .nil h hx hlt
          rw [← List.append_assoc] at hu
          obtain rfl := List.append_cancel_right hu
          simp only [List.append_assoc] at hmoved ⊢
          obtain ⟨x', hx'⟩ := hmoved hsound'
          exact ⟨w₀, x', rfl, .inl hx, hx'⟩
        · rw [← List.append_assoc] at h hsound'
          have hlong : 7 ≤ (w₁ ++ w).length := by
            rw [List.length_append]
            omega
          obtain ⟨w₀, x', rfl, hsame, hx'⟩ := exists_statement?_import hx h hlong hsound'
          simp only [List.append_assoc] at hx' ⊢
          exact ⟨w₀, x', rfl, .inr hsame, hx'⟩
      obtain ⟨w₀, x', rfl, hrel', hx'⟩ := hstatement
      have hne : w₀ ++ (w₁ ++ (w ++ (ins ++ e))) ≠ [] := List.append_ne_nil_of_right_ne_nil _
        (List.append_ne_nil_of_right_ne_nil _ (append_ne_nil hw))
      rw [← List.append_assoc] at hne hx'
      exact ⟨w₀ ++ w₁, by simp, isSound_of_statement? hx', (_, x') :: xs', .cons hne hx' hxs',
        .cons hrel' hrel⟩

end Program

end ComponentMigration.Script
