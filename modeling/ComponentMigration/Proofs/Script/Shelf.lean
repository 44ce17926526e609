import ComponentMigration.Proofs.Script.Between

/-!
What a parser has read so far.

* **Shelves.** A `Shelf` lists what a parser has noted and read since it began, the last first.
  `Shelf.Holds` says where these things lie.
* **Marks.** `Since` is what was read since a mark, where a token was `Passed`, and one that is not
  empty (`Exceeds`).
* **Nodes.** `Picks` is what a node takes of the trees that were read; others are left.
-/

namespace ComponentMigration.Script

open Text

variable {t : Text} {k m n m' n' : Nat} {x : Tree} {xs ps : List Tree}

/-! ### Shelves -/

/-- What a parser has noted or read. -/
inductive Item where
  /-- The offset of a token. -/
  | mark (n : Nat)
  /-- A token. -/
  | token
  /-- A token that is not empty. -/
  | word
  /-- Trees, possibly none. -/
  | trees (xs : List Tree)

/-- An item was read from the offset of one token on, up to the end of another. -/
def Item.Holds (t : Text) (n m : Nat) : Item → Prop
  | mark k => k = n ∧ t.IsBoundary k
  | token => n ≤ m
  | word => n < m
  | trees xs => Between t n m xs

/-- What a parser has noted and read since it began, the last first. -/
abbrev Shelf := List Item

/-- All of a shelf was read from `k` on; the last token ends at `m`, the next begins at `n`. -/
inductive Shelf.Holds (t : Text) (k : Nat) : Shelf → Nat → Nat → Prop
  | nil {m n : Nat} (h : k ≤ n) : Holds t k [] m n
  | cons {i : Item} {Γ : Shelf} {m n m' n' : Nat} (h : Holds t k Γ m' n') (hi : i.Holds t n' m)
      (hle : m' ≤ n') (hm : m' ≤ m) (hn : n' ≤ n) : Holds t k (i :: Γ) m n

variable {Γ Γ' : Shelf} {Δ Δ' Δ'' : List (List Tree)}

namespace Shelf.Holds

lemma le (h : Γ.Holds t k m n) : k ≤ n := by
  induction h with
  | nil h => exact h
  | cons _ _ _ _ hn ih => exact Nat.le_trans ih hn

lemma mono (h : Γ.Holds t k m n) (hm : m ≤ m') (hn : n ≤ n') : Γ.Holds t k m' n' := by
  cases h with
  | nil h => exact .nil (Nat.le_trans h hn)
  | @cons i Γ _ _ m₀ n₀ h hi hle hm₀ hn₀ =>
      refine .cons h ?_ hle (Nat.le_trans hm₀ hm) (Nat.le_trans hn₀ hn)
      cases i with
      | mark j => exact hi
      | token => exact Nat.le_trans hi hm
      | word => exact Nat.lt_of_lt_of_le hi hm
      | trees xs => exact Between.mono hi (Nat.le_refl _) hm

end Shelf.Holds

/-- What was read since a mark, the last first, and what was on the shelf then. -/
class Since (k : Nat) (Γ : Shelf) (Δ : outParam (List (List Tree))) (Γ' : outParam Shelf) :
    Prop where
  since : ∀ ⦃t : Text⦄ ⦃a m n : Nat⦄, Γ.Holds t a m n → m ≤ n → ∃ m', m' ≤ m ∧ m' ≤ k ∧ k ≤ n ∧
    t.IsBoundary k ∧ Between t k m Δ.flatten ∧ Shelf.Holds t a (.mark k :: Γ') m' k

namespace Since

instance here : Since k (.mark k :: Γ) [] Γ where
  since t a m n h _ := by
    obtain - | ⟨h, ⟨rfl, hk⟩, hle, hm, hn⟩ := h
    exact ⟨_, hm, hle, hn, hk, .nil, .cons h ⟨rfl, hk⟩ hle (Nat.le_refl _) (Nat.le_refl _)⟩

/-- The beginning of the last tree counts as a mark. -/
instance tree : Since x.span.start (.trees [x] :: Γ) [[x]] Γ where
  since t a m n h hmn := by
    obtain - | ⟨h, hx, hle, hm, hn⟩ := h
    have hstart := hx.start_le List.mem_cons_self
    have hstop := hx.le_stop List.mem_cons_self
    have hfits := (hx.lies x List.mem_cons_self).fits
    refine ⟨_, hm, Nat.le_trans hle hstart, Nat.le_trans hfits.le (Nat.le_trans hstop hmn),
      hfits.start, ⟨hx.lies, ?_, hx.holds.apart⟩, .cons (h.mono (Nat.le_refl _) hstart)
        ⟨rfl, hfits.start⟩ (Nat.le_trans hle hstart) (Nat.le_refl _) (Nat.le_refl _)⟩
    simpa using ⟨Nat.le_refl _, hstop⟩

/-- What follows a mark and is no tree does not count. -/
lemma of_cons {i : Item} (h : Since k Γ Δ Γ') : Since k (i :: Γ) Δ Γ' where
  since t a m n hΓ _ := by
    obtain - | ⟨hΓ, -, hle, hm, hn⟩ := hΓ
    obtain ⟨m', hm', hk, hkn, hb, hΔ, hΓ'⟩ := h.since hΓ hle
    exact ⟨m', Nat.le_trans hm' hm, hk, Nat.le_trans hkn hn, hb, hΔ.mono (Nat.le_refl _) hm, hΓ'⟩

instance mark {j : Nat} [h : Since k Γ Δ Γ'] : Since k (.mark j :: Γ) Δ Γ' := of_cons h

instance token [h : Since k Γ Δ Γ'] : Since k (.token :: Γ) Δ Γ' := of_cons h

instance word [h : Since k Γ Δ Γ'] : Since k (.word :: Γ) Δ Γ' := of_cons h

instance trees [h : Since k Γ Δ Γ'] : Since k (.trees xs :: Γ) (xs :: Δ) Γ' where
  since t a m n hΓ _ := by
    obtain - | ⟨hΓ, hxs, hle, hm, hn⟩ := hΓ
    obtain ⟨m', hm', hk, hkn, hb, hΔ, hΓ'⟩ := h.since hΓ hle
    refine ⟨m', Nat.le_trans hm' hm, hk, Nat.le_trans hkn hn, hb, ?_, hΓ'⟩
    rw [List.flatten_cons]
    exact (hΔ.append hxs hkn hle hm).of_subperm List.perm_append_comm.subperm

end Since

/-- A token was read since a mark. -/
class Passed (k : Nat) (Γ : Shelf) : Prop where
  passed : ∀ ⦃t : Text⦄ ⦃a m n : Nat⦄, Γ.Holds t a m n → m ≤ n → k ≤ m

namespace Passed

lemma of_cons {i : Item} (h : Passed k Γ) : Passed k (i :: Γ) where
  passed t a m n hΓ _ := by
    obtain - | ⟨hΓ, -, hle, hm, -⟩ := hΓ
    exact Nat.le_trans (h.passed hΓ hle) hm

instance token [h : Since k Γ Δ Γ'] : Passed k (.token :: Γ) where
  passed t a m n hΓ _ := by
    obtain - | ⟨hΓ, htoken, hle, -, -⟩ := hΓ
    obtain ⟨-, -, -, hk, -⟩ := h.since hΓ hle
    exact Nat.le_trans hk htoken

instance word [h : Since k Γ Δ Γ'] : Passed k (.word :: Γ) where
  passed t a m n hΓ _ := by
    obtain - | ⟨hΓ, hword, hle, -, -⟩ := hΓ
    obtain ⟨-, -, -, hk, -⟩ := h.since hΓ hle
    exact Nat.le_trans hk (Nat.le_of_lt hword)

instance tree [h : Since k Γ Δ Γ'] : Passed k (.trees (x :: xs) :: Γ) where
  passed t a m n hΓ _ := by
    obtain - | ⟨hΓ, hxs, hle, -, -⟩ := hΓ
    obtain ⟨-, -, -, hk, -⟩ := h.since hΓ hle
    exact Nat.le_trans hk (hxs.le_of_mem List.mem_cons_self)

instance mark {j : Nat} [h : Passed k Γ] : Passed k (.mark j :: Γ) := of_cons h

instance trees [h : Passed k Γ] : Passed k (.trees xs :: Γ) := of_cons h

end Passed

/-- A token that is not empty was read since a mark. -/
class Exceeds (k : Nat) (Γ : Shelf) : Prop where
  exceeds : ∀ ⦃t : Text⦄ ⦃a m n : Nat⦄, Γ.Holds t a m n → m ≤ n → k < m

namespace Exceeds

instance word [h : Since k Γ Δ Γ'] : Exceeds k (.word :: Γ) where
  exceeds t a m n hΓ _ := by
    obtain - | ⟨hΓ, hword, hle, -, -⟩ := hΓ
    obtain ⟨-, -, -, hk, -⟩ := h.since hΓ hle
    exact Nat.lt_of_le_of_lt hk hword

end Exceeds

/-- All trees of a shelf. -/
class Gathers (Γ : Shelf) (Δ : outParam (List (List Tree))) : Prop where
  gathers : ∀ ⦃t : Text⦄ ⦃a m n : Nat⦄, Γ.Holds t a m n → m ≤ n → Between t a m Δ.flatten

namespace Gathers

instance nil : Gathers [] [] where
  gathers _ _ _ _ _ _ := .nil

lemma of_cons {i : Item} (h : Gathers Γ Δ) : Gathers (i :: Γ) Δ where
  gathers t a m n hΓ _ := by
    obtain - | ⟨hΓ, -, hle, hm, -⟩ := hΓ
    exact (h.gathers hΓ hle).mono (Nat.le_refl _) hm

instance mark {j : Nat} [h : Gathers Γ Δ] : Gathers (.mark j :: Γ) Δ := of_cons h

instance token [h : Gathers Γ Δ] : Gathers (.token :: Γ) Δ := of_cons h

instance word [h : Gathers Γ Δ] : Gathers (.word :: Γ) Δ := of_cons h

instance trees [h : Gathers Γ Δ] : Gathers (.trees xs :: Γ) (xs :: Δ) where
  gathers t a m n hΓ _ := by
    obtain - | ⟨hΓ, hxs, hle, hm, -⟩ := hΓ
    rw [List.flatten_cons]
    exact ((h.gathers hΓ hle).append hxs hΓ.le hle hm).of_subperm List.perm_append_comm.subperm

end Gathers

/-- A token was read since the shelf was empty, if one is asked for. -/
class HasToken (on : Bool) (Γ : Shelf) : Prop where
  passes : ∀ ⦃t : Text⦄ ⦃a m n : Nat⦄, Γ.Holds t a m n → m ≤ n → on = true → a ≤ m

namespace HasToken

variable {on : Bool}

instance none : HasToken false Γ where
  passes _ _ _ _ _ _ h := by cases h

lemma of_cons {i : Item} (h : HasToken on Γ) : HasToken on (i :: Γ) where
  passes t a m n hΓ _ hon := by
    obtain - | ⟨hΓ, -, hle, hm, -⟩ := hΓ
    exact Nat.le_trans (h.passes hΓ hle hon) hm

instance token : HasToken on (.token :: Γ) where
  passes t a m n hΓ _ _ := by
    obtain - | ⟨hΓ, htoken, -, -, -⟩ := hΓ
    exact Nat.le_trans hΓ.le htoken

instance tree : HasToken on (.trees (x :: xs) :: Γ) where
  passes t a m n hΓ _ _ := by
    obtain - | ⟨hΓ, hxs, -, -, -⟩ := hΓ
    exact Nat.le_trans hΓ.le (hxs.le_of_mem List.mem_cons_self)

instance trees [h : HasToken on Γ] : HasToken on (.trees xs :: Γ) := of_cons h

end HasToken

/-! ### What a node takes -/

/-- Some trees can be taken of those that were read, which leaves others. -/
class Picks (ps : List Tree) (Δ : List (List Tree)) (Δ' : outParam (List (List Tree))) :
    Prop where
  picks : ∀ ⦃t : Text⦄ ⦃a z : Nat⦄ ⦃zs : List Tree⦄, Between t a z (Δ.flatten ++ zs) →
    Between t a z (ps ++ (Δ'.flatten ++ zs))

namespace Picks

variable {ys qs : List Tree}

instance nil : Picks [] Δ Δ where
  picks _ _ _ _ h := h

instance here : Picks xs (xs :: Δ) Δ where
  picks t a z zs h := by rwa [← List.append_assoc]

instance (priority := low) there [h : Picks ps Δ Δ'] : Picks ps (xs :: Δ) (xs :: Δ') where
  picks t a z zs hΔ := by
    have hps : Between t a z (ps ++ (Δ'.flatten ++ (xs ++ zs))) := h.picks (hΔ.of_subperm ?_)
    refine hps.of_subperm ?_
    all_goals
      refine (List.perm_iff_count.mpr fun y => ?_).subperm
      simp only [List.flatten_cons, List.count_append]
      omega

/-- What was taken first leaves the rest to the other. -/
lemma both (hp : Picks ps Δ Δ') (hq : Picks qs Δ' Δ'') : Picks (ps ++ qs) Δ Δ'' where
  picks t a z zs hΔ := by
    have hqs : Between t a z (qs ++ (Δ''.flatten ++ (ps ++ zs))) :=
      hq.picks ((hp.picks hΔ).of_subperm ?_)
    refine hqs.of_subperm ?_
    all_goals
      refine (List.perm_iff_count.mpr fun y => ?_).subperm
      simp only [List.count_append]
      omega

instance append [hp : Picks ps Δ Δ'] [hq : Picks qs Δ' Δ''] : Picks (ps ++ qs) Δ Δ'' := both hp hq

instance (priority := low) cons [hx : Picks [x] Δ Δ'] [hp : Picks ps Δ' Δ''] :
    Picks (x :: ps) Δ Δ'' := both hx hp

lemma of_perm (h : Picks ps Δ Δ') (hq : qs.Perm ps) : Picks qs Δ Δ' where
  picks _ _ _ _ hΔ := (h.picks hΔ).of_subperm (hq.append_right _).subperm

instance reverse [h : Picks ps Δ Δ'] : Picks ps.reverse Δ Δ' := of_perm h ps.reverse_perm

instance flatten {pss : List (List Tree)} [h : Picks pss.flatten Δ Δ'] :
    Picks pss.reverse.flatten Δ Δ' := of_perm h pss.reverse_perm.flatten

instance flatten_cons {pss : List (List Tree)} [hx : Picks xs Δ Δ']
    [hp : Picks pss.flatten Δ' Δ''] : Picks (xs :: pss).flatten Δ Δ'' := both hx hp

instance firsts_cons {α : Type} {found : List (Tree × α)} {p : Tree × α} [hx : Picks [p.1] Δ Δ']
    [hp : Picks (found.map (·.1)) Δ' Δ''] : Picks ((p :: found).map (·.1)) Δ Δ'' := both hx hp

instance firsts {α : Type} {found : List (Tree × α)} [h : Picks (found.map (·.1)) Δ Δ'] :
    Picks (found.reverse.map (·.1)) Δ Δ' := of_perm h (found.reverse_perm.map _)

lemma between (h : Picks ps Δ Δ') (hΔ : Between t a z Δ.flatten) : Between t a z ps := by
  have hps : Between t a z (ps ++ (Δ'.flatten ++ [])) := h.picks (by simpa using hΔ)
  exact hps.of_subperm (List.sublist_append_left _ _).subperm

/-- Trees inside of a tree can be taken instead. -/
lemma of_inside (h : Picks [x] Δ Δ')
    (hys : ∀ t, x.LiesIn t → Between t x.span.start x.span.stop ys) : Picks ys Δ Δ' where
  picks t a z zs hΔ := by
    have hx := h.picks hΔ
    exact hx.replace (hys t (hx.lies x List.mem_cons_self))

lemma of_replaces {y : Tree} (h : Picks [x] Δ Δ') (hy : y.Replaces x) : Picks [y] Δ Δ' :=
  of_inside h fun t hx => by
    obtain ⟨hlies, hinside⟩ := hy t hx
    exact ⟨by simpa using hlies, by simpa using hinside, List.pairwise_singleton _ _⟩

/-- A node around a tree can take its place. -/
instance around {f : Form} [Fails f.isSpecial] [h : Picks [x] Δ Δ'] :
    Picks [.node f x.span [x]] Δ Δ' := h.of_replaces (.around x)

instance ite {b : Prop} [Decidable b] [hp : Picks ps Δ Δ'] : Picks (if b then ps else []) Δ Δ' where
  picks t a z zs hΔ := by
    split_ifs
    · exact hp.picks hΔ
    · exact (hp.picks hΔ).of_subperm (List.sublist_append_right _ _).subperm

end Picks

end ComponentMigration.Script
