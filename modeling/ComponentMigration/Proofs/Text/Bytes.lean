import ComponentMigration.Text.Basic
import Mathlib.Tactic.Lemma
import Mathlib.Data.List.Basic

/-!
Cutting a text at bytes.

* **Boundaries.** `IsBoundary` offsets are those between two characters. A cut between two
  of them never fails (`slice?_eq_cut`, `dropBytes?_eq_cut`).
* **Pieces.** `cut` is the text between two boundaries. Adjacent pieces join to one
  (`cut_append_cut`), and the whole text is a piece (`cut_all`).
-/

namespace ComponentMigration.Text

variable {t p q r m : Text} {a b c n : Nat}

@[simp] lemma byteLength_nil : byteLength [] = 0 := rfl

@[simp] lemma byteLength_cons (c : Char) (t : Text) :
    byteLength (c :: t) = c.utf8Size + byteLength t := rfl

@[simp] lemma byteLength_append (t u : Text) :
    byteLength (t ++ u) = byteLength t + byteLength u := by
  induction t with
  | nil => simp
  | cons c t ih => rw [List.cons_append, byteLength_cons, byteLength_cons, ih, Nat.add_assoc]

lemma byteLength_le_of_suffix {t u : Text} (h : u <:+ t) : byteLength u ≤ byteLength t := by
  obtain ⟨before, rfl⟩ := h
  rw [byteLength_append]
  exact Nat.le_add_left _ _

/-- Only the empty text has no bytes. -/
@[simp] lemma byteLength_eq_zero_iff : byteLength t = 0 ↔ t = [] := by
  cases t with
  | nil => simp
  | cons c t =>
      have hc := c.utf8Size_pos
      simp only [byteLength_cons, List.cons_ne_nil, iff_false]
      omega

/-! ### Beginnings and ends -/

/-- The beginning without bytes. -/
lemma takeBytes?_zero_eq_some_iff :
    t.takeBytes? 0 = some p ↔ ∃ r, t = p ++ r ∧ byteLength p = 0 := by
  have hzero : t.takeBytes? 0 = some [] := by cases t <;> rfl
  rw [hzero, Option.some.injEq]
  constructor
  · rintro rfl
    exact ⟨t, rfl, rfl⟩
  · rintro ⟨r, -, hp⟩
    exact (byteLength_eq_zero_iff.mp hp).symm

/-- The beginning that has some bytes. -/
lemma takeBytes?_eq_some_iff : t.takeBytes? n = some p ↔ ∃ r, t = p ++ r ∧ byteLength p = n := by
  induction t generalizing n p with
  | nil =>
      cases n with
      | zero => exact takeBytes?_zero_eq_some_iff
      | succ n =>
          refine iff_of_false (by simp [takeBytes?]) ?_
          rintro ⟨r, h, hp⟩
          rw [(List.append_eq_nil_iff.mp h.symm).1] at hp
          cases hp
  | cons c t ih =>
      cases n with
      | zero => exact takeBytes?_zero_eq_some_iff
      | succ n =>
          rw [takeBytes?]
          cases p with
          | nil => split_ifs <;> simp
          | cons d p =>
              have hpos := d.utf8Size_pos
              simp only [List.cons_append, List.cons.injEq, byteLength_cons]
              split_ifs with hc
              · simp only [Option.map_eq_some_iff, ih, List.cons.injEq]
                constructor
                · rintro ⟨p, ⟨r, rfl, hp⟩, rfl, rfl⟩
                  exact ⟨r, ⟨rfl, rfl⟩, by omega⟩
                · rintro ⟨r, ⟨rfl, rfl⟩, hp⟩
                  exact ⟨p, ⟨r, rfl, by omega⟩, rfl, rfl⟩
              · refine iff_of_false (by simp) ?_
                rintro ⟨r, ⟨rfl, -⟩, hp⟩
                omega

/-- What is left behind some bytes. -/
lemma dropBytes?_eq_some_iff : t.dropBytes? n = some r ↔ ∃ p, t = p ++ r ∧ byteLength p = n := by
  induction t generalizing n r with
  | nil =>
      cases n with
      | zero => simp [dropBytes?, eq_comm]
      | succ n =>
          refine iff_of_false (by simp [dropBytes?]) ?_
          rintro ⟨p, h, hp⟩
          rw [(List.append_eq_nil_iff.mp h.symm).1] at hp
          cases hp
  | cons c t ih =>
      have hpos := c.utf8Size_pos
      cases n with
      | zero => simp [dropBytes?]
      | succ n =>
          rw [dropBytes?]
          split_ifs with hc
          · rw [ih]
            constructor
            · rintro ⟨p, rfl, hp⟩
              exact ⟨c :: p, rfl, by rw [byteLength_cons]; omega⟩
            · rintro ⟨p, h, hp⟩
              cases p with
              | nil => cases hp
              | cons d p =>
                  cases h
                  rw [byteLength_cons] at hp
                  exact ⟨p, rfl, by omega⟩
          · refine iff_of_false (by simp) ?_
            rintro ⟨p, h, hp⟩
            cases p with
            | nil => cases hp
            | cons d p =>
                cases h
                rw [byteLength_cons] at hp
                omega

lemma dropBytes?_append (p r : Text) : (p ++ r).dropBytes? (byteLength p) = some r :=
  dropBytes?_eq_some_iff.mpr ⟨p, rfl, rfl⟩

lemma dropBytes?_cons (c : Char) (h : t.dropBytes? n = some r) :
    dropBytes? (c :: t) (n + c.utf8Size) = some r := by
  obtain ⟨p, rfl, rfl⟩ := dropBytes?_eq_some_iff.mp h
  exact dropBytes?_eq_some_iff.mpr ⟨c :: p, rfl, by rw [byteLength_cons, Nat.add_comm]⟩

/-- Bytes are dropped one piece after the other. -/
lemma dropBytes?_add (h : t.dropBytes? a = some q) (h' : q.dropBytes? b = some r) :
    t.dropBytes? (a + b) = some r := by
  obtain ⟨p, rfl, rfl⟩ := dropBytes?_eq_some_iff.mp h
  obtain ⟨m, rfl, rfl⟩ := dropBytes?_eq_some_iff.mp h'
  exact dropBytes?_eq_some_iff.mpr ⟨p ++ m, by rw [List.append_assoc], byteLength_append p m⟩

lemma suffix_of_dropBytes? (h : t.dropBytes? n = some r) : r <:+ t := by
  obtain ⟨p, rfl, -⟩ := dropBytes?_eq_some_iff.mp h
  exact List.suffix_append p r

/-! ### Boundaries -/

/-- An offset between two characters, or at an end. -/
def IsBoundary (t : Text) (n : Nat) : Prop := (t.takeBytes? n).isSome

instance (t : Text) (n : Nat) : Decidable (t.IsBoundary n) :=
  inferInstanceAs (Decidable ((t.takeBytes? n).isSome = true))

lemma isBoundary_iff : t.IsBoundary n ↔ ∃ p r, t = p ++ r ∧ byteLength p = n := by
  simp only [IsBoundary, Option.isSome_iff_exists, takeBytes?_eq_some_iff]

lemma isBoundary_zero (t : Text) : t.IsBoundary 0 := isBoundary_iff.mpr ⟨[], t, rfl, rfl⟩

lemma isBoundary_byteLength (t : Text) : t.IsBoundary t.byteLength :=
  isBoundary_iff.mpr ⟨t, [], by simp, rfl⟩

/-- A boundary is inside the text. -/
lemma IsBoundary.le_byteLength (h : t.IsBoundary n) : n ≤ t.byteLength := by
  obtain ⟨p, r, rfl, rfl⟩ := isBoundary_iff.mp h
  rw [byteLength_append]
  exact Nat.le_add_right _ _

/-- Of two beginnings of a text the shorter is a beginning of the longer. -/
lemma exists_append_of_byteLength_le (h : p ++ q = r ++ m) (hle : byteLength p ≤ byteLength r) :
    ∃ d, r = p ++ d := by
  rcases List.append_eq_append_iff.mp h with ⟨d, hr, -⟩ | ⟨d, hp, -⟩
  · exact ⟨d, hr⟩
  · rw [hp, byteLength_append] at hle
    have hd : d = [] := byteLength_eq_zero_iff.mp (by omega)
    exact ⟨[], by simp [hp, hd]⟩

/-- Beginnings with the same bytes are the same. -/
lemma append_inj_of_byteLength (h : p ++ q = r ++ m) (heq : byteLength p = byteLength r) :
    p = r ∧ q = m := by
  obtain ⟨d, rfl⟩ := exists_append_of_byteLength_le h (Nat.le_of_eq heq)
  have hd : d = [] := by simpa using heq
  subst hd
  rw [List.append_nil] at h ⊢
  exact ⟨rfl, List.append_cancel_left h⟩

/-! ### Pieces -/

/-- The text between two boundaries. -/
def cut (t : Text) (start stop : Nat) : Text := (t.slice? start stop).getD []

/-- A cut between two boundaries takes a text apart. -/
lemma slice?_append (p m r : Text) :
    (p ++ m ++ r).slice? (byteLength p) (byteLength p + byteLength m) = some m := by
  have hdrop : (p ++ m ++ r).dropBytes? (byteLength p) = some (m ++ r) :=
    dropBytes?_eq_some_iff.mpr ⟨p, by simp, rfl⟩
  rw [slice?, hdrop, Option.bind_some, Nat.add_sub_cancel_left]
  exact takeBytes?_eq_some_iff.mpr ⟨r, rfl, rfl⟩

/-- Two boundaries take a text apart into three. -/
lemma IsBoundary.exists_append (ha : t.IsBoundary a) (hb : t.IsBoundary b) (hab : a ≤ b) :
    ∃ p m r, t = p ++ m ++ r ∧ byteLength p = a ∧ byteLength p + byteLength m = b := by
  obtain ⟨p, q, rfl, rfl⟩ := isBoundary_iff.mp ha
  obtain ⟨p', r, h, rfl⟩ := isBoundary_iff.mp hb
  obtain ⟨m, rfl⟩ := exists_append_of_byteLength_le h hab
  exact ⟨p, m, r, h, rfl, by rw [byteLength_append]⟩

/-- The pieces in front of, between and behind two boundaries. -/
lemma cut_append (p m r : Text) :
    (p ++ m ++ r).cut (byteLength p) (byteLength p + byteLength m) = m := by
  rw [cut, slice?_append, Option.getD_some]

/-- A cut between two boundaries does not fail. -/
lemma slice?_eq_cut (ha : t.IsBoundary a) (hb : t.IsBoundary b) (hab : a ≤ b) :
    t.slice? a b = some (t.cut a b) := by
  obtain ⟨p, m, r, rfl, rfl, rfl⟩ := ha.exists_append hb hab
  rw [slice?_append, cut_append]

/-- The rest behind a boundary is a piece. -/
lemma dropBytes?_eq_cut (ha : t.IsBoundary a) :
    t.dropBytes? a = some (t.cut a t.byteLength) := by
  obtain ⟨p, m, r, ht, rfl, hb⟩ :=
    ha.exists_append (isBoundary_byteLength t) ha.le_byteLength
  have hr : r = [] := by
    rw [ht, byteLength_append, byteLength_append] at hb
    exact byteLength_eq_zero_iff.mp (by omega)
  subst hr
  rw [← hb, ht, cut_append]
  exact dropBytes?_eq_some_iff.mpr ⟨p, by simp, rfl⟩

@[simp] lemma cut_self (t : Text) (a : Nat) : t.cut a a = [] := by
  rw [cut, slice?, Nat.sub_self]
  cases t.dropBytes? a with
  | none => rfl
  | some r => cases r <;> rfl

/-- Adjacent pieces join to one. -/
lemma cut_append_cut (ha : t.IsBoundary a) (hb : t.IsBoundary b) (hc : t.IsBoundary c)
    (hab : a ≤ b) (hbc : b ≤ c) : t.cut a b ++ t.cut b c = t.cut a c := by
  obtain ⟨p, m, q, rfl, rfl, rfl⟩ := ha.exists_append hb hab
  obtain ⟨p', m', r, h, hp', rfl⟩ := hb.exists_append hc hbc
  rw [← byteLength_append] at hp'
  rw [List.append_assoc p'] at h
  obtain ⟨rfl, rfl⟩ := append_inj_of_byteLength h hp'.symm
  have hleft : (p ++ m ++ (m' ++ r)).cut (byteLength p) (byteLength p + byteLength m) = m :=
    cut_append p m (m' ++ r)
  have hright := cut_append (p ++ m) m' r
  have hall := cut_append p (m ++ m') r
  simp only [List.append_assoc, byteLength_append] at hleft hright hall ⊢
  rw [hleft, hright, Nat.add_assoc, hall]

/-- The whole text is a piece. -/
@[simp] lemma cut_all (t : Text) : t.cut 0 t.byteLength = t := by
  have h := cut_append [] t []
  simpa using h

end ComponentMigration.Text
