import ComponentMigration.Patch
import ComponentMigration.Proofs.Success
import ComponentMigration.Proofs.Text.Bytes

/-!
Applying a patch.

* **Edits.** `Fits` edits have a span of the source, and `IsApart` edits have spans that
  do not overlap. Edits that are apart stand one behind the other once they are in order
  (`pairwise_ordered`).
* **Filling.** `filled` is the source between two boundaries with edits in order put in.
* **Result.** `apply_eq_filled`: a patch of edits that fit and are apart is applied, and the
  result is the filled source.
* **Success.** `succeeds_apply_iff`: if no edit cuts a character, a patch is applied exactly if
  its edits have spans of the source that are apart, in whatever order they were recorded, and
  it is refused because of an overlap else.
-/

namespace ComponentMigration

namespace Edit

/-! ### Edits -/

/-- An edit of a span of the source. -/
structure Fits (source : Text) (e : Edit) : Prop where
  le : e.start ≤ e.stop
  start : source.IsBoundary e.start
  stop : source.IsBoundary e.stop

/-- An edit whose span is in order and in the source. -/
structure HasSpan (source : Text) (e : Edit) : Prop where
  le : e.start ≤ e.stop
  stop : e.stop ≤ source.byteLength

/-- An edit that cuts no character of the source: its offsets are boundaries, or past the
end. -/
structure IsAligned (source : Text) (e : Edit) : Prop where
  start : e.start ≤ source.byteLength → source.IsBoundary e.start
  stop : e.stop ≤ source.byteLength → source.IsBoundary e.stop

instance (source : Text) (e : Edit) : Decidable (e.HasSpan source) :=
  decidable_of_iff (e.start ≤ e.stop ∧ e.stop ≤ source.byteLength)
    ⟨fun h => ⟨h.1, h.2⟩, fun h => ⟨h.le, h.stop⟩⟩

instance (source : Text) (e : Edit) : Decidable (e.IsAligned source) :=
  decidable_of_iff ((e.start ≤ source.byteLength → source.IsBoundary e.start) ∧
      (e.stop ≤ source.byteLength → source.IsBoundary e.stop))
    ⟨fun h => ⟨h.1, h.2⟩, fun h => ⟨h.start, h.stop⟩⟩

/-- The report that an edit overlaps another one, or does not fit the source. -/
def overlap (e : Edit) : Diagnostic := .bare (.overlappingEdit e.start e.stop) []

lemma IsAligned.fits {source : Text} {e : Edit} (h : e.IsAligned source)
    (hspan : e.HasSpan source) : e.Fits source :=
  ⟨hspan.le, h.start (Nat.le_trans hspan.le hspan.stop), h.stop hspan.stop⟩

/-- One of two edits ends before the other begins. -/
def IsApart (e f : Edit) : Prop := e.stop ≤ f.start ∨ f.stop ≤ e.start

lemma IsApart.symm {e f : Edit} (h : e.IsApart f) : f.IsApart e := h.elim .inr .inl

instance : Std.Symm IsApart := ⟨fun _ _ => IsApart.symm⟩

instance (e f : Edit) : Decidable (e.IsApart f) :=
  inferInstanceAs (Decidable (e.stop ≤ f.start ∨ f.stop ≤ e.start))

/-! ### The order -/

lemma le_iff (e f : Edit) :
    le e f = true ↔ e.start < f.start ∨ e.start = f.start ∧ e.stop ≤ f.stop := by
  simp [le]

lemma le_trans (e f g : Edit) (h : le e f = true) (h' : le f g = true) : le e g = true := by
  rw [le_iff] at *
  omega

lemma le_total (e f : Edit) : (le e f || le f e) = true := by
  rw [Bool.or_eq_true, le_iff, le_iff]
  omega

/-- Of two edits that are apart the first ends before the second begins. -/
lemma stop_le_start_of_le {e f : Edit} (hf : f.start ≤ f.stop) (h : e.IsApart f)
    (hle : le e f = true) : e.stop ≤ f.start := by
  rw [le_iff] at hle
  rw [IsApart] at h
  omega

end Edit

/-- Edits that are apart stand one behind the other in their order. -/
lemma pairwise_ordered {es : List Edit} (hle : ∀ e ∈ es, e.start ≤ e.stop)
    (h : es.Pairwise Edit.IsApart) :
    (es.mergeSort Edit.le).Pairwise fun e f => e.stop ≤ f.start := by
  have hperm := List.mergeSort_perm es Edit.le
  have hsorted := List.pairwise_mergeSort Edit.le_trans Edit.le_total es
  have hmem : ∀ e ∈ es.mergeSort Edit.le, e.start ≤ e.stop :=
    fun e he => hle e (hperm.mem_iff.mp he)
  have hapart := (hperm.pairwise_iff fun h => Edit.IsApart.symm h).mpr h
  exact (hsorted.and hapart).imp_of_mem fun _ hf h =>
    Edit.stop_le_start_of_le (hmem _ hf) h.2 h.1

/-- Sorting is stable: what is added behind a list comes behind its equals. -/
lemma mergeSort_append_singleton {α : Type} {le : α → α → Bool}
    (htrans : ∀ a b c, le a b → le b c → le a c) (htotal : ∀ a b, le a b || le b a)
    (l : List α) (x : α) :
    ∃ l₁ l₂, (l ++ [x]).mergeSort le = l₁ ++ x :: l₂ ∧ (∀ a ∈ l₁, le a x = true) ∧
      ∀ a ∈ l₂, le a x = false := by
  induction l with
  | nil => exact ⟨[], [], by simp, by simp, by simp⟩
  | cons a l ih =>
      obtain ⟨l₁, l₂, heq, h₁, h₂⟩ := ih
      obtain ⟨m₁, m₂, hcons, hrest, hm⟩ := List.mergeSort_cons htrans htotal a (l ++ [x])
      have hsorted := List.pairwise_mergeSort htrans htotal (a :: (l ++ [x]))
      rw [hcons] at hsorted
      rw [List.cons_append, hcons]
      rw [hrest] at heq
      -- the new element comes in front of `x` or behind it
      have hfront : ∀ d, l₁ = m₁ ++ d → m₂ = d ++ x :: l₂ →
          ∃ k₁ k₂, m₁ ++ a :: m₂ = k₁ ++ x :: k₂ ∧ (∀ b ∈ k₁, le b x = true) ∧
            ∀ b ∈ k₂, le b x = false := by
        rintro d rfl rfl
        have hax : le a x = true :=
          (List.pairwise_cons.mp (List.pairwise_append.mp hsorted).2.1).1 x (by simp)
        refine ⟨m₁ ++ a :: d, l₂, by simp, ?_, h₂⟩
        rw [List.forall_mem_append, List.forall_mem_cons]
        rw [List.forall_mem_append] at h₁
        exact ⟨h₁.1, hax, h₁.2⟩
      rcases List.append_eq_append_iff.mp heq with ⟨d, hl, hd⟩ | ⟨_ | ⟨y, d⟩, hl, hd⟩
      · exact hfront d hl hd
      · exact hfront [] (by simpa using hl.symm) (by simpa using hd.symm)
      · rw [List.cons_append, List.cons.injEq] at hd
        obtain ⟨rfl, rfl⟩ := hd
        subst hl
        refine ⟨l₁, d ++ a :: m₂, by simp, h₁, ?_⟩
        rw [List.forall_mem_append, List.forall_mem_cons]
        rw [List.forall_mem_append] at h₂
        exact ⟨h₂.1, by simpa using hm x (by simp), h₂.2⟩

/-- What is added behind a list stands, in order, between what does not come behind it and
what does. -/
lemma exists_mergeSort_append_singleton {α : Type} {le : α → α → Bool}
    (htrans : ∀ a b c, le a b → le b c → le a c) (htotal : ∀ a b, le a b || le b a)
    (l : List α) (x : α) :
    ∃ l₁ l₂, (l ++ [x]).mergeSort le = l₁ ++ x :: l₂ ∧ l₁.Perm (l.filter (le · x)) ∧
      l₂.Perm (l.filter fun a => !le a x) := by
  obtain ⟨l₁, l₂, heq, h₁, h₂⟩ := mergeSort_append_singleton htrans htotal l x
  have hperm : (l₁ ++ l₂).Perm l := by
    have h := List.mergeSort_perm (l ++ [x]) le
    rw [heq] at h
    exact (List.perm_middle.symm.trans (h.trans (List.perm_append_singleton x l))).cons_inv
  have hle : (l₁ ++ l₂).filter (le · x) = l₁ := by
    rw [List.filter_append, List.filter_eq_self.mpr h₁,
      List.filter_eq_nil_iff.mpr (by simpa using h₂),
      List.append_nil]
  have hgt : (l₁ ++ l₂).filter (fun a => !le a x) = l₂ := by
    rw [List.filter_append, List.filter_eq_nil_iff.mpr (by simpa using h₁),
      List.filter_eq_self.mpr (by simpa using h₂), List.nil_append]
  refine ⟨l₁, l₂, heq, ?_, ?_⟩
  · have h := hperm.filter (le · x)
    rwa [hle] at h
  · have h := hperm.filter fun a => !le a x
    rwa [hgt] at h

/-! ### Filling -/

/-- The source from `start` up to `stop`, with edits in order put in. -/
def filled (source : Text) (start stop : Nat) : List Edit → Text
  | [] => source.cut start stop
  | e :: es => source.cut start e.start ++ e.text ++ filled source e.stop stop es

section Filled

variable {source : Text} {a b z : Nat}

/-- What is filled can be parted at a boundary that all edits stand in front of or behind. -/
lemma filled_append {es fs : List Edit} (ha : source.IsBoundary a) (hb : source.IsBoundary b)
    (hz : source.IsBoundary z) (hab : a ≤ b) (hbz : b ≤ z) (hes : ∀ e ∈ es, e.Fits source)
    (hfs : ∀ f ∈ fs, f.Fits source) (hbefore : ∀ e ∈ es, e.stop ≤ b)
    (hbehind : ∀ f ∈ fs, b ≤ f.start) :
    filled source a z (es ++ fs) = filled source a b es ++ filled source b z fs := by
  induction es generalizing a with
  | nil =>
      cases fs with
      | nil => exact (Text.cut_append_cut ha hb hz hab hbz).symm
      | cons f fs =>
          rw [List.forall_mem_cons] at hfs hbehind
          simp only [List.nil_append, filled, ← List.append_assoc]
          rw [Text.cut_append_cut ha hb hfs.1.start hab hbehind.1]
  | cons e es ih =>
      rw [List.forall_mem_cons] at hes hbefore
      rw [List.cons_append, filled, filled, ih hes.1.stop hbefore.1 hes.2 hbefore.2,
        List.append_assoc _ _ (filled source b z fs)]

/-- Edits of the same span that can change places: they are equal, or insertions whose texts
can change places. -/
def Edit.Commutes (e f : Edit) : Prop :=
  e.start = f.start → e.stop = f.stop →
    e = f ∨ e.start = e.stop ∧ e.text ++ f.text = f.text ++ e.text

instance (e f : Edit) : Decidable (e.Commutes f) :=
  inferInstanceAs (Decidable (e.start = f.start → e.stop = f.stop →
    e = f ∨ e.start = e.stop ∧ e.text ++ f.text = f.text ++ e.text))

/-- An edit can be moved in front of others of its span. -/
lemma filled_move {e : Edit} {us es : List Edit}
    (hspan : ∀ u ∈ us, u.start = e.start ∧ u.stop = e.stop) (hcomm : ∀ u ∈ us, u.Commutes e) :
    filled source a z (us ++ e :: es) = filled source a z (e :: (us ++ es)) := by
  induction us generalizing a with
  | nil => rfl
  | cons u us ih =>
      rw [List.forall_mem_cons] at hspan hcomm
      rw [List.cons_append, filled, ih hspan.2 hcomm.2]
      obtain ⟨hstart, hstop⟩ := hspan.1
      rcases hcomm.1 hstart hstop with rfl | ⟨hempty, htext⟩
      · rfl
      · -- both insert at one place, so that only their texts change places
        have he : e.start = e.stop := by omega
        simp only [filled, List.cons_append, hstart, hstop, ← he, Text.cut_self, List.nil_append]
        rw [List.append_assoc, ← List.append_assoc u.text, htext]
        simp only [List.append_assoc]

/-- Filling does not depend on the order of edits that can change places. -/
lemma filled_perm {es fs : List Edit} (hperm : es.Perm fs)
    (hes : es.Pairwise fun e f => Edit.le e f = true)
    (hfs : fs.Pairwise fun e f => Edit.le e f = true)
    (hcomm : ∀ e ∈ es, ∀ f ∈ es, e.Commutes f) : filled source a z es = filled source a z fs := by
  induction es generalizing a fs with
  | nil => rw [hperm.nil_eq]
  | cons e es ih =>
      obtain ⟨us, vs, rfl⟩ := List.append_of_mem (hperm.mem_iff.mp List.mem_cons_self)
      rw [List.pairwise_cons] at hes
      rw [List.pairwise_append] at hfs
      have hrest : es.Perm (us ++ vs) := (hperm.trans List.perm_middle).cons_inv
      have hus : ∀ u ∈ us, u ∈ es := fun u hu => hrest.mem_iff.mpr (by simp [hu])
      have hspan : ∀ u ∈ us, u.start = e.start ∧ u.stop = e.stop := by
        intro u hu
        have h₁ := hes.1 u (hus u hu)
        have h₂ := hfs.2.2 u hu e List.mem_cons_self
        rw [Edit.le_iff] at h₁ h₂
        omega
      have hsorted : (us ++ vs).Pairwise fun e f => Edit.le e f = true :=
        List.pairwise_append.mpr ⟨hfs.1, (List.pairwise_cons.mp hfs.2.1).2,
          fun u hu v hv => hfs.2.2 u hu v (List.mem_cons_of_mem e hv)⟩
      rw [filled_move hspan fun u hu => hcomm u (by simp [hus u hu]) e (by simp), filled, filled,
        ih hrest hes.2 hsorted fun e he f hf => hcomm e (by simp [he]) f (by simp [hf])]

end Filled

namespace Patch

variable {source : Text}

/-- Edits that stand one behind the other are applied. -/
lemma applyFrom_eq_filled {cursor : Nat} {es : List Edit} (hcursor : source.IsBoundary cursor)
    (hfrom : ∀ e ∈ es, cursor ≤ e.start) (hfits : ∀ e ∈ es, e.Fits source)
    (h : es.Pairwise fun e f => e.stop ≤ f.start) :
    applyFrom source cursor es = .ok (filled source cursor source.byteLength es) := by
  induction es generalizing cursor with
  | nil => rw [applyFrom, Text.dropBytes?_eq_cut hcursor, filled]
  | cons e es ih =>
      rw [List.forall_mem_cons] at hfrom hfits
      rw [List.pairwise_cons] at h
      have hle := hfits.1.le
      have hstop := hfits.1.stop.le_byteLength
      rw [applyFrom, if_neg (by omega), Text.slice?_eq_cut hcursor hfits.1.start hfrom.1,
        ih hfits.1.stop h.1 hfits.2 h.2]
      rfl

/-- **Applying a patch**: edits that fit the source and are apart are put in. -/
theorem apply_eq_filled {p : Patch} (hfits : ∀ e ∈ p.edits, e.Fits source)
    (h : p.edits.Pairwise Edit.IsApart) :
    p.apply source = .ok (filled source 0 source.byteLength p.ordered) := by
  refine applyFrom_eq_filled (Text.isBoundary_zero source) (fun _ _ => Nat.zero_le _)
    (fun e he => ?_) (pairwise_ordered (fun e he => (hfits e he).le) h)
  exact hfits e (List.mem_mergeSort.mp he)

/-- Without edits the source stays. -/
lemma apply_nil (source : Text) : (⟨[]⟩ : Patch).apply source = .ok source := by
  have hordered : (⟨[]⟩ : Patch).ordered = [] := List.mergeSort_nil
  rw [apply_eq_filled (by simp) .nil, hordered, filled, Text.cut_all]

/-- A single insertion. -/
lemma apply_insert (before e ins : Text) :
    (empty.insert (Text.byteLength before) ins).apply (before ++ e)
      = .ok (before ++ (ins ++ e)) := by
  have hslice : (before ++ e).slice? 0 (Text.byteLength before) = some before := by
    simpa using Text.slice?_append [] before e
  have hdrop : (before ++ e).dropBytes? (Text.byteLength before) = some e :=
    Text.dropBytes?_eq_some_iff.mpr ⟨before, rfl, rfl⟩
  simp [apply, ordered, insert, replace, empty, applyFrom, hslice, hdrop]

/-! ### Success -/

/-- Edits that are taken one behind the other are applied exactly if each begins behind the one
before and has a span of the source; else one of them is reported. -/
lemma applyFrom_cases {cursor : Nat} {es : List Edit} (hcursor : source.IsBoundary cursor)
    (haligned : ∀ e ∈ es, e.IsAligned source) :
    (∃ t, applyFrom source cursor es = .ok t ∧
        (∀ e ∈ es, cursor ≤ e.start ∧ e.HasSpan source) ∧
          es.Pairwise fun e f => e.stop ≤ f.start) ∨
      (∃ e ∈ es, applyFrom source cursor es = .error (.diagnosed e.overlap)) ∧
        ¬ ((∀ e ∈ es, cursor ≤ e.start ∧ e.HasSpan source) ∧
          es.Pairwise fun e f => e.stop ≤ f.start) := by
  induction es generalizing cursor with
  | nil =>
      left
      rw [applyFrom, Text.dropBytes?_eq_cut hcursor]
      exact ⟨_, rfl, by simp, .nil⟩
  | cons e es ih =>
      obtain ⟨he, hes⟩ := List.forall_mem_cons.mp haligned
      rw [applyFrom]
      split_ifs with hbad
      · right
        refine ⟨⟨e, List.mem_cons_self, rfl⟩, fun h => ?_⟩
        obtain ⟨hle, hspan⟩ := h.1 e List.mem_cons_self
        have := hspan.le
        have := hspan.stop
        omega
      · have hspan : e.HasSpan source := ⟨by omega, by omega⟩
        have hfits := he.fits hspan
        rw [Text.slice?_eq_cut hcursor hfits.start (by omega)]
        dsimp only
        rcases ih hfits.stop hes with ⟨t, ht, hfrom, hline⟩ | ⟨⟨f, hf, herror⟩, hnot⟩
        · left
          rw [ht]
          refine ⟨_, rfl, List.forall_mem_cons.mpr ⟨⟨by omega, hspan⟩, fun f hf => ?_⟩,
            List.pairwise_cons.mpr ⟨fun f hf => (hfrom f hf).1, hline⟩⟩
          obtain ⟨hle, hspan'⟩ := hfrom f hf
          have := hspan.le
          exact ⟨by omega, hspan'⟩
        · right
          rw [herror]
          refine ⟨⟨f, List.mem_cons_of_mem e hf, rfl⟩, fun ⟨hfrom, hline⟩ => hnot ?_⟩
          rw [List.pairwise_cons] at hline
          exact ⟨fun f hf => ⟨hline.1 f hf, (hfrom f (List.mem_cons_of_mem e hf)).2⟩, hline.2⟩

/-- In order, edits with spans stand one behind the other exactly if they are apart. -/
lemma pairwise_ordered_iff {es : List Edit} (hle : ∀ e ∈ es, e.start ≤ e.stop) :
    (es.mergeSort Edit.le).Pairwise (fun e f => e.stop ≤ f.start) ↔ es.Pairwise Edit.IsApart := by
  refine ⟨fun h => ?_, pairwise_ordered hle⟩
  have hperm := List.mergeSort_perm es Edit.le
  exact (hperm.pairwise_iff fun h => Edit.IsApart.symm h).mp (h.imp fun h => .inl h)

/-- The same for a patch. -/
lemma apply_cases {p : Patch} (haligned : ∀ e ∈ p.edits, e.IsAligned source) :
    (Succeeds (p.apply source) ∧
        (∀ e ∈ p.edits, e.HasSpan source) ∧ p.edits.Pairwise Edit.IsApart) ∨
      (∃ e ∈ p.edits, p.apply source = .error (.diagnosed e.overlap)) ∧
        ¬ ((∀ e ∈ p.edits, e.HasSpan source) ∧ p.edits.Pairwise Edit.IsApart) := by
  have hmem : ∀ e, e ∈ p.ordered ↔ e ∈ p.edits := fun e => List.mem_mergeSort
  rcases applyFrom_cases (Text.isBoundary_zero source) fun e he =>
    haligned e ((hmem e).mp he) with ⟨t, ht, hfrom, hline⟩ | ⟨⟨e, he, herror⟩, hnot⟩
  · left
    have hspan : ∀ e ∈ p.edits, e.HasSpan source := fun e he => (hfrom e ((hmem e).mpr he)).2
    exact ⟨⟨t, ht⟩, hspan, (pairwise_ordered_iff fun e he => (hspan e he).le).mp hline⟩
  · right
    refine ⟨⟨e, (hmem e).mp he, herror⟩, fun ⟨hspan, hapart⟩ => hnot ⟨fun e he => ?_, ?_⟩⟩
    · exact ⟨Nat.zero_le _, hspan e ((hmem e).mp he)⟩
    · exact (pairwise_ordered_iff fun e he => (hspan e he).le).mpr hapart

/-- A patch is applied exactly if its edits have spans of the source that are apart. -/
lemma succeeds_apply_iff_isApart {p : Patch} (haligned : ∀ e ∈ p.edits, e.IsAligned source) :
    Succeeds (p.apply source) ↔
      (∀ e ∈ p.edits, e.HasSpan source) ∧ p.edits.Pairwise Edit.IsApart := by
  rcases apply_cases haligned with ⟨hok, h⟩ | ⟨⟨e, -, herror⟩, hnot⟩
  · exact iff_of_true hok h
  · rw [herror]
    exact iff_of_false (not_succeeds_error _) hnot

/-- **When a patch is applied**: if no edit cuts a character, exactly if all edits have spans of
the source and any two of them are apart. Else an edit is reported as an overlap. The order of
recording does not matter. -/
theorem succeeds_apply_iff (source : Text) (p : Patch)
    (haligned : ∀ e ∈ p.edits, e.IsAligned source) :
    (Succeeds (p.apply source) ↔
      (∀ e ∈ p.edits, e.HasSpan source) ∧ p.edits.Pairwise Edit.IsApart) ∧
    FailsOnly (fun f => ∃ e ∈ p.edits,
      f = .diagnosed e.overlap ∧ e.overlap.cause.code = Code.overlappingEdits) (p.apply source) ∧
    ∀ q : Patch, q.edits.Perm p.edits →
      (Succeeds (q.apply source) ↔ Succeeds (p.apply source)) := by
  refine ⟨succeeds_apply_iff_isApart haligned, fun f hf => ?_, fun q hq => ?_⟩
  · rcases apply_cases haligned with ⟨⟨t, ht⟩, -⟩ | ⟨⟨e, he, herror⟩, -⟩
    · rw [ht] at hf
      cases hf
    · rw [herror] at hf
      cases hf
      exact ⟨e, he, rfl, rfl⟩
  · rw [succeeds_apply_iff_isApart haligned,
      succeeds_apply_iff_isApart fun e he => haligned e (hq.mem_iff.mp he),
      hq.pairwise_iff fun h => Edit.IsApart.symm h]
    simp only [hq.mem_iff]

/-- A replacement with insertions at both of its ends and a deletion behind it. -/
def touching : Patch :=
  Patch.empty |>.replace 2 3 "b" |>.insert 3 "c" |>.replace 3 5 "" |>.insert 2 "a"

/-- Edits that touch are applied in any order of recording, but not with one that reaches into
another. -/
theorem succeeds_apply_iff_touching :
    (∀ e ∈ touching.edits, e.IsAligned "é-éx-") ∧ Succeeds (touching.apply "é-éx-") ∧
      (∀ q : Patch, q.edits.Perm touching.edits → Succeeds (q.apply "é-éx-")) ∧
        ¬ Succeeds ((touching.replace 0 3 "d").apply "é-éx-") := by
  have haligned : ∀ e ∈ touching.edits, e.IsAligned "é-éx-" := by decide
  obtain ⟨hiff, -, hperm⟩ := succeeds_apply_iff "é-éx-" touching haligned
  have hok : Succeeds (touching.apply "é-éx-") := hiff.mpr (by decide)
  refine ⟨haligned, hok, fun q hq => (hperm q hq).mpr hok, ?_⟩
  rw [(succeeds_apply_iff "é-éx-" (touching.replace 0 3 "d") (by decide)).1]
  decide

end Patch

end ComponentMigration
