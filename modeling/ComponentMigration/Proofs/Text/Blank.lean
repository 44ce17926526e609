import ComponentMigration.Text.Blank
import Mathlib.Data.List.DropRight

/-!
Trimming.

* **Ends.** A text that begins with no blank keeps that when it is cut at its end, so a
  trimmed text is trimmed (`trim_trim`), as is one without blanks at its ends, and no other
  (`trim_eq_self_iff`). What begins and ends with no blank stays at the head of
  a text that is trimmed (`exists_trim_append`).
* **Blanks around.** `trim_append_left` and `trim_append_right`: blanks at the ends do not count,
  and in front of a trimmed text only the start is cut (`trim_append_of_trim_eq`).
-/

namespace ComponentMigration.Text

lemma trimEnd_eq_rdropWhile (t : Text) : trimEnd t = t.rdropWhile isBlank := rfl

/-- Cutting at the end leaves the start as it is. -/
lemma trimStart_trimEnd {t : Text} (h : trimStart t = t) : trimStart (trimEnd t) = trimEnd t := by
  rw [trimEnd_eq_rdropWhile, trimStart, List.dropWhile_eq_self_iff]
  intro hpos
  have hpre : t.rdropWhile isBlank <+: t := List.rdropWhile_prefix isBlank t
  have hlt : 0 < t.length := Nat.lt_of_lt_of_le hpos hpre.length_le
  rw [hpre.getElem hpos]
  exact List.dropWhile_eq_self_iff.mp h hlt

lemma trim_trimStart (t : Text) : trim (trimStart t) = trim t := by
  have h : trimStart (trimStart t) = trimStart t := List.dropWhile_idempotent isBlank t
  rw [trim, h, trim]

/-- Trimming a trimmed text changes nothing. -/
@[simp] lemma trim_trim (t : Text) : trim (trim t) = trim t := by
  have h : trimStart (trim t) = trim t :=
    trimStart_trimEnd (List.dropWhile_idempotent isBlank t)
  rw [trim, h, trim, trimEnd_eq_rdropWhile, trimEnd_eq_rdropWhile]
  exact List.rdropWhile_idempotent isBlank _

lemma trimStart_eq_self {t : Text} (hhead : ∀ c ∈ t.head?, isBlank c = false) :
    trimStart t = t := by
  rw [trimStart, List.dropWhile_eq_self_iff]
  intro hpos
  rw [hhead t[0] (List.head?_eq_getElem?.trans (List.getElem?_eq_getElem hpos))]
  exact Bool.false_ne_true

/-- A text without blanks at its two ends is trimmed. -/
lemma trim_eq_self {t : Text} (hhead : ∀ c ∈ t.head?, isBlank c = false)
    (hlast : ∀ c ∈ t.getLast?, isBlank c = false) : trim t = t := by
  rw [trim, trimStart_eq_self hhead, trimEnd_eq_rdropWhile, List.rdropWhile_eq_self_iff]
  intro hne
  rw [hlast _ (List.getLast?_eq_some_getLast hne)]
  exact Bool.false_ne_true

/-- A text is trimmed if and only if it has no blanks at its two ends. -/
lemma trim_eq_self_iff {t : Text} : trim t = t ↔
    (∀ c ∈ t.head?, isBlank c = false) ∧ ∀ c ∈ t.getLast?, isBlank c = false := by
  refine ⟨fun h => ?_, fun h => trim_eq_self h.1 h.2⟩
  rw [← h]
  constructor
  · intro c hc
    obtain ⟨r, hr⟩ := List.rdropWhile_prefix isBlank (trimStart t)
    have hhead : (trimStart t).head? = some c := by
      rw [← hr, List.head?_append, ← trimEnd_eq_rdropWhile, ← trim, Option.mem_def.mp hc]
      rfl
    have hnot := List.head?_dropWhile_not isBlank t
    rw [← trimStart, hhead] at hnot
    simpa using hnot
  · intro c hc
    have hne : trim t ≠ [] := by
      intro hnil
      rw [hnil] at hc
      cases hc
    have hnot := List.rdropWhile_last_not isBlank (trimStart t) hne
    rw [List.getLast?_eq_some_getLast hne] at hc
    cases hc
    exact eq_false_of_ne_true hnot

/-- In front of a trimmed text only the start is cut. -/
lemma trim_append_of_trim_eq {t : Text} (hne : t ≠ []) (ht : trim t = t) (a : Text) :
    trim (a ++ t) = trimStart a ++ t := by
  obtain ⟨hhead, hlast⟩ := trim_eq_self_iff.mp ht
  have hstart : trimStart (a ++ t) = trimStart a ++ t := by
    rw [trimStart, List.dropWhile_append]
    split_ifs with hnil
    · rw [trimStart, List.isEmpty_iff.mp hnil, List.nil_append]
      exact trimStart_eq_self hhead
    · rfl
  rw [trim, hstart, trimEnd_eq_rdropWhile, List.rdropWhile_eq_self_iff]
  intro hne'
  rw [List.getLast_append_of_ne_nil hne' hne,
    hlast _ (List.getLast?_eq_some_getLast hne)]
  exact Bool.false_ne_true

/-- Blanks in front are trimmed. -/
lemma trim_append_left {b : Text} (hb : ∀ c ∈ b, isBlank c = true) (t : Text) :
    trim (b ++ t) = trim t := by
  rw [trim, trimStart, List.dropWhile_append_of_pos hb, trim, trimStart]

/-- Blanks behind are trimmed. -/
lemma trim_append_right {b : Text} (hb : ∀ c ∈ b, isBlank c = true) (t : Text) :
    trim (t ++ b) = trim t := by
  have hend (s : Text) : trimEnd (s ++ b) = trimEnd s := by
    rw [trimEnd, List.reverse_append,
      List.dropWhile_append_of_pos fun c hc => hb c (List.mem_reverse.mp hc), trimEnd]
  rw [trim, trimStart, List.dropWhile_append]
  split_ifs with hnil
  · rw [List.isEmpty_iff] at hnil
    rw [trim, trimStart, hnil, List.dropWhile_eq_nil_iff.mpr hb]
  · exact hend _

/-- Trimming keeps a beginning that has no blank at its two ends. -/
lemma exists_trim_append {c : Char} {s : Text} (hc : isBlank c = false)
    (hs : trimEnd (c :: s) = c :: s) (t : Text) : ∃ u, trim (c :: s ++ t) = c :: s ++ u := by
  have hstart : trimStart (c :: s ++ t) = c :: s ++ t := by simp [trimStart, hc]
  rw [trimEnd, List.reverse_eq_iff] at hs
  rw [trim, hstart, trimEnd, List.reverse_append, List.dropWhile_append, hs]
  split_ifs
  · exact ⟨[], by simp⟩
  · exact ⟨(t.reverse.dropWhile isBlank).reverse, by simp⟩

end ComponentMigration.Text
