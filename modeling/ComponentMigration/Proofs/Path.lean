import ComponentMigration.Path
import Mathlib.Data.List.TakeWhile
import Mathlib.Tactic.Common

/-!
The names on a path.

* **Names.** An entry of a directory has a name without slashes that is none of the names with
  a meaning of their own. Joining such names to a path puts them behind its segments
  (`segments_foldl_join`).
* **Extensions.** `cutExtension_append`: a name is cut at its last dot, if there is something in
  front of it.
-/

namespace ComponentMigration

namespace Text

variable {sep : Char} {s t : Text}

lemma splitOn_of_not_mem (h : sep ∉ t) : splitOn sep t = [t] := by
  induction t with
  | nil => rfl
  | cons c t ih =>
      obtain ⟨hc, ht⟩ := List.ne_and_not_mem_of_not_mem_cons h
      rw [splitOn, if_neg (Ne.symm hc), ih ht]

lemma splitOn_ne_nil (sep : Char) (t : Text) : splitOn sep t ≠ [] := by
  cases t with
  | nil => simp [splitOn]
  | cons c t =>
      rw [splitOn]
      split_ifs
      · simp
      · split <;> simp

/-- What is behind a separator is split by itself. -/
lemma splitOn_append_cons (sep : Char) (s t : Text) :
    splitOn sep (s ++ sep :: t) = splitOn sep s ++ splitOn sep t := by
  induction s with
  | nil => simp [splitOn]
  | cons c s ih =>
      rw [List.cons_append, splitOn, splitOn, ih]
      split_ifs
      · rfl
      · obtain ⟨part, parts, hparts⟩ := List.exists_cons_of_ne_nil (splitOn_ne_nil sep s)
        rw [hparts]
        rfl

end Text

namespace Path

/-! ### Names -/

/-- A name that an entry of a directory can have. -/
structure IsName (name : Text) : Prop where
  ne_nil : name ≠ []
  slash : '/' ∉ name
  ne_dot : name ≠ ['.']
  ne_dots : name ≠ ['.', '.']

instance : DecidablePred IsName := fun name =>
  decidable_of_iff (name ≠ [] ∧ '/' ∉ name ∧ name ≠ ['.'] ∧ name ≠ ['.', '.'])
    ⟨fun ⟨h, h', h₁, h₂⟩ => ⟨h, h', h₁, h₂⟩, fun h => ⟨h.ne_nil, h.slash, h.ne_dot, h.ne_dots⟩⟩

variable {name path : Text} {names : List Text}

/-- A joined name is one more segment. -/
lemma segments_join (path : Text) (h : IsName name) :
    segments (join path name) = segments path ++ [name] := by
  have hname : (Text.splitOn '/' name).filter (fun s => s ≠ [] ∧ s ≠ ['.']) = [name] := by
    rw [Text.splitOn_of_not_mem h.slash]
    simp [h.ne_nil, h.ne_dot]
  rw [join]
  split_ifs with hslash
  · obtain ⟨p, rfl⟩ := List.getLast?_eq_some_iff.mp hslash
    rw [segments, segments, List.append_assoc, List.singleton_append, Text.splitOn_append_cons,
      Text.splitOn_append_cons, List.filter_append, List.filter_append, hname]
    simp [Text.splitOn]
  · rw [segments, segments, Text.splitOn_append_cons, List.filter_append, hname]

/-- Joined names are the last segments. -/
lemma segments_foldl_join (path : Text) (h : ∀ n ∈ names, IsName n) :
    segments (names.foldl join path) = segments path ++ names := by
  induction names generalizing path with
  | nil => simp
  | cons n ns ih =>
      obtain ⟨hn, hns⟩ := List.forall_mem_cons.mp h
      rw [List.foldl_cons, ih _ hns, segments_join path hn, List.append_assoc,
        List.singleton_append]

/-- The name of a file is the last name that was joined. -/
lemma fileName?_foldl_join (path : Text) (h : ∀ n ∈ names, IsName n) (hname : IsName name) :
    fileName? ((names ++ [name]).foldl join path) = some name := by
  have hall : ∀ n ∈ names ++ [name], IsName n := by
    intro n hn
    rcases List.mem_append.mp hn with hn | hn
    · exact h n hn
    · exact List.mem_singleton.mp hn ▸ hname
  rw [fileName?, segments_foldl_join path hall, ← List.append_assoc, List.getLast?_concat]
  simp [hname.ne_dots]

/-! ### Extensions -/

lemma ne_dot_of_mem_reverse {t : Text} (h : '.' ∉ t) :
    ∀ c ∈ t.reverse, decide (c ≠ '.') = true := by
  intro c hc
  refine decide_eq_true ?_
  rintro rfl
  exact h (List.mem_reverse.mp hc)

lemma cutExtension_of_not_mem (h : '.' ∉ name) : cutExtension name = (name, none) := by
  rw [cutExtension, List.takeWhile_eq_self_iff.mpr (ne_dot_of_mem_reverse h), List.reverse_reverse]
  simp

/-- A name is cut at its last dot, if there is something in front of it. -/
lemma cutExtension_append (stem : Text) {extension : Text} (h : '.' ∉ extension) :
    cutExtension (stem ++ '.' :: extension)
      = if stem = [] then ('.' :: extension, none) else (stem, some extension) := by
  have hrun : (stem ++ '.' :: extension).reverse.takeWhile (· ≠ '.') = extension.reverse := by
    rw [List.reverse_append, List.reverse_cons, List.append_assoc,
      List.takeWhile_append_of_pos (ne_dot_of_mem_reverse h)]
    simp
  have hstem : (stem ++ '.' :: extension).length - extension.length - 1 = stem.length := by
    rw [List.length_append, List.length_cons]
    omega
  rw [cutExtension, hrun, List.reverse_reverse, hstem, List.take_left' rfl]
  split_ifs with hnil
  · rw [hnil, List.nil_append]
  · rfl

/-- A name has an extension if and only if it is behind its last dot, with something in front
of the dot. -/
lemma cutExtension_snd_iff {extension : Text} (h : '.' ∉ extension) :
    (cutExtension name).2 = some extension ↔
      ∃ stem, stem ≠ [] ∧ name = stem ++ '.' :: extension := by
  constructor
  · intro hname
    by_cases hdot : '.' ∈ name
    · obtain ⟨as, bs, hsplit, has⟩ := List.eq_append_cons_of_mem (List.mem_reverse.mpr hdot)
      have hcut : name = bs.reverse ++ '.' :: as.reverse := by
        rw [← List.reverse_reverse name, hsplit]
        simp
      rw [hcut, cutExtension_append _ (by simpa using has)] at hname
      split_ifs at hname with hnil
      cases hname
      exact ⟨_, hnil, hcut⟩
    · rw [cutExtension_of_not_mem hdot] at hname
      cases hname
  · rintro ⟨stem, hstem, rfl⟩
    rw [cutExtension_append stem h, if_neg hstem]

end Path

end ComponentMigration
