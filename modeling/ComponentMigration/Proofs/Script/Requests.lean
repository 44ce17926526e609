import ComponentMigration.Proofs.Script.Adding
import Mathlib.Data.List.Induction
import Mathlib.Data.List.Lex
import Mathlib.Data.List.Sort

/-!
Requests for imports.

* **Order.** `Precedes`: by module, then by name. A request goes to its place, whatever was
  required before it (`pairwise_insertPair`), so that the order of the pairs holds for all sets
  `ofCalls calls`, and such a set is known from its pairs.
* **Gaps.** `missing` are the required names that a script does not take. What is added for a
  module are its missing names (`missingNames_namesOf`), and modules without any are passed over.
* **Main statement.** `apply_ofCalls`: what is added and which edits are recorded depends on the
  set of required names alone. All missing names are added once and in order, with one insertion
  for each module.
-/

namespace ComponentMigration.Script

variable {bound names : List Text} {m n : Text} {p : Program}

/-! ### Modules and names in order -/

namespace Requests

variable {a b : Text × Text} {l calls calls' : List (Text × Text)} {ms : List Text}
  {r : Requests}

/-- By module, then by name. -/
abbrev Precedes : Text × Text → Text × Text → Prop := Prod.Lex (· < ·) (· < ·)

lemma before_iff : before a b = true ↔ Precedes a b := by
  simp [before, Prod.lex_def]

lemma mem_insertPair : b ∈ insertPair a l ↔ b = a ∨ b ∈ l := by
  induction l with
  | nil => simp [insertPair]
  | cons c l ih =>
      rw [insertPair]
      split_ifs with hbefore heq
      · rw [List.mem_cons]
      · rw [beq_iff_eq] at heq
        rw [heq, List.mem_cons]
        exact (or_iff_right_of_imp .inl).symm
      · rw [List.mem_cons, ih, List.mem_cons, or_left_comm]

/-- A pair goes to its place. -/
lemma pairwise_insertPair (h : l.Pairwise Precedes) : (insertPair a l).Pairwise Precedes := by
  induction l with
  | nil => exact List.pairwise_singleton _ _
  | cons c l ih =>
      obtain ⟨hc, hl⟩ := List.pairwise_cons.mp h
      rw [insertPair]
      split_ifs with hbefore heq
      · rw [before_iff] at hbefore
        refine List.pairwise_cons.mpr ⟨fun b hb => ?_, h⟩
        rcases List.mem_cons.mp hb with rfl | hb
        · exact hbefore
        · exact IsTrans.trans _ _ _ hbefore (hc b hb)
      · exact h
      · rw [before_iff] at hbefore
        rw [beq_iff_eq] at heq
        refine List.pairwise_cons.mpr ⟨fun b hb => ?_, ih hl⟩
        rcases mem_insertPair.mp hb with rfl | hb
        · exact (trichotomous_of Precedes c b).resolve_right (not_or.mpr ⟨Ne.symm heq, hbefore⟩)
        · exact hc b hb

/-- The set of names that were required one after another. -/
def ofCalls (calls : List (Text × Text)) : Requests :=
  calls.foldl (fun r a => r.require a.1 a.2) empty

lemma ofCalls_append_singleton (calls : List (Text × Text)) (a : Text × Text) :
    ofCalls (calls ++ [a]) = (ofCalls calls).require a.1 a.2 := by
  rw [ofCalls, List.foldl_append, List.foldl_cons, List.foldl_nil, ofCalls]

lemma mem_ofCalls : a ∈ (ofCalls calls).pairs ↔ a ∈ calls := by
  induction calls using List.reverseRecOn with
  | nil => exact Iff.rfl
  | append_singleton calls b ih =>
      rw [ofCalls_append_singleton, require, mem_insertPair, ih, List.mem_append,
        List.mem_singleton, or_comm]

lemma pairwise_ofCalls (calls : List (Text × Text)) :
    (ofCalls calls).pairs.Pairwise Precedes := by
  induction calls using List.reverseRecOn with
  | nil => exact .nil
  | append_singleton calls b ih =>
      rw [ofCalls_append_singleton]
      exact pairwise_insertPair ih

/-- Neither the order of the calls nor their repetition is seen in the set. -/
lemma ofCalls_congr (h : ∀ a, a ∈ calls' ↔ a ∈ calls) : ofCalls calls' = ofCalls calls := by
  have hpairs : (ofCalls calls').pairs = (ofCalls calls).pairs :=
    (pairwise_ofCalls calls').eq_of_mem_iff (pairwise_ofCalls calls) fun a => by
      rw [mem_ofCalls, mem_ofCalls, h]
  exact congrArg Requests.mk hpairs

lemma mem_modules : m ∈ r.modules ↔ ∃ n, (m, n) ∈ r.pairs := by
  rw [modules, List.mem_eraseDups, List.mem_map]
  constructor
  · rintro ⟨⟨m, n⟩, h, rfl⟩
    exact ⟨n, h⟩
  · rintro ⟨n, h⟩
    exact ⟨(m, n), h, rfl⟩

/-- Of texts in order one of each is left. -/
lemma pairwise_eraseDups (h : ms.Pairwise fun m k => m < k ∨ m = k) :
    ms.eraseDups.Pairwise (· < ·) := by
  induction hlength : ms.length using Nat.strongRecOn generalizing ms with
  | _ k ih =>
      cases ms with
      | nil => exact .nil
      | cons m ms =>
          obtain ⟨hm, hms⟩ := List.pairwise_cons.mp h
          rw [List.eraseDups_cons]
          refine List.pairwise_cons.mpr ⟨fun k hk => ?_, ?_⟩
          · obtain ⟨hk, hne⟩ := List.mem_filter.mp (List.mem_eraseDups.mp hk)
            refine (hm k hk).resolve_right fun heq => ?_
            simp [heq] at hne
          · have hle := List.length_filter_le (fun k => !k == m) ms
            rw [List.length_cons] at hlength
            exact ih _ (by omega) (hms.filter _) rfl

lemma pairwise_modules (h : r.pairs.Pairwise Precedes) : r.modules.Pairwise (· < ·) :=
  pairwise_eraseDups <| List.pairwise_map.mpr <| h.imp fun hab =>
    (Prod.lex_def.mp hab).imp_right And.left

lemma mem_namesOf : n ∈ r.namesOf m ↔ (m, n) ∈ r.pairs := by
  rw [namesOf, List.mem_map]
  constructor
  · rintro ⟨⟨k, n⟩, h, rfl⟩
    obtain ⟨hmem, hmodule⟩ := List.mem_filter.mp h
    obtain rfl : k = m := beq_iff_eq.mp hmodule
    exact hmem
  · intro h
    exact ⟨(m, n), List.mem_filter.mpr ⟨h, beq_self_eq_true m⟩, rfl⟩

lemma pairwise_namesOf (h : r.pairs.Pairwise Precedes) (m : Text) :
    (r.namesOf m).Pairwise (· < ·) := by
  refine List.pairwise_map.mpr ((h.filter _).imp_of_mem fun {a b} ha hb hab => ?_)
  have hmodule : a.1 = b.1 :=
    (beq_iff_eq.mp (List.mem_filter.mp ha).2).trans (beq_iff_eq.mp (List.mem_filter.mp hb).2).symm
  rcases Prod.lex_def.mp hab with hlt | ⟨-, hlt⟩
  · rw [hmodule] at hlt
    exact absurd hlt (irrefl _)
  · exact hlt

/-- Module by module, a set of requests is all of its pairs. -/
lemma flatMap_namesOf (h : r.pairs.Pairwise Precedes) (hms : ms.Pairwise (· < ·))
    (hmodules : ∀ a ∈ r.pairs, a.1 ∈ ms) :
    (ms.flatMap fun m => (r.namesOf m).map (Prod.mk m)) = r.pairs := by
  have hordered : (ms.flatMap fun m => (r.namesOf m).map (Prod.mk m)).Pairwise Precedes := by
    refine List.pairwise_flatMap.mpr ⟨fun m _ => ?_, hms.imp fun {m k} hlt a ha b hb => ?_⟩
    · exact List.pairwise_map.mpr ((pairwise_namesOf h m).imp (.right m))
    · obtain ⟨n, -, rfl⟩ := List.mem_map.mp ha
      obtain ⟨n', -, rfl⟩ := List.mem_map.mp hb
      exact .left n n' hlt
  refine hordered.eq_of_mem_iff h fun a => ?_
  rw [List.mem_flatMap]
  constructor
  · rintro ⟨m, -, ha⟩
    obtain ⟨n, hn, rfl⟩ := List.mem_map.mp ha
    exact mem_namesOf.mp hn
  · intro ha
    exact ⟨a.1, hmodules a ha, List.mem_map.mpr ⟨a.2, mem_namesOf.mpr ha, rfl⟩⟩

/-! ### Gaps -/

/-- The required names that a script does not take. -/
def missing (r : Requests) (p : Program) : Requests :=
  ⟨r.pairs.filter fun a => !(p.boundNames a.1).contains a.2⟩

lemma mem_missing : a ∈ (r.missing p).pairs ↔ a ∈ r.pairs ∧ ¬ p.Takes a.1 a.2 := by
  rw [missing, List.mem_filter, ← p.mem_boundNames_iff, Bool.not_eq_true', ← Bool.not_eq_true,
    List.contains_iff_mem]

lemma pairwise_missing (h : r.pairs.Pairwise Precedes) :
    (r.missing p).pairs.Pairwise Precedes := h.filter _

end Requests

/-- Names without repetitions are missing if they are not bound. -/
lemma missingNames_of_nodup (h : names.Nodup) :
    missingNames bound names = names.filter fun n => !bound.contains n := by
  induction names generalizing bound with
  | nil => rfl
  | cons n names ih =>
      obtain ⟨hn, hnames⟩ := List.nodup_cons.mp h
      rw [missingNames, ih hnames, ih hnames]
      split_ifs with hbound
      · rw [List.filter_cons_of_neg (by rw [hbound]; decide)]
      · rw [List.filter_cons_of_pos (by simpa using hbound)]
        refine congrArg (n :: ·) (List.filter_congr fun k hk => ?_)
        have hne : k ≠ n := fun heq => hn (heq ▸ hk)
        rw [List.contains_cons, beq_eq_false_iff_ne.mpr hne, Bool.false_or]

namespace Requests

variable {r : Requests}

lemma missingNames_namesOf (h : r.pairs.Pairwise Precedes) :
    missingNames (p.boundNames m) (r.namesOf m) = (r.missing p).namesOf m := by
  have hnodup : (r.namesOf m).Nodup := (pairwise_namesOf h m).imp ne_of_irrefl
  rw [missingNames_of_nodup hnodup, namesOf, namesOf, missing, List.filter_map,
    List.filter_filter, List.filter_filter]
  refine congrArg _ (List.filter_congr fun a _ => ?_)
  cases hmodule : a.1 == m with
  | false => simp
  | true => simp [beq_iff_eq.mp hmodule]

/-- The edit that adds names of a module to the imports. -/
def insertion (p : Program) (m : Text) (names : List Text) : Edit :=
  ⟨(p.importEdit m names).1, (p.importEdit m names).1, (p.importEdit m names).2⟩

/-- A name behind its module and a colon. -/
def label (a : Text × Text) : Text := a.1 ++ ':' :: a.2

/-- What is done for a module. -/
def addModule (r : Requests) (p : Program) (s : Patch × List Text) (m : Text) :
    Patch × List Text :=
  ((p.addImports s.1 m (r.namesOf m)).1,
    s.2 ++ (p.addImports s.1 m (r.namesOf m)).2.map fun n => m ++ ':' :: n)

lemma apply_eq_foldl (r : Requests) (p : Program) (patch : Patch) :
    r.apply p patch = r.modules.foldl (r.addModule p) (patch, []) := rfl

/-- A module without missing names is passed over. -/
lemma addModule_of_nil (h : r.pairs.Pairwise Precedes) (hnil : (r.missing p).namesOf m = [])
    (s : Patch × List Text) : r.addModule p s m = s := by
  rw [addModule, Program.addImports, missingNames_namesOf h, hnil]
  simp

/-- The missing names of a module are added with one insertion. -/
lemma addModule_of_ne_nil (h : r.pairs.Pairwise Precedes) (hne : (r.missing p).namesOf m ≠ [])
    (s : Patch × List Text) :
    r.addModule p s m = (⟨s.1.edits ++ [insertion p m ((r.missing p).namesOf m)]⟩,
      s.2 ++ (((r.missing p).namesOf m).map (Prod.mk m)).map label) := by
  obtain ⟨n, ns, hns⟩ := List.exists_cons_of_ne_nil hne
  rw [addModule, Program.addImports, missingNames_namesOf h, hns, List.map_map]
  rfl

/-- The modules one after another. -/
lemma foldl_addModule (h : r.pairs.Pairwise Precedes) (ms : List Text) (s : Patch × List Text) :
    ms.foldl (r.addModule p) s
      = (⟨s.1.edits ++ (ms.filter fun m => (r.missing p).namesOf m ≠ []).map fun m =>
            insertion p m ((r.missing p).namesOf m)⟩,
          s.2 ++ (ms.flatMap fun m => ((r.missing p).namesOf m).map (Prod.mk m)).map label) := by
  induction ms generalizing s with
  | nil => simp
  | cons m ms ih =>
      rw [List.foldl_cons, ih, List.flatMap_cons]
      by_cases hnil : (r.missing p).namesOf m = []
      · rw [addModule_of_nil h hnil, List.filter_cons_of_neg (by simp [hnil]), hnil,
          List.map_nil, List.nil_append]
      · rw [addModule_of_ne_nil h hnil, List.filter_cons_of_pos (by simp [hnil]), List.map_cons,
          List.map_append, List.append_assoc, List.append_assoc, List.singleton_append]

lemma apply_eq (h : r.pairs.Pairwise Precedes) (p : Program) (patch : Patch) :
    r.apply p patch =
      (⟨patch.edits ++ (r.missing p).modules.map fun m =>
          insertion p m ((r.missing p).namesOf m)⟩,
        (r.missing p).pairs.map label) := by
  have hmissing := pairwise_missing (p := p) h
  -- A module with nothing missing is passed over, so the modules that are left are those of the
  -- missing names.
  have hmodules : (r.modules.filter fun m => (r.missing p).namesOf m ≠ [])
      = (r.missing p).modules := by
    refine ((pairwise_modules h).filter _).eq_of_mem_iff (pairwise_modules hmissing) fun m => ?_
    rw [List.mem_filter, decide_eq_true_iff, mem_modules, mem_modules]
    constructor
    · rintro ⟨-, hne⟩
      obtain ⟨n, hn⟩ := List.exists_mem_of_ne_nil _ hne
      exact ⟨n, mem_namesOf.mp hn⟩
    · rintro ⟨n, hn⟩
      exact ⟨⟨n, (mem_missing.mp hn).1⟩, List.ne_nil_of_mem (mem_namesOf.mpr hn)⟩
  -- The names that are reported are those of the modules, one module behind the other.
  have hpairs := flatMap_namesOf hmissing (pairwise_modules h) fun a ha =>
    mem_modules.mpr ⟨a.2, (mem_missing.mp ha).1⟩
  rw [apply_eq_foldl, foldl_addModule h, hmodules, hpairs, List.nil_append]

/-- **Requests are a set**: whatever the order and the repetitions of the calls, the names that
were required and are not taken are added, each of them once, by module and then by name, and
each module that lacks a name gets one insertion. -/
theorem apply_ofCalls (p : Program) (patch : Patch) (calls : List (Text × Text)) :
    (∀ calls' : List (Text × Text), (∀ a, a ∈ calls' ↔ a ∈ calls) →
      (ofCalls calls').apply p patch = (ofCalls calls).apply p patch) ∧
    ∃ missing : Requests, missing.pairs.Pairwise Precedes ∧
      (∀ a, a ∈ missing.pairs ↔ a ∈ calls ∧ ¬ p.Takes a.1 a.2) ∧
      missing.modules.Pairwise (· < ·) ∧
      (∀ m, m ∈ missing.modules ↔ ∃ n, (m, n) ∈ missing.pairs) ∧
      (ofCalls calls).apply p patch =
        (⟨patch.edits ++ missing.modules.map fun m => insertion p m (missing.namesOf m)⟩,
          missing.pairs.map label) := by
  have hordered := pairwise_ofCalls calls
  refine ⟨fun calls' h => by rw [ofCalls_congr h], (ofCalls calls).missing p,
    pairwise_missing hordered, fun a => ?_, pairwise_modules (pairwise_missing hordered),
    fun m => mem_modules, apply_eq hordered p patch⟩
  rw [mem_missing, mem_ofCalls]

/-- A script that takes one name, another one under an alias, and one as a type. -/
def takingText : Text :=
  "import \x7b ref, computed as c \x7d from \"vue\";\n" ++
    "import type \x7b useMemo \x7d from \"react\";\n"

/-- Calls in no order, with one of them twice. -/
def shuffledCalls : List (Text × Text) :=
  [("vue", "ref"), ("react", "useState"), ("vue", "computed"), ("react", "useMemo"),
    ("react", "useState")]

/-- What these calls record and add. -/
def shuffledOutcome : Patch × List Text :=
  (⟨[⟨79, 79, "\nimport \x7b useMemo, useState \x7d from \"react\";"⟩, ⟨27, 27, ", computed"⟩]⟩,
    ["react:useMemo", "react:useState", "vue:computed"])

theorem apply_ofCalls_shuffled :
    ∃ p ∈ Program.parse? takingText,
      (∀ a, a ∈ shuffledCalls.reverse.eraseDups ↔ a ∈ shuffledCalls) ∧
      (ofCalls shuffledCalls.reverse.eraseDups).apply p Patch.empty
        = (ofCalls shuffledCalls).apply p Patch.empty ∧
      (ofCalls shuffledCalls).apply p Patch.empty = shuffledOutcome := by
  obtain ⟨p, hp, happly⟩ : ∃ p ∈ Program.parse? takingText,
      (ofCalls shuffledCalls).apply p Patch.empty = shuffledOutcome := by
    decide +kernel
  have hcalls : ∀ a, a ∈ shuffledCalls.reverse.eraseDups ↔ a ∈ shuffledCalls := fun a => by
    rw [List.mem_eraseDups, List.mem_reverse]
  exact ⟨p, hp, hcalls, (apply_ofCalls p Patch.empty shuffledCalls).1 _ hcalls, happly⟩

end Requests

end ComponentMigration.Script
