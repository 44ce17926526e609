import ComponentMigration.Proofs.SingleFile.Tags
import Mathlib.Data.List.Infix

/-!
The outermost template block of a component.

* **Pairs.** `tags` are the template tags that a scan of a text meets. They are paired if no
  beginning has more closing tags than opening ones and there are as many of both
  (`IsPaired`); then the depth is back where it was (`IsPaired.foldlM`).
* **Straddling.** A text is complete if all template tags that begin in it end in it. What follows
  it does then not change its tags (`IsComplete.tagged`), and a text without template tags is
  passed over, whatever follows it (`untilOpened?_append`).
* **Main statement.** `ofText_around`: a complete text with paired tags is cut out of what stands
  around the template block, and the scripts are those of the text around it.
-/

namespace ComponentMigration.SingleFile

variable {a p q r s t u : Text} {c : Char} {closes : Bool} {depth depth' : Nat} {ks : List Bool}

/-! ### Pairs -/

/-- The template tags that a scan of a text meets, in order, and of each whether it is a closing
one. The first `skip` characters belong to a tag. -/
def tags (skip : Nat) : Text → List Bool
  | [] => []
  | c :: t =>
      match skip with
      | skip + 1 => tags skip t
      | 0 =>
          match templateTag? (c :: t) with
          | some (closes, size) => closes :: tags (size - 1) t
          | none => tags 0 t

/-- No beginning has more closing tags than opening ones, and there are as many of both. -/
structure IsPaired (ks : List Bool) : Prop where
  prefixes : ∀ ks' ∈ ks.inits, ks'.count true ≤ ks'.count false
  total : ks.count true = ks.count false

instance : DecidablePred IsPaired := fun ks =>
  decidable_of_iff ((∀ ks' ∈ ks.inits, ks'.count true ≤ ks'.count false) ∧
    ks.count true = ks.count false) ⟨fun h => ⟨h.1, h.2⟩, fun h => ⟨h.prefixes, h.total⟩⟩

/-- Tags lead from one depth to another if they never close more than is open. -/
lemma foldlM_depthBehind (h : ∀ ks', ks' <+: ks → ks'.count true ≤ depth + ks'.count false)
    (htotal : depth + ks.count false = depth' + ks.count true) :
    ks.foldlM depthBehind depth = some depth' := by
  induction ks generalizing depth with
  | nil =>
      simp only [List.count_nil, Nat.add_zero] at htotal
      rw [htotal]
      rfl
  | cons closes ks ih =>
      have hstep (ks' : List Bool) (hks' : ks' <+: ks) :=
        h (closes :: ks') ((List.prefix_cons_inj closes).mpr hks')
      cases closes with
      | false =>
          simp only [List.count_cons_self, List.count_cons_of_ne Bool.false_ne_true]
            at hstep htotal
          change ks.foldlM depthBehind (depth + 1) = some depth'
          refine ih (fun ks' hks' => ?_) (by omega)
          have := hstep ks' hks'
          omega
      | true =>
          simp only [List.count_cons_self, List.count_cons_of_ne Bool.false_ne_true.symm]
            at hstep htotal
          cases depth with
          | zero => exact absurd (hstep [] List.nil_prefix) (by simp)
          | succ depth =>
              change ks.foldlM depthBehind depth = some depth'
              refine ih (fun ks' hks' => ?_) (by omega)
              have := hstep ks' hks'
              omega

lemma IsPaired.foldlM (h : IsPaired ks) : ks.foldlM depthBehind 0 = some 0 := by
  refine foldlM_depthBehind (fun ks' hks' => ?_) (by rw [h.total])
  rw [Nat.zero_add]
  exact h.prefixes ks' ((List.mem_inits _ _).mpr hks')

/-! ### Straddling -/

/-- All template tags that begin in the text end in it. -/
def IsComplete (t : Text) : Prop := ∀ v ∈ t.tails, mark? v ≠ none → '>' ∈ v

instance : DecidablePred IsComplete := fun _ => List.decidableBAll _ _

lemma tags_skip (s t : Text) : tags s.length (s ++ t) = tags 0 t := by
  induction s with
  | nil => rfl
  | cons c s ih => rw [List.cons_append, List.length_cons, tags, ih]

/-- A tag stands at the head of its tags. -/
lemma tags_of_mark (hmark : mark? (a ++ '>' :: t) = some closes) (ha : '>' ∉ a) :
    tags 0 (a ++ '>' :: t) = closes :: tags 0 t := by
  have htag := templateTag?_eq_some_iff.mpr ⟨hmark, a, t, rfl, ha, rfl⟩
  cases a with
  | nil => cases hmark
  | cons c a =>
      rw [List.cons_append] at htag ⊢
      rw [tags, htag]
      simpa using tags_skip (a ++ ['>']) t

lemma IsComplete.of_suffix (ht : IsComplete t) (hu : u <:+ t) : IsComplete u := fun v hv =>
  ht v ((List.mem_tails _ _).mpr (((List.mem_tails _ _).mp hv).trans hu))

lemma IsComplete.mark?_eq_none (ht : IsComplete t) (h : templateTag? t = none) :
    mark? t = none := by
  by_contra hsome
  obtain ⟨closes, hmark⟩ := Option.ne_none_iff_exists'.mp hsome
  have hmem := ht t ((List.mem_tails _ _).mpr List.suffix_rfl) hsome
  obtain ⟨a, u, hsplit, ha⟩ := List.eq_append_cons_of_mem hmem
  rw [templateTag?_eq_some_iff.mpr ⟨hmark, a, u, hsplit, ha, rfl⟩] at h
  cases h

/-- What follows a complete text does not change its tags. -/
lemma IsComplete.tagged (ht : IsComplete t) (hr : r.head? = some '<') : Tagged t (tags 0 t) r := by
  induction hlength : t.length using Nat.strongRecOn generalizing t with
  | _ k ih =>
      cases t with
      | nil => exact .nil
      | cons c t =>
          have hmark := mark?_append (List.cons_ne_nil c t) hr
          cases htag : templateTag? (c :: t) with
          | none =>
              have hnone := ht.mark?_eq_none htag
              rw [tags, htag]
              refine .char ?_ (ih _ (by simp [← hlength]) (ht.of_suffix (List.suffix_cons c t)) rfl)
              rw [templateTag?_eq, ← List.cons_append, hmark, hnone]
              rfl
          | some tag =>
              obtain ⟨closes, size⟩ := tag
              obtain ⟨hmark', a, u, hsplit, ha, -⟩ := templateTag?_eq_some_iff.mp htag
              rw [hsplit] at hmark hmark' ht hlength ⊢
              rw [hmark', List.append_assoc, List.cons_append] at hmark
              have hu : u <:+ a ++ '>' :: u := ⟨a ++ ['>'], by simp⟩
              rw [tags_of_mark hmark' ha]
              exact .tag hmark ha (ih _ (by simp [← hlength]; omega) (ht.of_suffix hu) rfl)

/-- A text without a template tag is passed over. -/
lemma untilOpened?_append (h : ∀ v, v <:+ p → v ≠ [] → mark? (v ++ r) = none) :
    untilOpened? 0 (p ++ r) = (untilOpened? 0 r).map fun x => (p ++ x.1, x.2) := by
  induction p with
  | nil => simp
  | cons c p ih =>
      have hnone : templateTag? (c :: (p ++ r)) = none := by
        rw [templateTag?_eq, ← List.cons_append, h _ List.suffix_rfl (List.cons_ne_nil c p)]
        rfl
      rw [List.cons_append, untilOpened?, hnone]
      dsimp only
      rw [ih fun v hv => h v (hv.trans (List.suffix_cons c p)), Option.map_map]
      rfl

/-- The text has the name of a template tag behind an angle bracket, in any case. -/
def NamesTemplate (t : Text) : Prop :=
  "<template".toList <:+: t.map Text.lowerLetter ∨ "</template".toList <:+: t.map Text.lowerLetter

instance : DecidablePred NamesTemplate := fun _ => inferInstanceAs (Decidable (_ ∨ _))

lemma NamesTemplate.of_suffix (h : NamesTemplate t) (ht : t <:+ p) : NamesTemplate p :=
  h.imp (fun h => h.trans (ht.map _).isInfix) fun h => h.trans (ht.map _).isInfix

/-- A template tag has its name behind an angle bracket. -/
lemma namesTemplate_of_mark (h : mark? t ≠ none) : NamesTemplate t := by
  rw [mark?.eq_def] at h
  split at h
  · rw [ne_eq, Option.map_eq_none_iff] at h
    obtain ⟨r, hr⟩ := Option.ne_none_iff_exists'.mp h
    obtain ⟨⟨s, hs, rfl⟩, -⟩ := Text.dropWord?_eq_some_iff.mp hr
    refine .inr (List.IsPrefix.isInfix ⟨r.map Text.lowerLetter, ?_⟩)
    rw [List.map_cons, List.map_cons, List.map_append, Text.map_lowerLetter_eq hs]
    rfl
  · rw [ne_eq, Option.map_eq_none_iff] at h
    obtain ⟨r, hr⟩ := Option.ne_none_iff_exists'.mp h
    obtain ⟨⟨s, hs, rfl⟩, -⟩ := Text.dropWord?_eq_some_iff.mp hr
    refine .inl (List.IsPrefix.isInfix ⟨r.map Text.lowerLetter, ?_⟩)
    rw [List.map_cons, List.map_append, Text.map_lowerLetter_eq hs]
    rfl
  · exact absurd rfl h

/-! ### What stands around the block -/

/-- The opening tag of a template block, with the text of its attributes. -/
def openingTag (a : Text) : Text := "<template" ++ a ++ ['>']

/-- The name of the tag ends where its attributes begin. -/
lemma mark?_openingTag (hblank : ∀ c ∈ a.head?, Text.isBlank c = true) (r : Text) :
    mark? ("<template" ++ a ++ '>' :: r) = some false := by
  have hends : Text.EndsWord (a ++ '>' :: r) := by
    intro c hc
    cases a with
    | nil =>
        cases hc
        decide
    | cons d a =>
        cases hc
        exact Text.isWordChar_of_isBlank (hblank _ rfl)
  have hword : Text.dropWord? "template" ("template" ++ (a ++ '>' :: r)) = some (a ++ '>' :: r) :=
    Text.dropWord?_eq_some_iff.mpr ⟨⟨"template", by decide, rfl⟩, hends⟩
  rw [List.append_assoc]
  change (Text.dropWord? "template" ("template" ++ (a ++ '>' :: r))).map (fun _ => false) =
    some false
  rw [hword]
  rfl

lemma untilOpened?_openingTag (ha : '>' ∉ a) (hblank : ∀ c ∈ a.head?, Text.isBlank c = true)
    (r : Text) : untilOpened? 0 (openingTag a ++ r) = some ([], r) := by
  have hbracket : '>' ∉ "<template".toList ++ a := by
    rw [List.mem_append, not_or]
    exact ⟨by decide, ha⟩
  have hsplit : openingTag a ++ r = "<template" ++ a ++ '>' :: r := List.append_assoc _ _ _
  rw [hsplit]
  exact untilOpened?_of_mark (mark?_openingTag hblank r) hbracket

/-- **The outermost template block**: a complete text with paired tags is cut out of a component,
whatever follows the block and whatever precedes it without a template tag, and the scripts are
those of the text around the block. -/
theorem ofText_around (hp : ¬ NamesTemplate p) (ha : '>' ∉ a)
    (hblank : ∀ c ∈ a.head?, Text.isBlank c = true) (ht : IsComplete t)
    (hpaired : IsPaired (tags 0 t)) :
    Blocks.ofText (p ++ (openingTag a ++ (t ++ (closingTag ++ q))))
      = ⟨some t, readScript (p ++ q)⟩ := by
  have hbefore : ∀ r : Text, r.head? = some '<' → ∀ v, v <:+ p → v ≠ [] →
      mark? (v ++ r) = none := by
    intro r hr v hv hne
    rw [mark?_append hne hr]
    by_contra hsome
    exact hp ((namesTemplate_of_mark hsome).of_suffix hv)
  have hopened := untilOpened?_append (hbefore (openingTag a ++ (t ++ (closingTag ++ q))) rfl)
  rw [untilOpened?_openingTag ha hblank] at hopened
  have hclosed : untilClosed? 0 0 (t ++ (closingTag ++ q)) = some (t, q) :=
    untilClosed?_eq_some_iff.mpr ⟨"</template", tags 0 t, rfl, by decide, mark?_closingTag q,
      ht.tagged rfl, hpaired.foldlM⟩
  rw [Blocks.ofText, cutTemplate?, hopened]
  dsimp only [Option.map_some, Option.bind_some]
  rw [hclosed, List.append_nil]
  rfl

/-- What stands in front of a template block. -/
def blockBefore : Text := "<script setup>const tag = \"< template\";</script>\n</templat><"

/-- A template with a script, with a tag in another one's attribute, and with a longer name. -/
def blockInside : Text :=
  "<template v-if=\"a\" title=\"<template\"><script>b</script></Template\n><templates> </"

/-- What stands behind a template block. -/
def blockBehind : Text := "</template><script>c</script><template>"

theorem ofText_around_script :
    ¬ NamesTemplate blockBefore ∧ IsComplete blockInside ∧ IsPaired (tags 0 blockInside) ∧
      Blocks.ofText (blockBefore ++ (openingTag "\tlang=\"<template\"" ++
          (blockInside ++ (closingTag ++ blockBehind))))
        = ⟨some blockInside, some ⟨"const tag = \"< template\";\n\nc", [("setup", "true")]⟩⟩ := by
  have hp : ¬ NamesTemplate blockBefore := by decide +kernel
  have ht : IsComplete blockInside := by decide +kernel
  have hpaired : IsPaired (tags 0 blockInside) := by decide +kernel
  have hscript : readScript (blockBefore ++ blockBehind)
      = some ⟨"const tag = \"< template\";\n\nc", [("setup", "true")]⟩ := by decide +kernel
  refine ⟨hp, ht, hpaired, ?_⟩
  rw [← hscript]
  exact ofText_around hp (by decide) (by simp [Text.isBlank]) ht hpaired

end ComponentMigration.SingleFile
