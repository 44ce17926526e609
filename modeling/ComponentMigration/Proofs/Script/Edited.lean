import ComponentMigration.Proofs.Script.Extend
import ComponentMigration.Proofs.Script.Onward

/-!
Import declarations behind an edit.

* **Moved.** `exists_statement?_moved`: a declaration is read as such in front of any text that
  continues the one behind it.
* **Written.** `exists_statement?_importText`: a written declaration is read as one.
* **Extended.** `exists_statement?_extended`: a declaration that takes more names is read as such,
  up to the same text.
-/

namespace ComponentMigration.Script

open Text Script.Parser

variable {t r m n list ins : Text} {ns : List Text} {x : Tree} {isType : Bool} {s : Span}
  {ps : List Tree} {pos : Nat}

/-- A word without escapes stands in front of the text behind it. -/
lemma Shows.exists_word {fresh : Bool} (hn : IsWord n) (h : Shows t (.word n false) fresh r) :
    ∃ g, t = g ++ (n ++ r) := by
  obtain ⟨r', hr', hends⟩ := (peek_eq_word_iff hn).mp h.fromToken_eq.2
  have hne : n ≠ [] := by
    rintro rfl
    cases hn.start
  obtain ⟨g, ht, hgap, htoken⟩ := exists_fromToken (t := t) (by simp [hr', hne])
  rw [hr'] at ht htoken
  have h' : Shows t (.word n false) (startsFresh t) r' :=
    ⟨g, n, ht, hgap, htoken, read_name hn hends⟩
  obtain ⟨-, -, rfl⟩ := h.unique h'
  exact ⟨g, ht⟩

/-- The word `import` in front of a text, and of any text that goes on like it. -/
lemma exists_import {fresh : Bool} {u : Text} (h : Shows t (.word "import" false) fresh u) :
    ∃ w, t = w ++ u ∧ 6 ≤ w.length ∧
      ∀ u', GoesOn u u' → Shows (w ++ u') (.word "import" false) fresh u' := by
  obtain ⟨w, -, rfl, hgoes⟩ := h.goesOn rfl
  obtain ⟨g, hg⟩ := h.exists_word (by decide)
  rw [← List.append_assoc] at hg
  obtain rfl := List.append_cancel_right hg
  exact ⟨_, rfl, by rw [List.length_append]; simp, hgoes⟩

lemma anyHasDefault_eq_any (ts : List Tree) : anyHasDefault ts = ts.any hasDefault := by
  induction ts with
  | nil => rfl
  | cons t ts ih => rw [anyHasDefault, ih, List.any_cons]

lemma hasDefault_importDeclaration :
    hasDefault (.node (.importDeclaration m isType) s ps) = ps.any hasDefault := by
  rw [← anyHasDefault_eq_any]
  rfl

lemma any_hasDefault_eq {ps ps' : List Tree} (h : List.Forall₂ Tree.SameAs ps ps') :
    ps.any hasDefault = ps'.any hasDefault := by
  induction h with
  | nil => rfl
  | cons h _ ih => rw [List.any_cons, List.any_cons, h.hasDefault_eq, ih]

lemma any_hasDefault_takenAs (ns : List Text) : (ns.map Tree.takenAs).any hasDefault = false := by
  simp [Tree.takenAs, hasDefault, anyHasDefault]

namespace Frame

variable {F : Frame} {k : Nat} {b : Binder} {t' : Text}

lemma Clause.suffix (h : F.Clause b t ps r) : r <:+ t := by
  cases h with
  | default hd hfrom => exact hfrom.suffix.trans hd.suffix
  | both hd hcomma hxs hfrom =>
      exact hfrom.suffix.trans (hxs.suffix.trans (hcomma.suffix.trans hd.suffix))
  | named hxs hfrom => exact hfrom.suffix.trans hxs.suffix

lemma lt_length_of_importSource (h : F.Passes (Grammar.importSource k isType ps) t x t')
    (ht' : IsSound t') : t'.length < t.length := by
  obtain ⟨-, m, fresh, r, r', hm, hattributes, hend, -⟩ := (passes_importSource ht').mp h
  have hlt := hm.lt_length rfl
  have hle := hattributes.suffix.length_le
  have hle' : t'.length ≤ r'.length := by
    rcases hend with ⟨_, hend⟩ | ⟨-, rfl⟩
    · exact hend.suffix.length_le
    · exact Nat.le_refl _
  omega

/-- A declaration takes some of the text. -/
lemma Declares.lt_length (h : F.Declares k t x t') (ht' : IsSound t') :
    t'.length < t.length := by
  cases h with
  | bare _ h => exact lt_length_of_importSource h ht'
  | clause hps h => exact (lt_length_of_importSource h ht').trans_le hps.suffix.length_le
  | typed _ htype _ hps h =>
      exact (lt_length_of_importSource h ht').trans_le
        (hps.suffix.trans htype.suffix).length_le

end Frame

namespace Program

/-- An import declaration is read as such in front of any text that continues it. -/
lemma exists_statement?_moved
    (h : statement? t = some (.node (.importDeclaration m isType) s ps, r)) :
    ∃ w e, t = w ++ e ∧ 7 ≤ w.length ∧ byteLength w = s.stop ∧ IsSound e ∧ r = fromToken e ∧
      ∀ ⦃u : Text⦄, IsSound u → Continues e u → ∃ s' ps', List.Forall₂ Tree.SameAs ps ps' ∧
        statement? (w ++ u) = some (.node (.importDeclaration m isType) s' ps', fromToken u) := by
  obtain ⟨hdefault, fresh, v, e, himport, he, rfl, hdeclares⟩ :=
    (statement?_import_iff (by simp [ImportDeclaration.ofTree?])).mp h
  obtain ⟨w₁, rfl, hlength, hgoes⟩ := exists_import himport
  have hlt := hdeclares.lt_length he
  obtain ⟨w₂, _, _, _, _, rfl, hx, hstop, hportable⟩ := hdeclares.portable he
  cases hx
  refine ⟨w₁ ++ w₂, e, (List.append_assoc _ _ _).symm, ?_, ?_, he, rfl, fun u hu hcontinues => ?_⟩
  · rw [List.length_append] at hlt ⊢
    omega
  · rw [hstop, Frame.of]
    dsimp only
    simp only [byteLength_append]
    omega
  · have himport' := hgoes (w₂ ++ u) (hcontinues.goesOn.append w₂)
    rw [← List.append_assoc] at himport'
    obtain ⟨-, s', ps', hsame, hdeclares'⟩ := hportable
      ((Frame.of (w₁ ++ w₂ ++ u)).state false (w₁ ++ w₂ ++ u)).start
      ((Frame.holds_of (w₁ ++ w₂ ++ u)).of_suffix himport'.suffix) hu hcontinues
    refine ⟨s', ps', hsame, (statement?_import_iff (by simp [ImportDeclaration.ofTree?])).mpr
      ⟨?_, _, _, u, himport', hu, rfl, hdeclares'⟩⟩
    rw [hasDefault_importDeclaration] at hdefault ⊢
    rw [← any_hasDefault_eq hsame, hdefault]

/-- A written declaration is read as such. -/
lemma exists_statement?_importText (hns : ∀ m ∈ n :: ns, IsIdentifier m) (hm : IsQuotable m)
    (hr : IsSound r) : ∃ s xs, List.Forall₂ Tree.SameAs ((n :: ns).map Tree.takenAs) xs ∧
      statement? (importText m (Text.join ", " (n :: ns)) ++ r)
        = some (.node (.importDeclaration m false) s xs, fromToken r) := by
  have himport := shows_importText m (Text.join ", " (n :: ns)) r
  rw [importText_append] at himport ⊢
  obtain ⟨xs, s, hsame, hdeclares⟩ := Frame.exists_declares_clauseText
    (F := Frame.of ("import".toList ++ clauseText m (Text.join ", " (n :: ns)) r)) hns hm hr
    ((Frame.holds_of _).of_suffix himport.suffix)
  refine ⟨s, xs, hsame, (statement?_import_iff (by simp [ImportDeclaration.ofTree?])).mpr
    ⟨?_, _, _, r, himport, hr, rfl, hdeclares⟩⟩
  rw [hasDefault_importDeclaration, ← any_hasDefault_eq hsame, any_hasDefault_takenAs]

/-- A declaration that takes more names is read as such, up to the same text. -/
lemma exists_statement?_extended
    (h : statement? t = some (.node (.importDeclaration m false) s ps, r))
    (hns : ∀ m ∈ n :: ns, IsIdentifier m) (hempty : (Frame.of t).NoEmptyBraces t ps)
    (hplace : (⟨m, false, ps.filterMap Specifier.ofTree?, s⟩ : ImportDeclaration).extension?
      (Text.join ", " (n :: ns)) = some (pos, ins)) :
    ∃ w e, t = w ++ e ∧ 7 ≤ w.length ∧ byteLength w = pos ∧ r <:+ e ∧ ∃ s' ps',
      List.Forall₂ Tree.SameAs (ps ++ (n :: ns).map Tree.takenAs) ps' ∧
        statement? (w ++ (ins ++ e)) = some (.node (.importDeclaration m false) s' ps', r) := by
  obtain ⟨hdefault, fresh, u, t', himport, ht', rfl, hdeclares⟩ :=
    (statement?_import_iff (by simp [ImportDeclaration.ofTree?])).mp h
  obtain ⟨w₁, rfl, hlength, hgoes⟩ := exists_import himport
  obtain ⟨w₂, e, rfl, hne, rfl, hsuffix, hgoes', hextends⟩ := hdeclares.exists_extends ht' hns
    (fun sp hsp htaken v hv => hempty sp hsp htaken v (hv.trans (List.suffix_append _ _))) hplace
  have himport' := hgoes (w₂ ++ (ins ++ e)) (hgoes'.append w₂)
  rw [← List.append_assoc] at himport'
  obtain ⟨s', ps', hsame, hdeclares'⟩ := hextends
    ((Frame.of (w₁ ++ w₂ ++ (ins ++ e))).state false (w₁ ++ w₂ ++ (ins ++ e))).start
    ((Frame.holds_of (w₁ ++ w₂ ++ (ins ++ e))).of_suffix himport'.suffix)
  refine ⟨w₁ ++ w₂, e, (List.append_assoc _ _ _).symm, ?_, ?_, (fromToken_suffix t').trans hsuffix,
    s', ps', hsame, ?_⟩
  · have := List.length_pos_iff.mpr hne
    rw [List.length_append]
    omega
  · rw [Frame.of]
    dsimp only
    simp only [byteLength_append]
    omega
  · refine (statement?_import_iff (by simp [ImportDeclaration.ofTree?])).mpr
      ⟨?_, _, _, t', himport', ht', rfl, hdeclares'⟩
    rw [hasDefault_importDeclaration] at hdefault ⊢
    rw [← any_hasDefault_eq hsame, List.any_append, hdefault, any_hasDefault_takenAs]
    rfl

end Program

end ComponentMigration.Script
