import ComponentMigration.Proofs.Lowering.Models
import ComponentMigration.Proofs.Script.Paths

/-!
What a model assigns to.

* **Assignments.** `Assigns e p`: with `p` behind a sign of equality, the text `e` is the target of
  an assignment as a whole, and `p` is the value.
* **Main statement.** `modelProperties_assigns`: a model that is bound to a path, and whose
  parameter is no word of the language, is lowered, and its callback assigns the parameter to the
  path.
* **Other expressions.** An assignment binds weaker than most operators, and the check reads no
  further than the first expression. So it accepts a choice whose last branch alone is assigned to
  (`not_modelProperties_assigns`).
-/

namespace ComponentMigration.Lowering

open Markup Script

/-- With `p` behind a sign of equality, `e` is the target of an assignment of `p`, as a whole. -/
def Assigns (e p : Text) : Prop :=
  ∃ target, target.span = ⟨0, Text.byteLength e⟩ ∧ parseExpression? (e ++ " = " ++ p) true
    = some (.node (.assignment "=") ⟨0, Text.byteLength (e ++ " = " ++ p)⟩ [target,
      .node (.reference p .value none)
        ⟨Text.byteLength e + 3, Text.byteLength (e ++ " = " ++ p)⟩ []])

lemma isBlank_of_isNamePart {c : Char} (h : Text.isNamePart c = true) :
    Text.isBlank c = false := by
  have hcode : ∀ n ∈ [0x20, 0x85, 0xA0, 0x1680, 0x2028, 0x2029, 0x202F, 0x205F, 0x3000] ++
      (List.range' 0x09 5 ++ List.range' 0x2000 11), Text.isNamePart (Char.ofNat n) = false := by
    decide +kernel
  by_contra hblank
  have hmem := hcode c.toNat (by
    simp only [Text.isBlank, Bool.not_eq_false, Bool.or_eq_true, Bool.and_eq_true, beq_iff_eq,
      decide_eq_true_eq] at hblank
    simp only [List.mem_append, List.mem_cons, List.not_mem_nil, or_false, List.mem_range'_1]
    omega)
  rw [Char.ofNat_toNat, h] at hmem
  cases hmem

/-- The text of an assignment to a path has no blanks at its ends. -/
lemma trim_assignment {e p : Text} (he : IsPath e) (hp : IsWord p) :
    Text.trim (e ++ " = " ++ p) = e ++ " = " ++ p := by
  obtain ⟨c, t, rfl, hc⟩ := he.exists_cons
  refine Text.trim_eq_self ?_ fun d hd => ?_
  · rintro _ ⟨rfl⟩
    exact isBlank_of_isNamePart hc
  · have hne : p ≠ [] := by
      rintro rfl
      cases hp.start
    rw [List.getLast?_append_of_ne_nil _ hne] at hd
    exact isBlank_of_isNamePart (List.all_eq_true.mp hp.parts d (List.mem_of_getLast? hd))

/-- A text is read if it begins with an expression, blanks aside. -/
lemma exists_snippetOf {d : Directive} {text : Text} {t : Tree} (hne : Text.trim text ≠ [])
    (h : parseExpression? (Text.trim text) true = some t) :
    ∃ s, d.snippetOf text = .ok s ∧ s.code = Text.trim text := by
  have hread : Snippet.read text = .ok ⟨Text.trim text, t.precedence⟩ := by
    rw [Snippet.read, if_neg hne, h]
  exact ⟨_, mapError_eq_ok.mpr hread, rfl⟩

/-- **Models of paths**: if a model is bound to a path, and the name of its parameter is no word of
the language, it is lowered, and the callback assigns the parameter to the whole path. -/
theorem modelProperties_assigns {d : Directive} {p : Text} (he : IsPath d.condition)
    (hparam : modelParameter (modelName d) d.condition = p) (hp : IsPlainName p) :
    ∃ value, d.snippet = .ok value ∧ value.code = d.condition ∧
      modelProperties d = .ok [.dynamic (modelName d) (.snippet value),
        .dynamic (modelCallbackName (modelName d))
          (.procedure [p] [.assign value (.identifier p)])] ∧
      Assigns value.code p := by
  obtain ⟨t, ht⟩ := he.exists_parseExpression?
  obtain ⟨target, hspan, hassign⟩ := he.exists_assignment hp
  have hne : d.condition ≠ [] := by
    obtain ⟨c, u, h, -⟩ := he.exists_cons
    rw [h]
    exact List.cons_ne_nil c u
  have htrim := trim_assignment he hp.toIsWord
  obtain ⟨value, hvalue, hcode⟩ : ∃ s, d.snippet = .ok s ∧ s.code = d.condition :=
    exists_snippetOf hne ht
  obtain ⟨s, hs, -⟩ : ∃ s, d.snippetOf (d.condition ++ " = " ++ p) = .ok s ∧ _ :=
    exists_snippetOf (by rw [htrim]; simp) (by rw [htrim]; exact hassign)
  refine ⟨value, hvalue, hcode, modelProperties_eq_ok.mpr ⟨value, hvalue, ⟨s, ?_⟩, ?_⟩, target, ?_⟩
  · rw [hcode, hparam]
    exact hs
  · rw [hcode, hparam]
  · rw [hcode]
    exact ⟨hspan, hassign⟩

/-- A model that is bound to a cell of a table. -/
def cellModel : Directive :=
  ⟨"model", some "cell", false, some " form.rows[index] ['name']", [], none, ⟨1, 8⟩,
    "v-model:cell=\" form.rows[index] ['name']\""⟩

theorem modelProperties_assigns_cell :
    ∃ value, cellModel.snippet = .ok value ∧ value.code = "form.rows[index] ['name']" ∧
      modelProperties cellModel = .ok [.dynamic "cell" (.snippet value), .dynamic "onUpdate:cell"
        (.procedure ["cell"] [.assign value (.identifier "cell")])] ∧
      Assigns value.code "cell" := by
  have hcondition : cellModel.condition = "form.rows[index] ['name']" := by decide
  have hform : IsPath "form" := .name ⟨by decide, by decide⟩
  have hindex : IsPath "index" := .name ⟨by decide, by decide⟩
  have hrows : IsPath "form.rows" := .member hform isGap_nil isGap_nil (by decide)
  have hrow : IsPath "form.rows[index]" := .index hrows hindex isGap_nil isGap_nil isGap_nil
  have hcell : IsPath "form.rows[index] ['name']" :=
    .key hrow (.string (m := "name") (.inr rfl) (by simp)) isGap_space isGap_nil isGap_nil
  exact modelProperties_assigns (hcondition ▸ hcell) (by rw [hcondition]; decide)
    ⟨by decide, by decide⟩

/-- A model that is bound to a choice. -/
def choiceModel : Directive :=
  ⟨"model", none, false, some "a ? b : c", [], none, ⟨1, 8⟩, "v-model=\"a ? b : c\""⟩

/-- A model that is bound to a choice is lowered, and assigns to no whole expression. -/
theorem not_modelProperties_assigns :
    parse "<input v-model=\"a ? b : c\" />" = .ok [.element
      ⟨"input", .ordinary, [.directive choiceModel], ⟨1, 1⟩, "<input v-model=\"a ? b : c\" />"⟩
      []] ∧
    modelParameter (modelName choiceModel) choiceModel.condition = "modelValue" ∧
    Succeeds (modelProperties choiceModel) ∧
    (∃ t, parseExpression? (choiceModel.condition ++ " = " ++ "modelValue") true = some t ∧
      t.form = .expression .conditional) ∧
    ¬ Assigns choiceModel.condition "modelValue" := by
  obtain ⟨t, ht, hform⟩ :
      ∃ t ∈ parseExpression? (choiceModel.condition ++ " = " ++ "modelValue") true,
      t.form = .expression .conditional := by decide +kernel
  refine ⟨by with_unfolding_all rfl, by decide +kernel, by decide +kernel, ⟨t, ht, hform⟩, ?_⟩
  rintro ⟨target, -, h⟩
  cases ht.symm.trans h
  cases hform

end ComponentMigration.Lowering
