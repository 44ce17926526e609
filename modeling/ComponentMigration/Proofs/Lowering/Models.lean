import Mathlib.Data.List.Basic
import ComponentMigration.Proofs.Lowering.Outcome
import ComponentMigration.Proofs.Lowering.Reading

/-!
The parameter of a model.

* **Words.** `Mentions code w`: the text `code` has the word `w`, a run of word characters that
  goes no further to either side. The list `words` has just these (`mem_words_iff`).
* **Names.** `parameterName name` is the parameter as the name of the property gives it, an
  identifier in any case. A bound expression that mentions it gets an underscore in front of it.
* **Main statement.** `modelProperties_parameter`: the callback of a model assigns its parameter,
  an identifier, to the bound expression, and the expression mentions the parameter exactly if it
  mentions the name both without and with the underscore.
* **One underscore.** The second name is not looked for, so the parameter can hide a name of the
  bound expression (`not_modelProperties_fresh`).
-/

namespace ComponentMigration.Lowering

open Markup

/-! ### Words -/

/-- The text has the word: a run of word characters that goes no further to either side. -/
def Mentions (code w : Text) : Prop :=
  ∃ before behind, code = before ++ w ++ behind ∧ (∀ c ∈ w, isPartOfWord c) ∧
    (∀ c ∈ before.getLast?, ¬ isPartOfWord c) ∧ ∀ c ∈ behind.head?, ¬ isPartOfWord c

lemma words_eq_splitOnP (t : Text) : words t = t.splitOnP fun c => !isPartOfWord c := by
  induction t with
  | nil => rfl
  | cons c t ih =>
      rw [words, ih, List.splitOnP_cons_eq_if_modifyHead]
      obtain ⟨w, ws, h⟩ := List.exists_cons_of_ne_nil
        (List.splitOnP_ne_nil (fun c => !isPartOfWord c) t)
      cases hc : isPartOfWord c <;> simp [h]

/-- Word characters alone are one word. -/
lemma words_of_forall {w : Text} (hw : ∀ c ∈ w, isPartOfWord c) : words w = [w] := by
  rw [words_eq_splitOnP, List.splitOnP_eq_singleton fun c hc => by simp [hw c hc]]

/-- Any other character parts the words. -/
lemma words_append_cons {c : Char} (hc : ¬ isPartOfWord c) (before behind : Text) :
    words (before ++ c :: behind) = words before ++ words behind := by
  simp only [words_eq_splitOnP]
  exact List.splitOnP_append_cons before behind (by simpa using hc)

/-- A text is one word, or goes on behind its first one. -/
lemma eq_word_or_parted (t : Text) : (∀ c ∈ t, isPartOfWord c) ∨
    ∃ w c behind, t = w ++ c :: behind ∧ (∀ c ∈ w, isPartOfWord c) ∧ ¬ isPartOfWord c := by
  induction t with
  | nil => exact .inl (by simp)
  | cons c t ih =>
      by_cases hc : isPartOfWord c
      · obtain hall | ⟨w, d, behind, rfl, hw, hd⟩ := ih
        · exact .inl (List.forall_mem_cons.mpr ⟨hc, hall⟩)
        · exact .inr ⟨c :: w, d, behind, rfl, List.forall_mem_cons.mpr ⟨hc, hw⟩, hd⟩
      · exact .inr ⟨[], c, t, rfl, by simp, hc⟩

/-- Words behind a parting character stay words. -/
lemma Mentions.append_cons {behind w : Text} (h : Mentions behind w) {c : Char}
    (hc : ¬ isPartOfWord c) (before : Text) : Mentions (before ++ c :: behind) w := by
  obtain ⟨first, last, rfl, hw, hfirst, hlast⟩ := h
  refine ⟨before ++ c :: first, last, by simp, hw, ?_, hlast⟩
  intro d hd
  rw [List.getLast?_append_cons] at hd
  cases hf : first.getLast? with
  | none =>
      rw [List.getLast?_cons, hf] at hd
      cases hd
      exact hc
  | some e =>
      rw [List.getLast?_cons, hf] at hd
      cases hd
      exact hfirst e hf

/-- The words of a text are those that it mentions. -/
lemma mem_words_iff {t w : Text} : w ∈ words t ↔ Mentions t w := by
  constructor
  · intro h
    induction hn : t.length using Nat.strong_induction_on generalizing t with
    | _ n ih =>
        obtain hall | ⟨first, c, behind, rfl, hfirst, hc⟩ := eq_word_or_parted t
        · rw [words_of_forall hall, List.mem_singleton] at h
          subst h
          exact ⟨[], [], by simp, hall, by simp, by simp⟩
        · rw [words_append_cons hc, words_of_forall hfirst, List.singleton_append,
            List.mem_cons] at h
          obtain rfl | h := h
          · exact ⟨[], c :: behind, by simp, hfirst, by simp, by simpa using hc⟩
          · have hshort : behind.length < n := by
              rw [← hn, List.length_append, List.length_cons]
              omega
            exact (ih behind.length hshort h rfl).append_cons hc first
  · rintro ⟨before, behind, rfl, hw, hbefore, hbehind⟩
    have hmem : w ∈ words (w ++ behind) := by
      cases behind with
      | nil => simp [words_of_forall hw]
      | cons c behind => simp [words_append_cons (hbehind c rfl), words_of_forall hw]
    induction before using List.reverseRecOn with
    | nil => exact hmem
    | append_singleton before c _ =>
        rw [List.append_assoc, List.append_assoc, List.singleton_append,
          words_append_cons (hbefore c (by simp))]
        exact List.mem_append_right _ hmem

/-! ### Parameters -/

/-- The parameter that the name of the property gives. -/
def parameterName (name : Text) : Text :=
  if Naming.isIdentifier (Naming.camelize name) then Naming.camelize name else "value"

lemma isIdentifier_parameterName (name : Text) : Naming.isIdentifier (parameterName name) := by
  rw [parameterName]
  split_ifs with h
  · exact h
  · decide

lemma isIdentifier_underscore {w : Text} (h : Naming.isIdentifier w) :
    Naming.isIdentifier ('_' :: w) := by
  cases w with
  | nil => cases h
  | cons c w =>
      simp only [Naming.isIdentifier, Bool.and_eq_true, Bool.or_eq_true, List.all_cons,
        List.all_eq_true] at h ⊢
      exact ⟨by simp, by tauto, h.2⟩

lemma modelParameter_of_mentions {name code : Text} (h : Mentions code (parameterName name)) :
    modelParameter name code = '_' :: parameterName name :=
  if_pos (List.contains_iff_mem.mpr (mem_words_iff.mpr h))

lemma modelParameter_of_not_mentions {name code : Text}
    (h : ¬ Mentions code (parameterName name)) : modelParameter name code = parameterName name :=
  if_neg fun hcontains => h (mem_words_iff.mp (List.contains_iff_mem.mp hcontains))

lemma isIdentifier_modelParameter (name code : Text) :
    Naming.isIdentifier (modelParameter name code) := by
  by_cases h : Mentions code (parameterName name)
  · rw [modelParameter_of_mentions h]
    exact isIdentifier_underscore (isIdentifier_parameterName name)
  · rw [modelParameter_of_not_mentions h]
    exact isIdentifier_parameterName name

/-- The bound expression mentions the parameter if both names are taken. -/
lemma mentions_modelParameter_iff {name code : Text} :
    Mentions code (modelParameter name code) ↔
      Mentions code (parameterName name) ∧ Mentions code ('_' :: parameterName name) := by
  by_cases h : Mentions code (parameterName name)
  · simp [modelParameter_of_mentions h, h]
  · simp [modelParameter_of_not_mentions h, h]

/-! ### Models -/

/-- A model has two properties, if the bound expression can be read and assigned to. -/
lemma modelProperties_eq_ok {d : Directive} {ps : List Jsx.Property} :
    modelProperties d = .ok ps ↔ ∃ value, d.snippet = .ok value ∧
      (∃ s, d.snippetOf (value.code ++ " = " ++ modelParameter (modelName d) value.code) = .ok s) ∧
      ps = [.dynamic (modelName d) (.snippet value),
        .dynamic (modelCallbackName (modelName d))
          (.procedure [modelParameter (modelName d) value.code]
            [.assign value (.identifier (modelParameter (modelName d) value.code))])] := by
  simp only [modelProperties, bind_eq_ok, pure_eq_ok, exists_and_right]

/-- **The parameter of a model is fresh unless two names are taken**: the callback assigns its
parameter, an identifier, to the bound expression, and the expression mentions the parameter
exactly if it mentions the name of the parameter both without and with an underscore. -/
theorem modelProperties_parameter {d : Directive} {ps : List Jsx.Property}
    (h : modelProperties d = .ok ps) :
    ∃ value param, d.snippet = .ok value ∧
      ps = [.dynamic (modelName d) (.snippet value), .dynamic (modelCallbackName (modelName d))
        (.procedure [param] [.assign value (.identifier param)])] ∧
      Naming.isIdentifier param ∧
      (Mentions value.code param ↔ Mentions value.code (parameterName (modelName d)) ∧
        Mentions value.code ('_' :: parameterName (modelName d))) := by
  obtain ⟨value, hvalue, -, rfl⟩ := modelProperties_eq_ok.mp h
  exact ⟨value, modelParameter (modelName d) value.code, hvalue, rfl,
    isIdentifier_modelParameter _ _, mentions_modelParameter_iff⟩

/-- A model that is bound to a property of the same name. -/
def titleModel : Directive :=
  ⟨"model", some "title", false, some "form.title", [], none, ⟨1, 9⟩,
    "v-model:title=\"form.title\""⟩

theorem modelProperties_parameter_title : ∃ ps value param, modelProperties titleModel = .ok ps ∧
    titleModel.snippet = .ok value ∧
      ps = [.dynamic "title" (.snippet value), .dynamic "onUpdate:title"
        (.procedure [param] [.assign value (.identifier param)])] ∧
      Naming.isIdentifier param ∧
      (Mentions value.code param ↔
        Mentions value.code "title" ∧ Mentions value.code "_title") := by
  obtain ⟨ps, h⟩ : Succeeds (modelProperties titleModel) := by decide +kernel
  obtain ⟨value, param, hparam⟩ := modelProperties_parameter h
  exact ⟨ps, value, param, h, hparam⟩

/-- A model whose bound expression has its parameter with and without an underscore. -/
def indexedModel : Directive :=
  ⟨"model", none, false, some "modelValue[_modelValue]", [], none, ⟨1, 8⟩,
    "v-model=\"modelValue[_modelValue]\""⟩

/-- The parameter of a model can be a word of the bound expression. -/
theorem not_modelProperties_fresh : ∃ value param,
    parse "<input v-model=\"modelValue[_modelValue]\" />" = .ok [.element
      ⟨"input", .ordinary, [.directive indexedModel], ⟨1, 1⟩,
        "<input v-model=\"modelValue[_modelValue]\" />"⟩ []] ∧
    modelProperties indexedModel = .ok [.dynamic "modelValue" (.snippet value),
      .dynamic "onUpdate:modelValue" (.procedure [param] [.assign value (.identifier param)])] ∧
    value.code = "modelValue[_modelValue]" ∧ Mentions value.code param := by
  obtain ⟨ps, h⟩ : Succeeds (modelProperties indexedModel) := by decide +kernel
  obtain ⟨value, hvalue, -, rfl⟩ := modelProperties_eq_ok.mp h
  have hcode : value.code = "modelValue[_modelValue]" := by
    rw [code_of_snippet hvalue]
    decide +kernel
  refine ⟨value, modelParameter (modelName indexedModel) value.code, by with_unfolding_all rfl,
    h, hcode, ?_⟩
  rw [hcode]
  exact mem_words_iff.mp (by decide +kernel)

end ComponentMigration.Lowering
