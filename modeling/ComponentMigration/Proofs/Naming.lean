import ComponentMigration.Proofs.Lowering.Models

/-!
Names piece by piece.

* **Hyphens.** `camelize_append`: names are changed piece by piece, wherever no hyphen is parted
  from the character behind it.
* **Upper case.** No upper-case form of another character has a hyphen (`hyphen_not_mem_upperCase`),
  so a name that was changed once stays as it is (`camelize_camelize`), unless two hyphens stood
  side by side.
* **Main statement.** `camelize_agrees`: both of these, and a model is listened to under the name
  of the property that takes its callback.
-/

namespace ComponentMigration

namespace Text

/-! ### Upper case -/

lemma ofNat_ne_hyphen {n : Nat} (hn : n ≠ 45) : Char.ofNat n ≠ '-' := by
  by_cases hvalid : n.isValidChar
  · intro h
    have := congrArg Char.toNat h
    rw [Char.ofNat, dif_pos hvalid] at this
    exact hn this
  · rw [Char.ofNat, dif_neg hvalid]
    decide

lemma upperExpansions_ne_hyphen :
    ∀ e ∈ upperExpansions, ∀ k ∈ e.2, k ≠ 45 := by
  decide +kernel

lemma upperRuns_ne_hyphen :
    ∀ e ∈ upperRuns, 45 < (e.1 : Int) + e.2.2.2 := by
  decide +kernel

/-- No upper-case form of another character has a hyphen. -/
lemma hyphen_not_mem_upperCase {c : Char} (hc : c ≠ '-') : '-' ∉ upperCase c := by
  unfold upperCase
  dsimp only
  split_ifs with hascii hlower
  · simp only [Bool.and_eq_true, decide_eq_true_eq] at hlower
    have hle : 97 ≤ c.toNat := hlower.1
    exact fun h => ofNat_ne_hyphen (by omega) (List.mem_singleton.mp h).symm
  · exact fun h => hc (List.mem_singleton.mp h).symm
  · split
    · next codes hcodes =>
      intro h
      obtain ⟨k, hk, hhyphen⟩ := List.mem_map.mp h
      obtain ⟨before, behind, htable, -⟩ := List.lookup_eq_some_iff.mp hcodes
      exact ofNat_ne_hyphen
        (upperExpansions_ne_hyphen (c.toNat, codes) (by simp [htable]) k hk) hhyphen
    · split
      · next shift hshift =>
        obtain ⟨⟨first, last, step, shift⟩, hfind, heq⟩ := Option.map_eq_some_iff.mp hshift
        cases heq
        have hrun := upperRuns_ne_hyphen _ (List.mem_of_find?_eq_some hfind)
        have hin := List.find?_some hfind
        simp only [Bool.and_eq_true, decide_eq_true_eq] at hin
        intro h
        dsimp only at hrun h
        exact ofNat_ne_hyphen (by omega) (List.mem_singleton.mp h).symm
      · exact fun h => hc (List.mem_singleton.mp h).symm

end Text

namespace Naming

variable {a b s t : Text} {c d : Char}

/-! ### Hyphens -/

lemma camelize_cons (hc : c ≠ '-') (t : Text) : camelize (c :: t) = c :: camelize t := by
  cases t with
  | nil => rfl
  | cons d t => rw [camelize, if_neg fun h => hc h.1]

/-- A text is changed piece by piece if no piece ends with a hyphen. -/
lemma camelize_append (ha : a.getLast? ≠ some '-') (b : Text) :
    camelize (a ++ b) = camelize a ++ camelize b := by
  fun_induction camelize a with
  | case1 => rfl
  | case2 c => exact camelize_cons (by simpa using ha) b
  | case3 c d t hmatch ih =>
      have ht : t.getLast? ≠ some '-' := by
        cases t with
        | nil => simp
        | cons e t => simpa using ha
      rw [List.cons_append, List.cons_append, camelize, if_pos hmatch, ih ht, List.append_assoc]
  | case4 c d t hmatch ih =>
      have ht : (d :: t).getLast? ≠ some '-' := by simpa using ha
      rw [List.cons_append, List.cons_append, camelize, if_neg hmatch, ← List.cons_append, ih ht,
        List.cons_append]

/-- A text without hyphens stays as it is. -/
lemma camelize_of_not_mem (ht : '-' ∉ t) : camelize t = t := by
  induction t with
  | nil => rfl
  | cons c t ih =>
      rw [List.mem_cons, not_or] at ht
      rw [camelize_cons (Ne.symm ht.1), ih ht.2]

/-- A text that was changed once stays as it is, if no two hyphens stood side by side: a hyphen
that is left stands in front of the same character as before, which is no word character. -/
lemma camelize_camelize (hs : ¬ ['-', '-'] <:+: s) : camelize (camelize s) = camelize s := by
  fun_induction camelize s with
  | case1 => rfl
  | case2 => rfl
  | case3 c d t hmatch ih =>
      have ht : ¬ ['-', '-'] <:+: t := fun h =>
        hs (h.trans (List.IsSuffix.isInfix ⟨[c, d], rfl⟩))
      have hd : '-' ∉ Text.upperCase d := Text.hyphen_not_mem_upperCase (by
        rintro rfl
        exact absurd hmatch.2 (by decide))
      rw [camelize_append fun h => hd (List.mem_of_getLast? h), camelize_of_not_mem hd, ih ht]
  | case4 c d t hmatch ih =>
      have ht : ¬ ['-', '-'] <:+: d :: t := fun h => hs (h.trans (List.suffix_cons c _).isInfix)
      by_cases hc : c = '-'
      · subst hc
        have hd : d ≠ '-' := by
          rintro rfl
          exact hs (List.IsPrefix.isInfix ⟨t, rfl⟩)
        rw [camelize_cons hd] at ih ⊢
        rw [camelize, if_neg hmatch, ih ht]
      · rw [camelize_cons hc, ih ht]

/-! ### Models and events -/

/-- The callback of a model is the listener for the event that updates it. -/
lemma modelCallbackName_eq (name : Text) :
    Lowering.modelCallbackName name = eventPropName ("update:" ++ name) := by
  have hcallback : camelize ("onUpdate:".toList ++ name) = "onUpdate:".toList ++ camelize name :=
    camelize_append (by decide) name
  have hevent : camelize ("on-update:".toList ++ name) = "onUpdate:".toList ++ camelize name :=
    camelize_append (by decide) name
  exact hcallback.trans hevent.symm

/-- **Names are changed piece by piece.** A piece that ends with no hyphen is changed by itself.
So the property that takes the callback of a model has the name that listeners for its event have.
What was changed once stays as it is, unless two hyphens stood side by side. -/
theorem camelize_agrees :
    (∀ a b : Text, a.getLast? ≠ some '-' → camelize (a ++ b) = camelize a ++ camelize b) ∧
    (∀ name : Text, Lowering.modelCallbackName name = eventPropName ("update:" ++ name)) ∧
    (∀ d ps, Lowering.modelProperties d = .ok ps → ∀ e qs,
      Lowering.propertiesOf (.listen ("update:" ++ Lowering.modelName d) e) = .ok qs →
        ∃ name, ps.map (·.name) = [Lowering.modelName d, name] ∧ qs.map (·.name) = [name]) ∧
    ∀ s : Text, ¬ ['-', '-'] <:+: s → camelize (camelize s) = camelize s := by
  refine ⟨fun a b ha => camelize_append ha b, modelCallbackName_eq, ?_,
    fun s hs => camelize_camelize hs⟩
  intro d ps hps e qs hqs
  obtain ⟨value, -, -, rfl⟩ := Lowering.modelProperties_eq_ok.mp hps
  obtain ⟨handler, -, hqs⟩ := bind_eq_ok.mp hqs
  cases hqs
  exact ⟨_, rfl, congrArg (fun name => [name]) (modelCallbackName_eq _).symm⟩

/-- A model of a property whose name has a hyphen. -/
def dashedModel : Markup.Directive :=
  ⟨"model", some "page-title", false, some "form.title", [], none, ⟨1, 9⟩,
    "v-model:page-title=\"form.title\""⟩

/-- A listener for the event that updates this property. -/
def dashedListener : Markup.Directive :=
  ⟨"on", some "update:page-title", false, some "save", [], none, ⟨1, 9⟩,
    "@update:page-title=\"save\""⟩

theorem camelize_agrees_dashed :
    ("page".toList.getLast? ≠ some '-' ∧
      camelize ("page".toList ++ "-ß") = camelize "page" ++ camelize "-ß") ∧
    (∃ ps qs name, Lowering.modelProperties dashedModel = .ok ps ∧
      Lowering.propertiesOf (.listen "update:page-title" dashedListener) = .ok qs ∧
      ps.map (·.name) = ["page-title".toList, name] ∧ qs.map (·.name) = [name]) ∧
    ¬ ['-', '-'] <:+: "-page-title-".toList ∧
      camelize (camelize "-page-title-") = camelize "-page-title-" := by
  obtain ⟨happend, -, hmodel, htwice⟩ := camelize_agrees
  have hlast : "page".toList.getLast? ≠ some '-' := by decide +kernel
  have hapart : ¬ ['-', '-'] <:+: "-page-title-".toList := by decide +kernel
  obtain ⟨ps, hps⟩ : Succeeds (Lowering.modelProperties dashedModel) := by decide +kernel
  obtain ⟨qs, hqs⟩ : Succeeds
      (Lowering.propertiesOf (.listen "update:page-title" dashedListener)) :=
    by decide +kernel
  have hargument : Lowering.modelName dashedModel = "page-title".toList := rfl
  have hevent : "update:page-title".toList = "update:" ++ Lowering.modelName dashedModel := by
    decide +kernel
  rw [hevent] at hqs
  obtain ⟨name, hname⟩ := hmodel dashedModel ps hps dashedListener qs hqs
  rw [hargument] at hname
  rw [← hevent] at hqs
  exact ⟨⟨hlast, happend _ _ hlast⟩, ⟨ps, qs, name, hps, hqs, hname⟩, hapart, htwice _ hapart⟩

end Naming

end ComponentMigration
