import ComponentMigration.Proofs.Script.Paths

/-!
Directives in front of imports.

* **Directives.** A directive is a string with a semicolon behind it; `directives` counts those that
  a text begins with. A directive is a statement, and no import (`IsDirective.ofTree?_eq_none`,
  `IsDirective.exists_statement?`), and it is one in front of any text that goes on like the one
  behind it (`IsDirective.goesOn`).
* **Main statement.** `StaysRead.of_directives`: directives, and imports behind them, are read as
  they were when a text is inserted into a later import or behind it.
-/

namespace ComponentMigration.Script

open Text Script.Parser

variable {t u r v w e ins : Text} {x : Tree}

/-! ### Directives -/

/-- A text begins with a string and a semicolon, and another text stands behind them. -/
def IsDirective (t r : Text) : Prop :=
  ∃ m fresh fresh' u, Shows t (.string m) fresh u ∧ Shows u (.punctuator ";") fresh' r

/-- Whether a text begins with a string and a semicolon. -/
def startsDirective (t : Text) : Bool := (peek t).isText && peek (behind t) == .punctuator ";"

/-- How many directives a text begins with, up to a number of them. -/
def directives : Nat → Text → Nat
  | 0, _ => 0
  | n + 1, t => if startsDirective t then directives n (behind (behind t)) + 1 else 0

lemma isDirective_of_startsDirective (h : startsDirective t = true) :
    IsDirective t (behind (behind t)) := by
  rw [startsDirective, Bool.and_eq_true, beq_iff_eq] at h
  obtain ⟨htext, hsemicolon⟩ := h
  obtain ⟨m, hm⟩ : ∃ m, peek t = .string m := by
    cases hpeek : peek t with
    | string m => exact ⟨m, rfl⟩
    | _ =>
        rw [hpeek] at htext
        cases htext
  obtain ⟨u, hu⟩ := exists_shows (t := t) (by rw [hm]; rfl)
  rw [hu.behind_eq] at hsemicolon ⊢
  obtain ⟨r, hr⟩ := exists_shows (t := u) (by rw [hsemicolon]; rfl)
  rw [hr.behind_eq]
  exact ⟨m, _, _, u, hm ▸ hu, hsemicolon ▸ hr⟩

/-- A token is shown without the gap in front of it. -/
lemma Shows.fromToken {tok : Token} {fresh : Bool} (h : Shows t tok fresh r) :
    Shows (Script.fromToken t) tok false r := by
  obtain ⟨g, w, rfl, hgap, htoken, hread⟩ := h
  rw [(fromToken_of_gap hgap htoken).1]
  exact ⟨[], w, rfl, .nil, htoken, hread⟩

namespace Grammar

variable {s : State} {F : Frame} {n : Nat}

/-- At a semicolon a statement ends. -/
lemma run_endStatement_semicolon (h : s.token = .punctuator ";") :
    endStatement s = some ((), s.next) := by
  simp [endStatement, h]

/-- A string and a semicolon are a statement, and no import. -/
lemma exists_run_statement (h : IsDirective t r) (hF : F.Holds t) :
    ∃ x, ImportDeclaration.ofTree? x = none ∧ hasDefault x = false ∧
      statement (grammar (n + 1)) (F.state false t) = some (x, F.state false r) := by
  obtain ⟨m, fresh, fresh', u, hu, hr⟩ := h
  have hFu := hF.of_suffix hu.suffix
  obtain ⟨s, hrun⟩ := exists_expression_of_string (G := grammar n) hu hF
    (.inr (.inr hr.fromToken_eq.2))
  have hself : grammar (n + 1) .expression (F.state false t)
      = some (.node (.expression .member) s [], F.state false u) := hrun
  have hend : endStatement (F.state false u) = some ((), F.state false r) := by
    rw [run_endStatement_semicolon (by rw [Frame.state_token, hr.fromToken_eq.2]),
      Frame.state_next hFu hr (by simp)]
  refine ⟨.node .other ⟨(F.state false t).start, (F.state false r).lastStop⟩
    [.node (.expression .member) s []], rfl, rfl, ?_⟩
  have htoken : (F.state false t).token = .string m := by rw [Frame.state_token, hu.fromToken_eq.2]
  simp only [statement, run_bind, run_place, Option.bind_some, run_token, htoken,
    expressionStatement, hself, Tree.form, run_isAt]
  -- A string is no label.
  change (endStatement >>= fun _ => node .other (F.state false t).start
    [.node (.expression .member) s []]) (F.state false u) = _
  rw [run_bind, hend, Option.bind_some, run_node]

end Grammar

/-- A statement is read two levels deep at least: an expression stands in it. -/
lemma exists_depthFor (t : Text) : ∃ n, depthFor t - 1 = n + 1 := by
  refine ⟨depthFor t - 2, ?_⟩
  rw [depthFor, depthPerToken]
  omega

namespace IsDirective

open Program

/-- The statement that a directive is. -/
lemma ofTree?_eq_none (h : IsDirective t r) (hx : statement? t = some (x, u)) :
    ImportDeclaration.ofTree? x = none ∧ u = fromToken r := by
  obtain ⟨-, s, hrun, -, -, rfl⟩ := statement?_eq_some_iff.mp hx
  obtain ⟨n, hn⟩ := exists_depthFor t
  obtain ⟨y, hy, -, hrun'⟩ := Grammar.exists_run_statement (n := n) h (Frame.holds_of t)
  rw [hn, hrun'] at hrun
  cases hrun
  exact ⟨hy, Frame.state_here⟩

/-- A directive in front of a sound text is a statement. -/
lemma exists_statement? (h : IsDirective t r) (hr : IsSound r) :
    ∃ x, statement? t = some (x, fromToken r) := by
  obtain ⟨n, hn⟩ := exists_depthFor t
  obtain ⟨x, -, hdefault, hrun⟩ := Grammar.exists_run_statement (n := n) h (Frame.holds_of t)
  obtain ⟨m, _, _, u, hu, -⟩ := h
  exact ⟨x, statement?_eq_some_iff.mpr ⟨hu.isSound (by simp), _, hn ▸ hrun,
    Frame.state_isFlawed_eq_false_iff.mpr ⟨rfl, hr⟩, hdefault, Frame.state_here.symm⟩⟩

/-- A directive is read from its own characters. -/
lemma goesOn (h : IsDirective t r) :
    ∃ w, t = w ++ r ∧ ∀ r', GoesOn r r' → IsDirective (w ++ r') r' := by
  obtain ⟨m, fresh, fresh', u, hu, hr⟩ := h
  obtain ⟨w₁, -, rfl, hu'⟩ := hu.goesOn rfl
  obtain ⟨w₂, -, rfl, hr'⟩ := hr.goesOn rfl
  refine ⟨w₁ ++ w₂, by simp, fun r' hgoes => ⟨m, fresh, fresh', w₂ ++ r', ?_, hr' r' hgoes⟩⟩
  rw [List.append_assoc]
  exact hu' _ (hgoes.append w₂)

lemma fromToken (h : IsDirective t r) : IsDirective (Script.fromToken t) r := by
  obtain ⟨m, _, _, u, hu, hr⟩ := h
  exact ⟨m, _, _, u, hu.fromToken, hr⟩

end IsDirective

namespace Program

variable {xs : List (Text × Tree)}

/-- A directive in front of a long text ends where it did. -/
lemma exists_directive_moved (h : IsDirective t r) (hr : fromToken r = w ++ e) (hw : 7 ≤ w.length) :
    ∃ w₀, t = w₀ ++ (w ++ e) ∧ ∀ e', IsSound (w ++ e') →
      ∃ x, statement? (w₀ ++ (w ++ e')) = some (x, w ++ e') := by
  obtain ⟨g, hsplit, hgap, htoken⟩ := exists_fromToken (t := r) (hr ▸ append_ne_nil hw)
  rw [hr] at hsplit htoken
  obtain ⟨w₁, rfl, hgoes⟩ := h.goesOn
  refine ⟨w₁ ++ g, by rw [List.append_assoc, ← hsplit], fun e' hsound => ?_⟩
  have hcontinues : Continues (g ++ (w ++ e)) (g ++ (w ++ e')) := .of_gap hgap htoken hw
  rw [← hsplit] at hcontinues
  obtain ⟨x, hx⟩ := (hgoes _ hcontinues.goesOn).exists_statement?
    ((fromToken_gap_append hgap _).2.mpr hsound)
  rw [(fromToken_of_gap hgap (htoken.of_append (by omega))).1] at hx
  exact ⟨x, by rw [List.append_assoc, hx]⟩

/-- Directives, and imports behind them, are no obstacle to a text that is inserted into an import
or behind it. -/
lemma StaysRead.of_directives (n : Nat) (h : Reads (fromToken t) xs (w ++ e)) (hw : 7 ≤ w.length)
    (hxs : ∀ y ∈ xs.drop (directives n t), ImportDeclaration.ofTree? y.2 ≠ none)
    (hx : statement? (w ++ e) = some (x, v)) (himport : ImportDeclaration.ofTree? x ≠ none)
    (hv : byteLength v ≤ byteLength e) : StaysRead (fromToken t) e ins := by
  induction n generalizing t xs with
  | zero => exact .of_imports h hxs hx himport hv
  | succ n ih =>
      rw [directives] at hxs
      split_ifs at hxs with hstarts
      · have hdirective := (isDirective_of_startsDirective hstarts).fromToken
        generalize ht : fromToken t = t' at h hdirective
        cases h with
        | nil => exact absurd (hdirective.ofTree?_eq_none hx).1 himport
        | cons _ hy hys =>
            obtain ⟨-, rfl⟩ := hdirective.ofTree?_eq_none hy
            rw [List.drop_succ_cons] at hxs
            -- The statements behind the directive lead to the import, so it stands in front of it.
            obtain ⟨w', hw'⟩ := hys.suffix
            rw [← List.append_assoc] at hw'
            obtain ⟨w₀, hw₀, hmoved⟩ := exists_directive_moved (w := w' ++ w) hdirective hw'.symm
              (by rw [List.length_append]; omega)
            exact .cons hy (fun _ => ⟨w₀, w' ++ w, hw₀, hw'.symm, hmoved _⟩) (ih hys hxs)
      · exact .of_imports h hxs hx himport hv

end Program

end ComponentMigration.Script
