import ComponentMigration.Proofs.Script.Laying
import ComponentMigration.Proofs.Script.Partition

/-!
Scripts are laid out.

* **Places.** A tree that lies in a text lies behind other texts as well, shifted
  (`Tree.LiesIn.shift`).
* **Statements.** A statement lies in the text that it is read from
  (`Program.liesIn_of_statement?`).
* **Main statement.** `Program.isLaidOut_of_parse?`: the spans of a script that is read fit its
  source, nodes hold their parts, and no two parts overlap. The values of its assignments stand
  behind their targets, and its names are not empty (`Program.isProper_of_parse?`).
-/

namespace ComponentMigration.Script

open Text Script.Parser

variable {t a : Text} {n : Nat} {x : Tree} {xs : List Tree} {s s' : Span}

/-! ### Places behind other texts -/

/-- A span behind some bytes more. -/
def Span.shift (k : Nat) (s : Span) : Span := ⟨k + s.start, k + s.stop⟩

lemma Text.IsBoundary.append_left (h : t.IsBoundary n) (a : Text) :
    (a ++ t).IsBoundary (byteLength a + n) := by
  obtain ⟨w, r, rfl, rfl⟩ := isBoundary_iff.mp h
  exact isBoundary_iff.mpr ⟨a ++ w, r, by rw [List.append_assoc], byteLength_append a w⟩

lemma Span.Fits.shift (h : s.Fits t) (a : Text) : (s.shift (byteLength a)).Fits (a ++ t) :=
  ⟨Nat.add_le_add_left h.le _, Text.IsBoundary.append_left h.start a,
    Text.IsBoundary.append_left h.stop a⟩

lemma Span.Holds.shift (h : s.Holds xs) (k : Nat) :
    (s.shift k).Holds (xs.map (Tree.shift k)) := by
  refine ⟨?_, List.pairwise_map.mpr (h.apart.imp fun {p q} hpq => ?_)⟩
  · rw [List.forall_mem_map]
    intro p hp
    rw [Tree.span_shift]
    exact ⟨Nat.add_le_add_left (h.inside p hp).start k, Nat.add_le_add_left (h.inside p hp).stop k⟩
  · rw [Tree.span_shift, Tree.span_shift]
    exact hpq.imp (Nat.add_le_add_left · k) (Nat.add_le_add_left · k)

/-- The value of an assignment stays behind its target, and no name becomes empty. -/
lemma Tree.IsOrderly.shift (h : x.IsProper) (k : Nat) : (x.shift k).IsProper := by
  obtain ⟨f, s, ps⟩ := x
  rw [Tree.shift, shiftAll_eq_map]
  refine ⟨?_, fun hname => Nat.add_lt_add_left (h.name hname) k⟩
  cases f
  case assignment operator =>
    rcases ps with _ | ⟨target, _ | ⟨value, _ | ⟨_, _⟩⟩⟩
    · trivial
    · trivial
    · have hle : target.span.stop ≤ value.span.start := h.assigns
      simpa [Tree.Assigns, Tree.span_shift, Span.Precedes] using hle
    · trivial
  all_goals trivial

/-- A tree lies behind other texts as well. -/
lemma Tree.LiesIn.shift (h : x.LiesIn t) (a : Text) :
    (x.shift (byteLength a)).LiesIn (a ++ t) := by
  induction x using Tree.ind with
  | h f s ps ih =>
      obtain ⟨hfits, hholds, hassigns, hparts⟩ := liesIn_node_iff.mp h
      have hassigns' := hassigns.shift (byteLength a)
      rw [Tree.shift, shiftAll_eq_map] at hassigns' ⊢
      refine liesIn_node_iff.mpr ⟨hfits.shift a, hholds.shift _, hassigns', ?_⟩
      rw [List.forall_mem_map]
      exact fun p hp => ih p hp (hparts p hp)

/-! ### Scripts -/

namespace Program

variable {source u : Text} {p : Program} {qs : List Piece}

/-- A statement lies in the text that it is read from. -/
lemma liesIn_of_statement? (h : statement? t = some (x, u)) : x.LiesIn t := by
  obtain ⟨-, s, hrun, hflawed, -, -⟩ := statement?_eq_some_iff.mp h
  rw [← first_eq_state] at hrun
  have hlays : LaysAlone false (Script.grammar (depthFor t - 1 + 1) .statement) := inferInstance
  have hbetween := (Lays.alone_between hlays (State.within_first t true)
    (State.isOrdered_first t true) hrun hflawed).1
  exact hbetween.lies x List.mem_cons_self

/-- The trees of a row of pieces lie behind a front. -/
lemma liesIn_of_row (h : Row qs) (a : Text) :
    ∀ x ∈ place (byteLength a) qs, x.LiesIn (a ++ whole qs) := by
  induction h generalizing a with
  | nil => nofun
  | @cons q qs hq _ ih =>
      have hbehind := ih (a ++ (q.text ++ q.gap))
      rw [byteLength_append, List.append_assoc, List.append_assoc q.text] at hbehind
      rw [place_cons, List.forall_mem_cons, whole_cons]
      exact ⟨(liesIn_of_statement? hq.statement).shift a, hbehind⟩

/-- The statements of a script lie in its source. -/
lemma liesIn_of_parse? (hp : parse? source = some p) : ∀ x ∈ p.body, x.LiesIn source := by
  obtain ⟨pre, qs, hrow⟩ := exists_row hp
  rw [hrow.text, hrow.body]
  exact liesIn_of_row hrow.row pre

/-- **Scripts are laid out**: in a script that is read the spans of all nodes fit the source, all
parts are inside of their nodes, and no two of them overlap. -/
theorem isLaidOut_of_parse? (hp : parse? source = some p) : p.IsLaidOut (Span.Fits source) :=
  ⟨fun x hx => (liesIn_of_parse? hp x hx).1, (isInLine_of_parse? hp).inOrder.imp .inl⟩

/-- A script whose names were given symbols is laid out. -/
lemma isLaidOut_resolve_of_parse? (hp : parse? source = some p) :
    p.resolve.IsLaidOut (Span.Fits source) :=
  isLaidOut_resolve (isLaidOut_of_parse? hp)

/-- **The nodes of scripts are proper**: in a script that is read the values of assignments stand
behind their targets, and no name is empty. -/
theorem isProper_of_parse? (hp : parse? source = some p) :
    ∀ n ∈ nodesOf p.body, n.IsProper := by
  rw [nodesOf_eq_flatMap, List.forall_mem_flatMap]
  exact fun x hx => (liesIn_of_parse? hp x hx).2

end Program

end ComponentMigration.Script
