import Mathlib.Data.List.Perm.Basic
import ComponentMigration.Proofs.Script.Layout
import ComponentMigration.Script.Grammar.Statement

/-!
Trees between two offsets of a text.

* **Places.** A tree that `LiesIn` a text is laid out on it, and all its nodes are `IsProper`: the
  value of an assignment stands behind its target, and a name is not empty. `Between t a z xs`:
  trees lie in `t`, from `a` to `z`, and no two of them overlap.
* **Nodes.** A node around trees between its ends lies in the text (`Between.node`).
* **Replacing.** What takes the place of a tree must stay inside of it (`Between.replace`): a part
  of the tree, a node around it, or its form as the target of an assignment.
-/

namespace ComponentMigration.Script

open Text

variable {t : Text} {a b n y z : Nat} {x x' : Tree} {xs ys zs : List Tree} {f : Form}

/-! ### Places -/

/-- The value of an assignment stands behind its target, and a name is not empty. -/
abbrev Tree.IsProper (x : Tree) : Prop := x.IsOrderly Span.Precedes Span.IsFilled

/-- The nodes of a tree fit the text, hold their parts, do not overlap and are proper. -/
def Tree.LiesIn (t : Text) (x : Tree) : Prop :=
  x.IsLaidOut (Span.Fits t) ∧ ∀ n ∈ x.nodes, n.IsProper

/-- A node lies in a text if its span fits, its parts are held, and its parts lie there. -/
lemma Tree.liesIn_node_iff {s : Span} : (Tree.node f s xs).LiesIn t ↔
    s.Fits t ∧ s.Holds xs ∧ (Tree.node f s xs).IsProper ∧ ∀ p ∈ xs, p.LiesIn t := by
  simp only [LiesIn, isLaidOut_node_iff, nodes, nodesOf_eq_flatMap, List.forall_mem_cons,
    List.forall_mem_flatMap, forall_and]
  tauto

/-- A tree in a text has a span that fits there. -/
lemma Tree.LiesIn.fits (h : x.LiesIn t) : x.span.Fits t := h.1.span

/-- Trees lie between two offsets of a text, and no two of them overlap. -/
structure Between (t : Text) (a z : Nat) (xs : List Tree) : Prop where
  lies : ∀ x ∈ xs, x.LiesIn t
  holds : Span.Holds ⟨a, z⟩ xs

namespace Between

/-- No trees lie between any two offsets. -/
lemma nil : Between t a z [] := ⟨nofun, nofun, .nil⟩

/-- No tree begins in front of the first offset. -/
lemma start_le (h : Between t a z xs) (hx : x ∈ xs) :
    a ≤ x.span.start := (h.holds.inside x hx).start

/-- No tree ends behind the second offset. -/
lemma le_stop (h : Between t a z xs) (hx : x ∈ xs) : x.span.stop ≤ z := (h.holds.inside x hx).stop

/-- Where a tree lies, there is room. -/
lemma le_of_mem (h : Between t a z xs) (hx : x ∈ xs) : a ≤ z :=
  Nat.le_trans (h.start_le hx) (Nat.le_trans (h.lies x hx).fits.le (h.le_stop hx))

/-- Trees between two offsets lie between any two further apart. -/
lemma mono (h : Between t a z xs) (ha : b ≤ a) (hz : z ≤ y) : Between t b y xs :=
  ⟨h.lies, fun _ hp => ⟨Nat.le_trans ha (h.start_le hp), Nat.le_trans (h.le_stop hp) hz⟩,
    h.holds.apart⟩

/-- Trees in front of others lie between the outer offsets with them. -/
lemma append (hx : Between t a b xs) (hy : Between t y z ys) (hay : a ≤ y) (hby : b ≤ y)
    (hbz : b ≤ z) : Between t a z (xs ++ ys) := by
  have hx' := hx.mono (Nat.le_refl a) hbz
  have hy' := hy.mono hay (Nat.le_refl z)
  refine ⟨List.forall_mem_append.mpr ⟨hx.lies, hy.lies⟩,
    List.forall_mem_append.mpr ⟨hx'.holds.inside, hy'.holds.inside⟩,
    List.pairwise_append.mpr ⟨hx.holds.apart, hy.holds.apart, fun p hp q hq => .inl ?_⟩⟩
  exact Nat.le_trans (hx.le_stop hp) (Nat.le_trans hby (hy.start_le hq))

/-- The order does not matter, and trees can be left out. -/
lemma of_subperm (h : Between t a z xs) (hs : ys.Subperm xs) : Between t a z ys := by
  obtain ⟨l, hp, hl⟩ := hs
  refine ⟨fun x hx => h.lies x (hl.subset (hp.mem_iff.mpr hx)),
    fun x hx => h.holds.inside x (hl.subset (hp.mem_iff.mpr hx)), ?_⟩
  exact (hp.pairwise_iff Span.IsApart.symm).mp (h.holds.apart.sublist hl)

/-- Trees inside of a tree can take its place. -/
lemma replace (h : Between t a z (x :: zs))
    (hys : Between t x.span.start x.span.stop ys) : Between t a z (ys ++ zs) := by
  obtain ⟨hx, hzs⟩ := List.forall_mem_cons.mp h.lies
  obtain ⟨hinside, hins⟩ := List.forall_mem_cons.mp h.holds.inside
  obtain ⟨hapart, hap⟩ := List.pairwise_cons.mp h.holds.apart
  have hys' := hys.mono hinside.start hinside.stop
  refine ⟨List.forall_mem_append.mpr ⟨hys.lies, hzs⟩,
    List.forall_mem_append.mpr ⟨hys'.holds.inside, hins⟩,
    List.pairwise_append.mpr ⟨hys.holds.apart, hap, fun p hp q hq => ?_⟩⟩
  exact (hapart q hq).of_inside (hys.holds.inside p hp) (.refl _)

end Between

/-! ### Nodes -/

/-- Whether more is asked of the nodes of this form than that they are laid out. -/
@[reducible] def Form.isSpecial : Form → Bool
  | .assignment _ | .binding _ _ _ | .reference _ _ _ => true
  | _ => false

/-- A test fails. -/
class Fails (b : Bool) : Prop where
  fails : b = false

instance : Fails false := ⟨rfl⟩

instance {b : Prop} [Decidable b] {f g : Form} [hf : Fails f.isSpecial]
    [hg : Fails g.isSpecial] : Fails (if b then f else g).isSpecial := by
  split_ifs
  · exact hf
  · exact hg

/-- A node that is neither a name nor an assignment asks for nothing. -/
lemma Tree.isProper_of_fails [h : Fails f.isSpecial] {s : Span} :
    (Tree.node f s xs).IsProper := by
  have hf := h.fails
  refine ⟨?_, fun hname => ?_⟩
  · unfold Tree.Assigns
    split
    · next heq =>
      cases heq
      cases hf
    · trivial
  · cases f <;> cases hname <;> cases hf

/-- A name that is not empty. -/
lemma Tree.isProper_name (hf : f.IsName) {s : Span} (hs : s.start < s.stop) :
    (Tree.node f s xs).IsProper :=
  ⟨by cases f <;> cases hf <;> trivial, fun _ => hs⟩

/-- A node around trees between its ends. -/
lemma Between.node_of (h : Between t a z xs) (ha : t.IsBoundary a) (hz : t.IsBoundary z)
    (hle : a ≤ z) (hproper : (Tree.node f ⟨a, z⟩ xs).IsProper) :
    Between t a z [.node f ⟨a, z⟩ xs] := by
  refine ⟨?_, ?_, List.pairwise_singleton _ _⟩
  · rw [List.forall_mem_singleton, Tree.liesIn_node_iff]
    exact ⟨⟨hle, ha, hz⟩, h.holds, hproper, h.lies⟩
  · rw [List.forall_mem_singleton]
    exact .refl _

lemma Between.node [Fails f.isSpecial] (h : Between t a z xs) (ha : t.IsBoundary a)
    (hz : t.IsBoundary z) (hle : a ≤ z) : Between t a z [.node f ⟨a, z⟩ xs] :=
  h.node_of ha hz hle Tree.isProper_of_fails

/-! ### Trees in the place of others -/

/-- A tree can stand where another one does. -/
def Tree.Replaces (y x : Tree) : Prop := ∀ t, x.LiesIn t → y.LiesIn t ∧ y.span.Inside x.span

namespace Tree.Replaces

variable {g : Form} {s : Span} {u v w : Tree}

/-- A tree can stand in its own place. -/
lemma refl (x : Tree) : x.Replaces x := fun _ h => ⟨h, .refl _⟩

/-- What replaces a tree that replaces another one replaces that. -/
lemma trans (h : u.Replaces v) (h' : v.Replaces w) : u.Replaces w := fun t hw => by
  obtain ⟨hv, hvw⟩ := h' t hw
  obtain ⟨hu, huv⟩ := h t hv
  exact ⟨hu, huv.trans hvw⟩

/-- A part stands where its node does. -/
lemma part (hx : x ∈ xs) : x.Replaces (.node f s xs) := fun t h => by
  obtain ⟨-, hholds, -, hlies⟩ := liesIn_node_iff.mp h
  exact ⟨hlies x hx, hholds.inside x hx⟩

/-- A name stands where another name does. -/
lemma name (hg : g.IsName) (hf : f.IsName) :
    (Tree.node g s []).Replaces (.node f s xs) := fun _ h => by
  obtain ⟨hfits, -, hproper, -⟩ := liesIn_node_iff.mp h
  exact ⟨liesIn_node_iff.mpr ⟨hfits, ⟨nofun, .nil⟩, isProper_name hg (hproper.name hf), nofun⟩,
    .refl _⟩

/-- A node around a tree stands where the tree does. -/
lemma around [Fails g.isSpecial] (x : Tree) : (Tree.node g x.span [x]).Replaces x := fun _ h =>
  ⟨liesIn_node_iff.mpr ⟨h.fits, ⟨by simpa using .refl _, List.pairwise_singleton _ _⟩,
    isProper_of_fails, by simpa using h⟩, .refl _⟩

/-- Trees are between two offsets where those are that they replace. -/
lemma between (h : List.Forall₂ Replaces ys xs) (hxs : Between t a z (xs ++ zs)) :
    Between t a z (ys ++ zs) := by
  induction h generalizing zs with
  | nil => exact hxs
  | @cons y x ys xs hy hys ih =>
      obtain ⟨hlies, hinside⟩ := hy t (hxs.lies x List.mem_cons_self)
      have hone : Between t x.span.start x.span.stop [y] :=
        ⟨by simpa using hlies, by simpa using hinside, List.pairwise_singleton _ _⟩
      have hmoved : Between t a z (ys ++ y :: zs) :=
        ih ((hxs.replace hone).of_subperm List.perm_middle.subperm)
      exact hmoved.of_subperm List.perm_middle.symm.subperm

/-- A node stands where one with other parts does. -/
lemma node [Fails g.isSpecial] (h : List.Forall₂ Replaces ys xs) :
    (Tree.node g s ys).Replaces (.node f s xs) := fun t hx => by
  obtain ⟨hfits, hholds, -, hlies⟩ := liesIn_node_iff.mp hx
  have hys : Between t s.start s.stop (ys ++ []) := between h (by simpa using ⟨hlies, hholds⟩)
  rw [List.append_nil] at hys
  exact ⟨liesIn_node_iff.mpr ⟨hfits, hys.holds, isProper_of_fails, hys.lies⟩, .refl _⟩

end Tree.Replaces

/-! ### What expressions become -/

namespace Grammar

/-- A place is the expression itself, or stands in its parentheses. -/
lemma replaces_of_toPlace? {x y : Tree} (h : toPlace? x = some y) : y.Replaces x := by
  induction x using Tree.ind with
  | h f s ps ih =>
      rw [toPlace?.eq_def] at h
      split at h
      · next heq =>
        cases heq
        exact (ih _ List.mem_cons_self h).trans (.part List.mem_cons_self)
      · split at h
        all_goals
          try split_ifs at h
          cases h
          try exact .refl _

/-- What an expression becomes as a target stands where the expression does. -/
def HasTargets (x : Tree) : Prop := ∀ y, toTarget? x = some y → y.Replaces x

/-- An element of a pattern is a target, or one with a default. -/
lemma replaces_of_toElementTarget? {x y : Tree} (hx : HasTargets x)
    (h : toElementTarget? x = some y) : y.Replaces x := by
  rw [toElementTarget?.eq_def] at h
  split at h
  · cases h
    exact .node (List.forall₂_same.mpr fun p _ => .refl p)
  · cases h
  · exact hx y (by rwa [toTarget?])
  · exact hx y (by rwa [toTarget?])
  · exact replaces_of_toPlace? h

/-- The elements of an array have targets where they and their parts do. -/
lemma forall₂_of_elementTargets? {ps qs : List Tree}
    (hps : ∀ p ∈ ps, HasTargets p ∧ ∀ e ∈ p.parts, HasTargets e)
    (h : elementTargets? ps = some qs) : List.Forall₂ Tree.Replaces qs ps := by
  induction ps generalizing qs with
  | nil =>
      rw [elementTargets?] at h
      cases h
      exact .nil
  | cons p rest ih =>
      obtain ⟨⟨hp, hparts⟩, hrest⟩ := List.forall_mem_cons.mp hps
      rw [elementTargets?.eq_def] at h
      split at h
      · cases ‹p :: rest = []›
      -- A spread stands last, and its operand becomes a target; a hole stays, and another
      -- element becomes a target itself.
      · next s e _ heq =>
        cases heq
        split at h
        · obtain ⟨target, htarget, rfl⟩ := Option.map_eq_some_iff.mp h
          exact .cons (.node (.cons (hparts e List.mem_cons_self target htarget) .nil)) .nil
        · cases h
      · next heq =>
        cases heq
        split_ifs at h
        · obtain ⟨targets, htargets, rfl⟩ := Option.map_eq_some_iff.mp h
          exact .cons (.refl p) (ih hrest htargets)
        · split at h
          · next htarget htargets =>
            cases h
            exact .cons (replaces_of_toElementTarget? hp htarget) (ih hrest htargets)
          · cases h

/-- The properties of an object have targets where they and their parts do. -/
lemma forall₂_of_propertyTargets? {ps qs : List Tree}
    (hps : ∀ p ∈ ps, ∀ e ∈ p.parts, HasTargets e)
    (h : propertyTargets? ps = some qs) : List.Forall₂ Tree.Replaces qs ps := by
  induction ps generalizing qs with
  | nil =>
      rw [propertyTargets?] at h
      cases h
      exact .nil
  | cons p rest ih =>
      obtain ⟨hparts, hrest⟩ := List.forall_mem_cons.mp hps
      rw [propertyTargets?.eq_def] at h
      split at h
      · cases ‹p :: rest = []›
      -- A spread stands last; of a property with a key only the value becomes a target; a
      -- shorthand stays.
      · next s e _ heq =>
        cases heq
        split at h
        · obtain ⟨target, htarget, rfl⟩ := Option.map_eq_some_iff.mp h
          exact .cons (.node (.cons (hparts e List.mem_cons_self target htarget) .nil)) .nil
        · cases h
      · next s value _ heq =>
        cases heq
        split at h
        · next htarget htargets =>
          cases h
          have hvalue := replaces_of_toElementTarget? (hparts value (by simp [Tree.parts])) htarget
          exact .cons (.node (.cons hvalue .nil)) (ih hrest htargets)
        · cases h
      · next s key value _ heq =>
        cases heq
        split at h
        · next htarget htargets =>
          cases h
          have hvalue := replaces_of_toElementTarget? (hparts value (by simp [Tree.parts])) htarget
          exact .cons (.node (.cons (.refl key) (.cons hvalue .nil))) (ih hrest htargets)
        · cases h
      · next s parts _ heq =>
        cases heq
        obtain ⟨targets, htargets, rfl⟩ := Option.map_eq_some_iff.mp h
        exact .cons (.node (List.forall₂_same.mpr fun p _ => .refl p)) (ih hrest htargets)
      · next s parts _ heq =>
        cases heq
        obtain ⟨targets, htargets, rfl⟩ := Option.map_eq_some_iff.mp h
        exact .cons (.node (List.forall₂_same.mpr fun p _ => .refl p)) (ih hrest htargets)
      · cases h

/-- **Targets of assignments** stand where the expressions do that they are read from. -/
theorem hasTargets (x : Tree) : HasTargets x := by
  -- The targets in a list are found two levels down, so the parts are taken into the induction.
  suffices h : HasTargets x ∧ ∀ p ∈ x.parts, HasTargets p from h.1
  induction x using Tree.ind with
  | h f s ps ih =>
      refine ⟨fun y hy => ?_, fun p hp => (ih p hp).1⟩
      rw [toTarget?.eq_def] at hy
      split at hy
      · next heq =>
        cases heq
        obtain ⟨targets, htargets, rfl⟩ := Option.map_eq_some_iff.mp hy
        exact .node (forall₂_of_elementTargets? ih htargets)
      · next heq =>
        cases heq
        obtain ⟨targets, htargets, rfl⟩ := Option.map_eq_some_iff.mp hy
        exact .node (forall₂_of_propertyTargets? (fun p hp => (ih p hp).2) htargets)
      · next heq =>
        cases heq
        exact replaces_of_toPlace? hy

/-- The parts of an instantiated expression lie where it does. -/
lemma between_instantiation (hx : x.LiesIn t) :
    Between t x.span.start x.span.stop (instantiation x) := by
  unfold instantiation
  split
  · obtain ⟨-, hholds, -, hlies⟩ := Tree.liesIn_node_iff.mp hx
    exact ⟨hlies, hholds⟩
  · exact ⟨by simpa using hx, by simpa using .refl _, List.pairwise_singleton _ _⟩

/-- A hole behind a last spread lies where the spread ends. -/
lemma between_withLastHole (isTrailing : Bool) (h : Between t a z (xs ++ zs)) :
    Between t a z (withLastHole xs isTrailing ++ zs) := by
  unfold withLastHole
  split
  · next s parts hlast =>
    split_ifs
    · obtain ⟨ys, rfl⟩ := List.getLast?_eq_some_iff.mp hlast
      -- The last element is moved to the front, given a hole behind it, and moved back.
      have hspread : Between t a z (.node .spread s parts :: (ys ++ zs)) :=
        h.of_subperm (by simpa using List.perm_middle.symm.subperm)
      have hlies := hspread.lies _ List.mem_cons_self
      have hpair : Between t s.start s.stop
          ([.node .spread s parts] ++ [.node .hole ⟨s.stop, s.stop⟩ []]) :=
        Between.append (b := s.stop) (y := s.stop)
          ⟨by simpa using hlies, by simpa using .refl _, List.pairwise_singleton _ _⟩
          (Between.nil.node hlies.fits.stop hlies.fits.stop (Nat.le_refl _)) hlies.fits.le
          (Nat.le_refl _) (Nat.le_refl _)
      refine (hspread.replace hpair).of_subperm (List.Perm.subperm ?_)
      simpa using List.perm_middle.trans (.cons _ List.perm_middle)
    · exact h
  · exact h

/-- Namespaces inside of each other lie behind their names. -/
lemma between_nestedNamespace {names body : List Tree} {m : Nat} (hnames : Between t a m names)
    (horder : names.Pairwise fun p q => p.span.Precedes q.span) (hbody : Between t n z body)
    (han : a ≤ n) (hmn : m ≤ n) (hnz : n ≤ z) (hz : t.IsBoundary z) :
    Between t a z (nestedNamespace names body z) := by
  induction names generalizing a with
  | nil => exact hbody.mono han (Nat.le_refl _)
  | cons declared rest ih =>
      obtain ⟨hfirst, hrest⟩ := List.pairwise_cons.mp horder
      have hlies := hnames.lies declared List.mem_cons_self
      have hstart := hnames.start_le List.mem_cons_self
      have hstop := hnames.le_stop List.mem_cons_self
      -- The other names stand behind the first, and the scopes of the rest within its scope.
      have hinner : Between t declared.span.stop m rest :=
        ⟨fun p hp => hnames.lies p (List.mem_cons_of_mem _ hp),
          fun p hp => ⟨hfirst p hp, hnames.le_stop (List.mem_cons_of_mem _ hp)⟩,
          hnames.holds.apart.tail⟩
      have hscope := (ih hinner hrest (by omega)).node (f := .scope true) hlies.fits.stop hz
        (by omega)
      have hdeclared : Between t a declared.span.stop [declared] :=
        ⟨by simpa using hlies, by simpa using ⟨hstart, Nat.le_refl _⟩, List.pairwise_singleton _ _⟩
      exact hdeclared.append hscope (Nat.le_trans hstart hlies.fits.le) (Nat.le_refl _) (by omega)

end Grammar

end ComponentMigration.Script
