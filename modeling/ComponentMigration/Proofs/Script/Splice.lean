import ComponentMigration.Proofs.Script.Chain

/-!
Scripts with a text inserted.

* **Interpreter lines.** An interpreter line is told from what follows it by two characters, so it
  stays with a text inserted later on.
* **Scripts.** `Program.parse?_eq_some_iff`: a script is what is read behind its interpreter line.
  `Program.exists_parse?_inserted`: with a text inserted it is a script again if what stands at the
  insertion is read.
* **Places.** Trees and import declarations are shifted together: `Tree.sameAs_shift`,
  `ImportDeclaration.extension?_shift`.
-/

namespace ComponentMigration.Script

open Text Script.Parser

variable {text t t' e e' g h line w ins r z m name : Text} {x : Tree} {ps : List Tree}

/-! ### The interpreter line -/

lemma State.interpreterLine_isPrefix (text : Text) : interpreterLine text <+: text := by
  rw [interpreterLine]
  split_ifs
  · exact List.takeWhile_prefix _
  · exact List.nil_prefix

/-- The text behind the interpreter line. -/
def State.behindLine (text : Text) : Text := text.drop (interpreterLine text).length

lemma State.line_append (text : Text) : interpreterLine text ++ behindLine text = text :=
  List.prefix_iff_eq_append.mp (interpreterLine_isPrefix text)

lemma State.behindLine_eq (h : interpreterLine (line ++ t) = line) :
    behindLine (line ++ t) = t := by
  rw [behindLine, h, List.drop_left]

/-- An interpreter line is the same in front of any text that begins like the one behind it. -/
lemma State.interpreterLine_append (hh : 2 ≤ h.length)
    (heq : interpreterLine (line ++ (h ++ e)) = line) :
    interpreterLine (line ++ (h ++ e')) = line := by
  obtain ⟨a, b, h, rfl⟩ : ∃ a b h', h = a :: b :: h' := by
    match h, hh with
    | a :: b :: h, _ => exact ⟨a, b, h, rfl⟩
  have hstarts : startsWith (line ++ (a :: b :: h ++ e')) ['#', '!']
      = startsWith (line ++ (a :: b :: h ++ e)) ['#', '!'] := by
    match line with
    | [] | [_] | _ :: _ :: _ => simp [startsWith, List.isPrefixOf]
  rw [interpreterLine] at heq ⊢
  rw [hstarts]
  split_ifs at heq ⊢ with hs
  · have hruns := runs_takeWhile (!isLineEnd ·) (line ++ (a :: b :: h ++ e))
    rw [heq] at hruns
    have hdrop : (line ++ (a :: b :: h ++ e)).dropWhile (!isLineEnd ·) = a :: b :: h ++ e := by
      have := List.takeWhile_append_dropWhile (p := (!isLineEnd ·))
        (l := line ++ (a :: b :: h ++ e))
      rw [heq] at this
      exact List.append_cancel_left this
    rw [hdrop] at hruns
    exact (runs_cons hruns.all (hruns.stops a rfl)).takeWhile_eq
  · exact heq

lemma ofText_eq_state (text : Text) :
    State.ofText text true = (Frame.of text).state false (State.behindLine text) := by
  have hsize := congrArg byteLength (State.line_append text)
  rw [byteLength_append] at hsize
  rw [State.ofText, State.first, ← State.behindLine, Frame.state]
  refine State.next_congr ?_ rfl rfl rfl rfl ?_
  · dsimp only [Frame.of]
    omega
  · dsimp only [Frame.of]
    rw [State.line_append]

namespace Program

variable {u : Text} {xs ys : List (Text × Tree)} {p : Program}

/-- A script is read statement by statement behind its interpreter line. -/
lemma parse?_eq_some_iff : parse? text = some p ↔ IsSound (State.behindLine text) ∧
    ∃ xs, Reads (fromToken (State.behindLine text)) xs [] ∧ xs.length ≤ text.length ∧
      p.body = xs.map fun y => y.2.shift (byteLength text - byteLength y.1) := by
  have hsound : ((Frame.of text).state false (State.behindLine text)).isFlawed = false ↔
      IsSound (State.behindLine text) := by
    rw [Frame.state_isFlawed_eq_false_iff]
    simp
  have hhere : ((Frame.of text).state false (State.behindLine text)).here
      = fromToken (State.behindLine text) := Frame.state_here
  rw [parse?, ofText_eq_state, ← hsound, ← hhere]
  generalize (Frame.of text).state false (State.behindLine text) = s
  cases hflawed : s.isFlawed with
  | true => simp
  | false =>
      simp only [Bool.false_eq_true, if_false, Option.map_eq_some_iff, statements?_eq_some_iff,
        true_and]
      constructor
      · rintro ⟨ts, ⟨xs, hxs, hlength, rfl⟩, rfl⟩
        exact ⟨xs, hxs, hlength, rfl⟩
      · rintro ⟨xs, hxs, hlength, hbody⟩
        exact ⟨_, ⟨xs, hxs, hlength, rfl⟩, by rw [← hbody]⟩

/-- Behind the interpreter line the statements begin with the first token. -/
lemma fromToken_behindLine_suffix (text : Text) : fromToken (State.behindLine text) <:+ text :=
  (fromToken_suffix _).trans (List.drop_suffix _ _)

/-- The front of a script is found again in front of another text, interpreter line included. -/
lemma exists_front (h : fromToken (State.behindLine text) = w ++ e) (hw : 2 ≤ w.length) :
    ∃ before, text = before ++ e ∧ ∀ e', fromToken (State.behindLine (before ++ e')) = w ++ e' ∧
      (IsSound (w ++ e') → IsSound (State.behindLine (before ++ e'))) := by
  obtain ⟨g, htext, hgap, htoken⟩ := exists_fromToken (t := State.behindLine text)
    (h ▸ append_ne_nil hw)
  rw [h] at htext htoken
  have hline := State.line_append text
  rw [htext, ← List.append_assoc g] at hline
  refine ⟨State.interpreterLine text ++ (g ++ w), by rw [List.append_assoc, hline], fun e' => ?_⟩
  have htoken' : IsToken (w ++ e') := htoken.of_append hw
  have hlong : 2 ≤ (g ++ w).length := by
    rw [List.length_append]
    omega
  rw [List.append_assoc, State.behindLine_eq (State.interpreterLine_append hlong (by rw [hline])),
    List.append_assoc]
  exact ⟨(fromToken_of_gap hgap htoken').1, (fromToken_gap_append hgap _).2.mpr⟩

lemma isSound_of_reads (h : Reads t xs []) (ht : t ≠ []) : IsSound t := by
  cases h with
  | nil => exact absurd rfl ht
  | cons _ hx _ => exact isSound_of_statement? hx

/-- A script with a text inserted is read as one: its statements up to a text `w` in front of the
insertion as before, and behind them what `w` begins. -/
lemma exists_parse?_inserted (hxs : Reads (fromToken (State.behindLine text)) xs (w ++ e))
    (hw : 7 ≤ w.length) (hstay : StaysRead (fromToken (State.behindLine text)) e ins)
    (hys : Reads (w ++ (ins ++ e)) ys [])
    (hlength : xs.length + ys.length ≤ text.length + ins.length) :
    ∃ (before : Text) (xs' : List (Text × Tree)) (p' : Program), text = before ++ e ∧
      parse? (before ++ (ins ++ e)) = some p' ∧
        List.Forall₂ (fun y y' => ImportDeclaration.ofTree? y.2 = none ∨ y.2.SameAs y'.2) xs xs' ∧
          p'.body = (xs' ++ ys).map fun y =>
            y.2.shift (byteLength (before ++ (ins ++ e)) - byteLength y.1) := by
  obtain ⟨w', hfront, hsound, xs', hxs', hrel⟩ :=
    hxs.front hw hstay (isSound_of_reads hys (append_ne_nil hw))
  rw [← List.append_assoc] at hfront hsound hxs'
  obtain ⟨before, htext, hbefore⟩ := exists_front hfront (by
    rw [List.length_append]
    omega)
  obtain ⟨hfrom, hsound'⟩ := hbefore (ins ++ e)
  refine ⟨before, xs', ⟨_⟩, htext, parse?_eq_some_iff.mpr ⟨hsound' hsound, xs' ++ ys, ?_, ?_, rfl⟩,
    hrel, rfl⟩
  · rw [hfrom]
    exact reads_append_iff.mpr ⟨_, hxs', hys⟩
  · have hsame := hrel.length_eq
    have hsize := congrArg List.length htext
    simp only [List.length_append] at hsize ⊢
    omega

end Program

/-! ### Shifted trees -/

lemma shiftAll_eq_map (k : Nat) (ts : List Tree) : shiftAll k ts = ts.map (Tree.shift k) := by
  induction ts with
  | nil => rfl
  | cons t ts ih => rw [shiftAll, ih, List.map_cons]

lemma Tree.span_shift (k : Nat) (t : Tree) :
    (t.shift k).span = ⟨k + t.span.start, k + t.span.stop⟩ := by
  cases t
  rfl

lemma Tree.shift_shift (j k : Nat) (t : Tree) : (t.shift j).shift k = t.shift (k + j) := by
  induction t using Tree.ind with
  | h f s ps ih =>
      simp only [shift, shiftAll_eq_map, List.map_map, Nat.add_assoc]
      exact congrArg (Tree.node f _) (List.map_congr_left ih)

lemma Tree.shift_inj {k : Nat} {t u : Tree} (h : t.shift k = u.shift k) : t = u := by
  induction t using Tree.ind generalizing u with
  | h f s ps ih =>
      obtain ⟨g, s', qs⟩ := u
      rw [shift, shift, shiftAll_eq_map, shiftAll_eq_map] at h
      obtain ⟨rfl, hspan, hparts⟩ := Tree.node.inj h
      obtain ⟨hstart, hstop⟩ := Span.mk.inj hspan
      have hs : s = s' := by
        rw [show s = ⟨s.start, s.stop⟩ from rfl, Nat.add_left_cancel hstart,
          Nat.add_left_cancel hstop]
      have hps : ps = qs := by
        clear h hspan
        induction ps generalizing qs with
        | nil => exact (List.map_eq_nil_iff.mp hparts.symm).symm
        | cons p ps ih' =>
            obtain ⟨q, qs, rfl, hq, hqs⟩ := List.map_eq_cons_iff.mp hparts.symm
            rw [ih p List.mem_cons_self hq.symm,
              ih' (fun t ht => ih t (List.mem_cons_of_mem p ht)) qs hqs.symm]
      rw [hs, hps]

lemma Tree.unplaced_shift (k : Nat) (t : Tree) : (t.shift k).unplaced = t.unplaced := by
  induction t using Tree.ind with
  | h f s ps ih =>
      rw [shift, unplaced, unplaced, unplacedAll_eq_map, unplacedAll_eq_map, shiftAll_eq_map,
        List.map_map]
      exact congrArg (Tree.node f ⟨0, 0⟩) (List.map_congr_left ih)

lemma Tree.sameAs_shift (k : Nat) (t : Tree) : t.SameAs (t.shift k) := (t.unplaced_shift k).symm

/-- Trees that differ in their places only take the same from modules. -/
lemma Tree.SameAs.takenFrom_eq {t t' : Tree} (h : t.SameAs t') (module name : Text) :
    t.takenFrom module name = t'.takenFrom module name := by
  have hkeeps : KeepsImports Tree.SameAs := by
    intro f s ps f' s' ps' h
    rw [SameAs, unplaced, unplaced, unplacedAll_eq_map, unplacedAll_eq_map] at h
    obtain ⟨rfl, -, h⟩ := Tree.node.inj h
    refine .inl ⟨rfl, fun _ => ?_⟩
    rwa [← List.forall₂_eq_eq_eq, List.forall₂_map_left_iff, List.forall₂_map_right_iff] at h
  exact hkeeps.takenFrom_eq h

/-! ### Shifted imports -/

/-- The specifier behind some bytes more. -/
def Specifier.shift (k : Nat) (s : Specifier) : Specifier :=
  { s with span := ⟨k + s.span.start, k + s.span.stop⟩ }

/-- The declaration behind some bytes more. -/
def ImportDeclaration.shift (k : Nat) (d : ImportDeclaration) : ImportDeclaration :=
  { d with specifiers := d.specifiers.map (Specifier.shift k),
           span := ⟨k + d.span.start, k + d.span.stop⟩ }

lemma Specifier.ofTree?_shift (k : Nat) (t : Tree) :
    Specifier.ofTree? (t.shift k) = (Specifier.ofTree? t).map (Specifier.shift k) := by
  obtain ⟨f, s, ps⟩ := t
  cases f
  case namedImport | defaultImport | namespaceImport =>
    match ps with
    | [] => rfl
    | [.node g _ _] | .node g _ _ :: _ :: _ => cases g <;> rfl
  all_goals rfl

lemma ImportDeclaration.ofTree?_shift (k : Nat) (t : Tree) :
    ImportDeclaration.ofTree? (t.shift k)
      = (ImportDeclaration.ofTree? t).map (ImportDeclaration.shift k) := by
  obtain ⟨f, s, ps⟩ := t
  cases f
  case importDeclaration m isType =>
    have hparts : (shiftAll k ps).filterMap Specifier.ofTree?
        = (ps.filterMap Specifier.ofTree?).map (Specifier.shift k) := by
      rw [shiftAll_eq_map, List.filterMap_map, List.map_filterMap]
      exact List.filterMap_congr fun q _ => Specifier.ofTree?_shift k q
    rw [Tree.shift, ImportDeclaration.ofTree?, ImportDeclaration.ofTree?, hparts]
    rfl
  all_goals rfl

/-- The place of more names moves with the declaration. -/
lemma ImportDeclaration.extension?_shift (k : Nat) (d : ImportDeclaration) (list : Text) :
    (d.shift k).extension? list = (d.extension? list).map fun edit => (k + edit.1, edit.2) := by
  obtain ⟨m, isType, specifiers, span⟩ := d
  have hnamed : ((specifiers.map (Specifier.shift k)).filter (·.isNamed)).getLast?
      = ((specifiers.filter (·.isNamed)).getLast?).map (Specifier.shift k) := by
    rw [List.filter_map, List.getLast?_map]
    rfl
  rw [extension?, extension?, shift]
  dsimp only
  rw [hnamed]
  cases (specifiers.filter (·.isNamed)).getLast? with
  | some s => rfl
  | none =>
      match specifiers with
      | [] => rfl
      | [⟨taken, w, symbol, s⟩] | ⟨taken, w, symbol, s⟩ :: _ :: _ => cases taken <;> rfl

end ComponentMigration.Script
