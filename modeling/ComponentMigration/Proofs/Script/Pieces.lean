import ComponentMigration.Proofs.Script.Closing
import ComponentMigration.Proofs.Script.Splice

/-!
Scripts in pieces.

* **Pieces.** A `Piece` is a statement with its text and the gap behind it. A script is a row of
  pieces behind a front (`Program.exists_row`), and its trees are placed where their texts stand.
* **Imports cut out.** `left` is what is left of pieces when the texts of the imports are cut out:
  every gap stays, so two gaps may come to stand side by side.
* **Main statement.** `Program.parse?_left_iff`: what is left is a script of the other statements,
  each with its own text, if and only if each of them is read in front of what is left behind it.
-/

namespace ComponentMigration.Script

open Text Script.Parser

variable {t u e g w line : Text} {x y : Tree} {k m : Nat} {fresh : Bool}

/-! ### Gaps in front of other texts -/

/-- The first token has nothing in front of it. -/
lemma fromToken_fromToken (t : Text) : fromToken (fromToken t) = fromToken t := by
  by_cases hne : fromToken t = []
  · rw [hne]
    rfl
  · obtain ⟨g, -, -, htoken⟩ := exists_fromToken hne
    exact fromToken_of_isToken htoken

/-- The gap is empty if the text begins with a token. -/
lemma gapLength_eq_zero_iff : gapLength t = 0 ↔ fromToken t = t := by
  have hdrop := dropBytes?_gapLength t
  constructor
  · intro h
    rw [h] at hdrop
    cases t <;> exact (Option.some.inj hdrop).symm
  · intro h
    obtain ⟨p, hp, hsize⟩ := dropBytes?_eq_some_iff.mp hdrop
    rw [h, List.self_eq_append_left] at hp
    rw [← hsize, hp, byteLength_nil]

/-- No token begins like an interpreter line. -/
lemma not_startsWith_of_isSound (h : IsSound u) : startsWith u ['#', '!'] = false := by
  rw [← Bool.not_eq_true]
  intro hstarts
  obtain ⟨r, rfl⟩ := List.isPrefixOf_iff_prefix.mp hstarts
  have htoken : IsToken (['#', '!'] ++ r) := ⟨by decide, by decide, by simp⟩
  refine h.2 ?_
  rw [peek, fromToken_of_isToken htoken]
  rfl

/-- No gap begins like an interpreter line. -/
lemma not_startsWith_gap_append (hgap : Gap .space false g fresh) (hu : IsSound u) :
    startsWith (g ++ u) ['#', '!'] = false := by
  cases g with
  | nil => exact not_startsWith_of_isSound hu
  | cons c g =>
      have hc : c ≠ '#' := by
        rintro rfl
        rcases hgap.head with h | h | h <;> revert h <;> decide
      simp [startsWith, List.isPrefixOf, hc.symm]

/-- An interpreter line stays one in front of another text behind the gap. -/
lemma interpreterLine_gap_append (hgap : Gap .space false g fresh) (ht : IsToken t)
    (hline : State.interpreterLine (line ++ (g ++ t)) = line) (hu : IsSound u) :
    State.interpreterLine (line ++ (g ++ u)) = line := by
  rw [State.interpreterLine] at hline ⊢
  cases line with
  | nil =>
      rw [List.nil_append, not_startsWith_gap_append hgap hu]
      rfl
  | cons a line =>
      split_ifs at hline with hstarts
      have hruns := runs_takeWhile (!isLineEnd ·) (a :: line ++ (g ++ t))
      have hdrop :=
        List.takeWhile_append_dropWhile (p := (!isLineEnd ·)) (l := a :: line ++ (g ++ t))
      rw [hline] at hruns hdrop
      rw [List.append_cancel_left hdrop] at hruns
      -- The line is followed by a line end, which belongs to the gap.
      cases g with
      | nil =>
          obtain ⟨c, t, rfl⟩ := List.exists_cons_of_ne_nil (l := t) (by
            rintro rfl
            exact ht)
          have hend := hruns.stops c rfl
          rw [ht.1] at hend
          cases hend
      | cons c g =>
          have hend : isLineEnd c = true := by simpa using hruns.stops c rfl
          obtain ⟨r, htext⟩ := List.isPrefixOf_iff_prefix.mp hstarts
          obtain ⟨rfl, hr⟩ := List.cons.inj htext
          cases line with
          | nil =>
              obtain ⟨rfl, -⟩ := List.cons.inj hr
              cases hend
          | cons b line =>
              obtain ⟨rfl, -⟩ := List.cons.inj hr
              rw [if_pos (by simp [startsWith, List.isPrefixOf]), List.cons_append]
              exact (runs_cons hruns.all (by simp [hend])).takeWhile_eq

/-! ### Pieces -/

/-- A statement with offsets from its head on, its text, and the gap behind it. -/
structure Piece where
  tree : Tree
  text : Text
  gap : Text

namespace Piece

/-- Whether the statement is an import declaration. -/
def isImport (q : Piece) : Bool := (ImportDeclaration.ofTree? q.tree).isSome

/-- A piece is read in front of a text that begins with a token. -/
structure Stands (q : Piece) (behind : Text) : Prop where
  statement : Program.statement? (q.text ++ (q.gap ++ behind)) = some (q.tree, behind)
  span : q.tree.span = ⟨0, byteLength q.text⟩
  ne_nil : q.text ≠ []
  fromToken : fromToken (q.gap ++ behind) = behind
  sound : IsSound (q.gap ++ behind)

end Piece

variable {q : Piece} {qs rs : List Piece}

/-- The text of some pieces. -/
def whole (qs : List Piece) : Text := qs.flatMap fun q => q.text ++ q.gap

/-- The text of some pieces without the texts of imports. -/
def left (qs : List Piece) : Text :=
  qs.flatMap fun q => if q.isImport then q.gap else q.text ++ q.gap

@[simp] lemma whole_nil : whole [] = [] := rfl

@[simp] lemma left_nil : left [] = [] := rfl

lemma whole_cons (q : Piece) (qs : List Piece) :
    whole (q :: qs) = q.text ++ (q.gap ++ whole qs) := by
  rw [whole, List.flatMap_cons, List.append_assoc]
  rfl

/-- Of an import the gap behind it is left. -/
lemma left_cons_import (h : q.isImport = true) : left (q :: qs) = q.gap ++ left qs := by
  rw [left, List.flatMap_cons, if_pos h]
  rfl

/-- Any other piece is left as it is. -/
lemma left_cons_other (h : q.isImport = false) : left (q :: qs) = q.text ++ (q.gap ++ left qs) := by
  rw [left, List.flatMap_cons, if_neg (by simp [h]), List.append_assoc]
  rfl

lemma whole_append (ps qs : List Piece) : whole (ps ++ qs) = whole ps ++ whole qs :=
  List.flatMap_append

lemma left_append (ps qs : List Piece) : left (ps ++ qs) = left ps ++ left qs :=
  List.flatMap_append

/-- Without imports all is left. -/
lemma left_eq_whole (h : ∀ q ∈ qs, q.isImport = false) : left qs = whole qs :=
  List.flatMap_congr fun q hq => by rw [if_neg (by simp [h q hq])]

/-- Pieces are read one behind the other. -/
inductive Row : List Piece → Prop
  | nil : Row []
  | cons {q : Piece} {qs : List Piece} (h : q.Stands (whole qs)) (hqs : Row qs) : Row (q :: qs)

/-- A row that has pieces is not empty. -/
lemma Row.whole_ne_nil (h : Row qs) (hne : qs ≠ []) : whole qs ≠ [] := by
  cases h with
  | nil => exact absurd rfl hne
  | cons hq _ =>
      rw [whole_cons]
      exact List.append_ne_nil_of_left_ne_nil hq.ne_nil _

/-- A statement has the span of its text, which is not empty. -/
def Piece.Fits (q : Piece) : Prop := q.tree.span = ⟨0, byteLength q.text⟩ ∧ q.text ≠ []

/-- The pieces of a row fit. -/
lemma Row.fits (h : Row qs) : ∀ q ∈ qs, q.Fits := by
  induction h with
  | nil => nofun
  | cons hq _ ih => exact List.forall_mem_cons.mpr ⟨⟨hq.span, hq.ne_nil⟩, ih⟩

/-- The trees of some pieces that begin at an offset. -/
def place (k : Nat) : List Piece → List Tree
  | [] => []
  | q :: qs => q.tree.shift k :: place (k + byteLength (q.text ++ q.gap)) qs

lemma place_cons (k : Nat) (q : Piece) (qs : List Piece) :
    place k (q :: qs) = q.tree.shift k :: place (k + byteLength (q.text ++ q.gap)) qs := rfl

/-- Pieces are placed in two parts. -/
lemma place_append (k : Nat) (ps qs : List Piece) :
    place k (ps ++ qs) = place k ps ++ place (k + byteLength (whole ps)) qs := by
  induction ps generalizing k with
  | nil => rfl
  | cons q ps ih =>
      rw [List.cons_append, place, place, ih, List.cons_append, whole_cons,
        ← List.append_assoc q.text, byteLength_append _ (whole ps), Nat.add_assoc]

/-- Each piece is placed somewhere. -/
lemma exists_mem_place (hq : q ∈ qs) (k : Nat) : ∃ j, q.tree.shift j ∈ place k qs := by
  induction qs generalizing k with
  | nil => cases hq
  | cons r qs ih =>
      rw [place_cons]
      rcases List.mem_cons.mp hq with rfl | hq
      · exact ⟨k, List.mem_cons_self⟩
      · obtain ⟨j, hj⟩ := ih hq _
        exact ⟨j, List.mem_cons_of_mem _ hj⟩

namespace Program

/-- A statement that leaves the text as it was would be read for ever. -/
lemma Reads.false_of_stuck {xs : List (Text × Tree)} (h : Reads t xs []) (ht : t ≠ [])
    (hx : statement? t = some (x, t)) : False := by
  generalize hv : ([] : Text) = v at h
  induction h with
  | nil => exact ht hv.symm
  | cons _ hy _ ih =>
      cases hx.symm.trans hy
      exact ih ht hx hv

/-- Statements are a row of pieces. -/
lemma Reads.exists_row {xs : List (Text × Tree)} (h : Reads t xs []) (ht : fromToken t = t) :
    ∃ qs, Row qs ∧ t = whole qs ∧
      ∀ k, xs.map (fun y => y.2.shift (k + byteLength t - byteLength y.1)) = place k qs := by
  generalize hv : ([] : Text) = v at h
  induction h with
  | nil => exact ⟨[], .nil, hv.symm, fun _ => rfl⟩
  | @cons t u v x xs hne hx hxs ih =>
      subst hv
      obtain ⟨w, e, rfl, hspan, hsound, rfl⟩ := exists_statement? hx
      obtain ⟨qs, hqs, hwhole, hplace⟩ := ih (fromToken_fromToken e) rfl
      obtain ⟨g, hg⟩ := fromToken_suffix e
      rw [gapLength_eq_zero_iff.mpr ht] at hspan
      -- A statement that passes nothing would be read again and again.
      have hstuck : w ≠ [] := by
        rintro rfl
        rw [List.nil_append] at ht hx hne
        rw [ht] at hx hxs
        exact hxs.false_of_stuck hne hx
      refine ⟨⟨x, w, g⟩ :: qs, .cons ⟨?_, hspan, hstuck, ?_, ?_⟩ hqs, ?_, fun k => ?_⟩
      · rw [← hwhole, hg]
        exact hx
      · rw [← hwhole, hg]
      · rw [← hwhole, hg]
        exact hsound
      · rw [whole_cons, ← hwhole, hg]
      · have hsize := congrArg byteLength hg
        rw [byteLength_append] at hsize
        rw [List.map_cons, place, Nat.add_sub_cancel, ← hplace]
        simp only [byteLength_append, ← hsize, Nat.add_assoc]

variable {source : Text} {p : Program}

/-- A script is a front with pieces behind it. The front may hold an interpreter line, and stays
in front of any text that is read. -/
structure IsRow (p : Program) (source pre : Text) (qs : List Piece) : Prop where
  text : source = pre ++ whole qs
  row : Row qs
  body : p.body = place (byteLength pre) qs
  front : qs ≠ [] → ∀ u, IsSound u → fromToken (State.behindLine (pre ++ u)) = fromToken u ∧
    IsSound (State.behindLine (pre ++ u))

/-- A script is a row of pieces behind what stands in front of its first token. -/
theorem exists_row (hp : parse? source = some p) : ∃ pre qs, p.IsRow source pre qs := by
  obtain ⟨hsound, xs, hxs, -, hbody⟩ := parse?_eq_some_iff.mp hp
  obtain ⟨qs, hqs, hwhole, hplace⟩ := hxs.exists_row (fromToken_fromToken _)
  obtain ⟨g, hg⟩ := fromToken_suffix (State.behindLine source)
  have hsource : source = State.interpreterLine source ++ (g ++ whole qs) := by
    rw [← hwhole, hg, State.line_append]
  refine ⟨State.interpreterLine source ++ g, qs, by rw [List.append_assoc, ← hsource], hqs, ?_,
    fun hne u hu => ?_⟩
  · have hsize := congrArg byteLength hsource
    simp only [byteLength_append] at hsize
    rw [hbody, ← hplace, hwhole, byteLength_append, Nat.add_assoc, ← hsize]
  · obtain ⟨g', hg', hgap, htoken⟩ := exists_fromToken (hwhole ▸ hqs.whole_ne_nil hne)
    obtain rfl := List.append_cancel_right (hg.trans hg')
    have hfront : State.interpreterLine (State.interpreterLine source ++ (g ++ u))
        = State.interpreterLine source := by
      refine interpreterLine_gap_append hgap htoken ?_ hu
      rw [hwhole, ← hsource]
    rw [List.append_assoc, State.behindLine_eq hfront]
    exact ⟨(fromToken_gap_append hgap u).1, (fromToken_gap_append hgap u).2.mpr hu⟩

end Program

/-! ### Imports cut out -/

/-- Each piece that is no import is read in front of what is left behind it. -/
def Alone : List Piece → Prop
  | [] => True
  | q :: qs => (q.isImport = false →
      ∃ v, Program.statement? (q.text ++ (q.gap ++ left qs)) = some (q.tree, v)) ∧ Alone qs

/-- The trees of what is left of some pieces, from an offset on. -/
def placeLeft (k : Nat) : List Piece → List Tree
  | [] => []
  | q :: qs => if q.isImport then placeLeft (k + byteLength q.gap) qs
      else q.tree.shift k :: placeLeft (k + byteLength (q.text ++ q.gap)) qs

/-- A gap stays one in front of what is left. -/
lemma Row.gap_left (h : Row (q :: qs)) : fromToken (q.gap ++ left qs) = fromToken (left qs) ∧
    (IsSound (left qs) → IsSound (q.gap ++ left qs)) := by
  cases h with
  | cons hq hqs =>
      by_cases hne : qs = []
      · subst hne
        exact ⟨hq.fromToken, fun _ => hq.sound⟩
      · have hgap := hq.fromToken
        obtain ⟨g, hg, hg', -⟩ := exists_fromToken (hgap.symm ▸ hqs.whole_ne_nil hne)
        rw [hgap] at hg
        obtain rfl := List.append_cancel_right hg
        exact ⟨(fromToken_gap_append hg' _).1, (fromToken_gap_append hg' _).2.mpr⟩

/-- What is left of pieces is read piece by piece. -/
lemma Row.exists_reads_left (h : Row qs) (halone : Alone qs) : IsSound (left qs) ∧
    ∃ xs, Program.Reads (fromToken (left qs)) xs [] ∧ xs.length ≤ (left qs).length ∧
      ∀ k, xs.map (fun y => y.2.shift (k + byteLength (left qs) - byteLength y.1))
        = placeLeft k qs := by
  induction h with
  | nil => exact ⟨⟨rfl, by decide⟩, [], .nil, Nat.le_refl _, fun _ => rfl⟩
  | @cons q qs hq hqs ih =>
      obtain ⟨hsound, xs, hxs, hlength, hplace⟩ := ih halone.2
      obtain ⟨hfrom, hgap⟩ := (Row.cons hq hqs).gap_left
      cases himport : q.isImport with
      | true =>
          rw [left_cons_import himport]
          refine ⟨hgap hsound, xs, hfrom ▸ hxs, ?_, fun k => ?_⟩
          · rw [List.length_append]
            omega
          · rw [placeLeft, if_pos himport, ← hplace, byteLength_append]
            simp only [Nat.add_assoc]
      | false =>
          -- The statement is read in front of what is left behind it, and with the same text.
          obtain ⟨v, hv⟩ := halone.1 himport
          obtain ⟨w, e, htext, hspan, -, rfl⟩ := Program.exists_statement? hv
          rw [hq.span] at hspan
          obtain ⟨hstart, hstop⟩ := Span.mk.inj hspan
          obtain ⟨rfl, rfl⟩ := append_inj_of_byteLength htext hstop
          have hself := gapLength_eq_zero_iff.mp hstart.symm
          rw [hfrom] at hv
          rw [left_cons_other himport, hself]
          refine ⟨Program.isSound_of_statement? hv, _, .cons ?_ hv hxs, ?_, fun k => ?_⟩
          · exact List.append_ne_nil_of_left_ne_nil hq.ne_nil _
          · have hpos := List.length_pos_iff.mpr hq.ne_nil
            simp only [List.length_cons, List.length_append]
            omega
          · rw [placeLeft, if_neg (by simp [himport]), List.map_cons, Nat.add_sub_cancel, ← hplace]
            simp only [byteLength_append, Nat.add_assoc]

/-- Where the trees of a script stand as those of what is left do, each piece is read alone. -/
lemma Row.alone_of_left {a b : Text} (hqs : Row qs) (hrs : Row rs)
    (htext : a ++ left qs = b ++ whole rs)
    (htrees : place (byteLength b) rs = placeLeft (byteLength a) qs) : Alone qs := by
  induction hqs generalizing a b rs with
  | nil => exact trivial
  | @cons q qs hq _ ih =>
      cases himport : q.isImport with
      | true =>
          rw [left_cons_import himport, ← List.append_assoc] at htext
          rw [placeLeft, if_pos himport, ← byteLength_append] at htrees
          exact ⟨fun h => absurd (himport.symm.trans h) (by simp), ih hrs htext htrees⟩
      | false =>
          rw [placeLeft, if_neg (by simp [himport])] at htrees
          cases hrs with
          | nil => cases htrees
          | @cons r rs hr hrs =>
              obtain ⟨htree, htrees⟩ := List.cons.inj htrees
              have hspan := congrArg Tree.span htree
              rw [Tree.span_shift, Tree.span_shift, hq.span, hr.span] at hspan
              -- The trees are the same, so the pieces have the same places and sizes; then their
              -- texts are the same.
              obtain ⟨hstart, hstop⟩ := Span.mk.inj hspan
              simp only [Nat.add_zero] at hstart hstop
              obtain ⟨rfl, hrest⟩ := append_inj_of_byteLength htext hstart.symm
              rw [left_cons_other himport, whole_cons] at hrest
              obtain ⟨hsame, hrest⟩ := append_inj_of_byteLength hrest (by omega)
              have hread := hr.statement
              rw [← hrest, ← hsame, Tree.shift_inj htree] at hread
              refine ⟨fun _ => ⟨_, hread⟩, ih (a := a ++ (q.text ++ q.gap))
                (b := a ++ (r.text ++ r.gap)) hrs ?_ ?_⟩
              · simp only [List.append_assoc]
                rw [hrest, hsame]
              · rwa [byteLength_append a, byteLength_append a]

namespace Program

variable {source pre : Text} {p : Program}

/-- **What is left of a script** without the texts of its imports is a script of the other
statements, each where its text stands, if and only if each of them is read in front of what is
left behind it. -/
theorem IsRow.parse?_left_iff (h : p.IsRow source pre qs) (hp : parse? source = some p) :
    parse? (pre ++ left qs) = some ⟨placeLeft (byteLength pre) qs⟩ ↔ Alone qs := by
  by_cases hne : qs = []
  · subst hne
    have htext := h.text
    rw [whole_nil] at htext
    rw [left_nil, ← htext, hp]
    exact iff_of_true (congrArg (fun ts => some (Program.mk ts)) h.body) trivial
  constructor
  · intro hleft
    obtain ⟨front, rs, hrow⟩ := exists_row hleft
    exact h.row.alone_of_left hrow.row hrow.text hrow.body.symm
  · intro halone
    obtain ⟨hsound, xs, hxs, hlength, hplace⟩ := h.row.exists_reads_left halone
    obtain ⟨hfrom, hsound'⟩ := h.front hne _ hsound
    refine parse?_eq_some_iff.mpr ⟨hsound', xs, hfrom ▸ hxs, ?_, ?_⟩
    · rw [List.length_append]
      omega
    · rw [byteLength_append, hplace]

end Program

end ComponentMigration.Script
