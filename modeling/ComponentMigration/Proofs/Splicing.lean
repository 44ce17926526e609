import ComponentMigration.Proofs.Patch

/-!
Splicing from the right.

* **Splices.** `Edit.splice?` replaces the span of one edit in a text. Edits that stand
  `InLine`, one behind the other, can be spliced one by one from the right: no splice moves a
  span that is still to come (`splices?_reverse`).
* **Gaps.** What is filled is the text between the spans, woven with the texts of the edits;
  the source is the same text woven with what stands in the spans.
* **Recordings.** Sorting keeps the order of edits with one span, so two recordings that agree
  on each span are sorted to the same list (`Agrees.ordered_eq`).
* **Main statement.** `apply_eq_splices`: the result of a patch is its edits spliced from the
  right, keeps every character outside all spans, once and in order, and does not depend on the
  order of edits with different spans.
-/

namespace ComponentMigration

/-! ### Splices -/

/-- The text with the span of an edit replaced. -/
def Edit.splice? (e : Edit) (t : Text) : Option Text :=
  if e.stop < e.start then none
  else (t.takeBytes? e.start).bind fun before =>
    (t.dropBytes? e.stop).map fun behind => before ++ e.text ++ behind

/-- The text with edits spliced in one by one. -/
def splices? (t : Text) (es : List Edit) : Option Text := es.foldlM (fun t e => e.splice? t) t

/-- Edits that fit the source and stand one behind the other, from a boundary on. -/
inductive InLine (source : Text) : Nat → List Edit → Prop
  | nil {a : Nat} (ha : source.IsBoundary a) : InLine source a []
  | cons {a : Nat} {e : Edit} {es : List Edit} (ha : source.IsBoundary a) (hae : a ≤ e.start)
      (he : e.Fits source) (hes : InLine source e.stop es) : InLine source a (e :: es)

section Splices

variable {source : Text} {a z : Nat} {es : List Edit}

/-- Edits in line begin at a boundary. -/
lemma InLine.isBoundary (h : InLine source a es) : source.IsBoundary a := by
  cases h with
  | nil ha => exact ha
  | cons ha _ _ _ => exact ha

/-- Edits in line begin behind the boundary. -/
lemma InLine.le_start (h : InLine source a es) : ∀ e ∈ es, a ≤ e.start := by
  induction h with
  | nil _ => exact fun e he => absurd he List.not_mem_nil
  | cons _ hae he _ ih =>
      refine List.forall_mem_cons.mpr ⟨hae, fun f hf => ?_⟩
      exact Nat.le_trans hae (Nat.le_trans he.le (ih f hf))

/-- A splice between the text in front of a span and the text behind it. -/
lemma Edit.splice?_append {e : Edit} {before removed behind : Text}
    (hstart : Text.byteLength before = e.start)
    (hstop : Text.byteLength before + Text.byteLength removed = e.stop) :
    e.splice? (before ++ removed ++ behind) = some (before ++ e.text ++ behind) := by
  have htake : (before ++ removed ++ behind).takeBytes? e.start = some before :=
    Text.takeBytes?_eq_some_iff.mpr ⟨removed ++ behind, List.append_assoc _ _ _, hstart⟩
  have hdrop : (before ++ removed ++ behind).dropBytes? e.stop = some behind :=
    Text.dropBytes?_eq_some_iff.mpr
      ⟨before ++ removed, rfl, by rw [Text.byteLength_append, hstop]⟩
  rw [splice?, if_neg (by omega), htake, hdrop]
  rfl

/-- A piece between two boundaries has the bytes between them. -/
lemma Text.byteLength_cut (ha : source.IsBoundary a) (hz : source.IsBoundary z) (haz : a ≤ z) :
    Text.byteLength (source.cut a z) = z - a := by
  obtain ⟨p, m, r, rfl, rfl, rfl⟩ := ha.exists_append hz haz
  rw [Text.cut_append, Nat.add_sub_cancel_left]

/-- A piece that is cut out lies between two boundaries. -/
lemma Text.isBoundary_of_slice? {kept : Text} (haz : a ≤ z) (h : source.slice? a z = some kept) :
    source.IsBoundary a ∧ source.IsBoundary z := by
  obtain ⟨rest, hdrop, htake⟩ := Option.bind_eq_some_iff.mp h
  obtain ⟨before, rfl, rfl⟩ := Text.dropBytes?_eq_some_iff.mp hdrop
  obtain ⟨behind, rfl, hkept⟩ := Text.takeBytes?_eq_some_iff.mp htake
  refine ⟨Text.isBoundary_iff.mpr ⟨before, _, rfl, rfl⟩, Text.isBoundary_iff.mpr
    ⟨before ++ kept, behind, (List.append_assoc _ _ _).symm, ?_⟩⟩
  rw [Text.byteLength_append]
  omega

/-- The source up to the end of a span, in two pieces. -/
lemma cut_append_cut_of_fits {e : Edit} (ha : source.IsBoundary a) (hae : a ≤ e.start)
    (he : e.Fits source) : source.cut a e.start ++ source.cut e.start e.stop
      = source.cut a e.stop :=
  Text.cut_append_cut ha he.start he.stop hae he.le

/-- Edits in line are spliced from the right to what is filled. -/
lemma splices?_reverse (h : InLine source a es) : splices? source es.reverse
    = some (source.cut 0 a ++ filled source a source.byteLength es) := by
  have hzero := Text.isBoundary_zero source
  induction h with
  | nil ha =>
      have hall := Text.cut_append_cut hzero ha (Text.isBoundary_byteLength source)
        (Nat.zero_le _) ha.le_byteLength
      rw [filled, hall, Text.cut_all]
      rfl
  | @cons a e es ha hae he hes ih =>
      have hfront := cut_append_cut_of_fits hzero (Nat.zero_le _) he
      have hbefore := Text.cut_append_cut hzero ha he.start (Nat.zero_le _) hae
      have hstart := Text.byteLength_cut hzero he.start (Nat.zero_le _)
      have hspan := Text.byteLength_cut he.start he.stop he.le
      have hle := he.le
      -- the edits behind `e` have left the text up to its end as it was
      have hsplice : e.splice? (source.cut 0 e.start ++ source.cut e.start e.stop
          ++ filled source e.stop source.byteLength es)
          = some (source.cut 0 e.start ++ e.text ++ filled source e.stop source.byteLength es) :=
        Edit.splice?_append (by omega) (by omega)
      calc splices? source (e :: es).reverse
          = (splices? source es.reverse).bind e.splice? := by
            rw [List.reverse_cons, splices?, List.foldlM_append]
            exact congrArg _ (funext fun t => by simp)
        _ = some (source.cut 0 e.start ++ e.text ++ filled source e.stop source.byteLength es) := by
            rw [ih, Option.bind_some, ← hfront, hsplice]
        _ = some (source.cut 0 a ++ filled source a source.byteLength (e :: es)) := by
            rw [← hbefore, filled]
            simp only [List.append_assoc]

end Splices

/-! ### Gaps -/

/-- Texts, each in front of one of others, and what is left of either. -/
def weave : List Text → List Text → Text
  | [], ts => ts.flatten
  | k :: ks, [] => k ++ ks.flatten
  | k :: ks, t :: ts => k ++ t ++ weave ks ts

/-- The characters of a text that begin at bytes which pass a test, the first of them at
byte `n`. -/
def Text.charactersAt (q : Nat → Bool) : Nat → Text → Text
  | _, [] => []
  | n, c :: t =>
      if q n then c :: charactersAt q (n + c.utf8Size) t else charactersAt q (n + c.utf8Size) t

/-- Whether a byte is outside the spans of all edits. -/
def isOutside (es : List Edit) (n : Nat) : Bool := es.all fun e => n < e.start || e.stop ≤ n

/-- The source without what stands in the spans of edits. -/
def Text.outside (source : Text) (es : List Edit) : Text := source.charactersAt (isOutside es) 0

/-- The source from a byte on, without the spans of edits in line: the text in front of each
span, and the text behind the last. -/
def gaps (source : Text) (start : Nat) : List Edit → List Text
  | [] => [source.cut start source.byteLength]
  | e :: es => source.cut start e.start :: gaps source e.stop es

section Gaps

variable {source : Text} {a n : Nat} {q r : Nat → Bool} {es : List Edit}

/-- There is one gap more than there are edits. -/
lemma length_gaps (es : List Edit) : (gaps source a es).length = es.length + 1 := by
  induction es generalizing a with
  | nil => rfl
  | cons e es ih => rw [gaps, List.length_cons, ih, List.length_cons]

/-- What is filled is the gaps with the texts of the edits. -/
lemma filled_eq_weave (es : List Edit) :
    filled source a source.byteLength es = weave (gaps source a es) (es.map (·.text)) := by
  induction es generalizing a with
  | nil => rw [filled, gaps, List.map_nil, weave, List.flatten_nil, List.append_nil]
  | cons e es ih => rw [filled, gaps, List.map_cons, weave, ih]

/-- The source is the gaps with what stands in the spans. -/
lemma cut_eq_weave (h : InLine source a es) : source.cut a source.byteLength
    = weave (gaps source a es) (es.map fun e => source.cut e.start e.stop) := by
  induction h with
  | nil _ => rw [gaps, List.map_nil, weave, List.flatten_nil, List.append_nil]
  | @cons a e es ha hae he hes ih =>
      have hle := Nat.le_trans hae he.le
      rw [gaps, List.map_cons, weave, ← ih, cut_append_cut_of_fits ha hae he,
        Text.cut_append_cut ha he.stop (Text.isBoundary_byteLength source) hle
          he.stop.le_byteLength]

/-- Characters are picked from two texts by their offsets in both together. -/
lemma Text.charactersAt_append (t u : Text) : (t ++ u).charactersAt q n
    = t.charactersAt q n ++ u.charactersAt q (n + Text.byteLength t) := by
  induction t generalizing n with
  | nil => rfl
  | cons c t ih =>
      rw [List.cons_append, charactersAt, charactersAt, ih, byteLength_cons, Nat.add_assoc]
      split_ifs <;> rfl

/-- The test matters at the bytes of the text only. -/
lemma Text.charactersAt_congr {t : Text}
    (h : ∀ m, n ≤ m → m < n + Text.byteLength t → q m = r m) :
    t.charactersAt q n = t.charactersAt r n := by
  induction t generalizing n with
  | nil => rfl
  | cons c t ih =>
      have hpos := c.utf8Size_pos
      rw [byteLength_cons] at h
      rw [charactersAt, charactersAt, h n (Nat.le_refl n) (by omega),
        ih fun m hm hm' => h m (by omega) (by omega)]

/-- All characters are the text. -/
lemma Text.charactersAt_true (t : Text) : t.charactersAt (fun _ => true) n = t := by
  induction t generalizing n with
  | nil => rfl
  | cons c t ih => rw [charactersAt, if_pos rfl, ih]

/-- Of no characters nothing is left. -/
lemma Text.charactersAt_false (t : Text) : t.charactersAt (fun _ => false) n = [] := by
  induction t generalizing n with
  | nil => rfl
  | cons c t ih => rw [charactersAt, if_neg Bool.false_ne_true, ih]

lemma isOutside_cons (e : Edit) (es : List Edit) (m : Nat) :
    isOutside (e :: es) m = ((decide (m < e.start) || decide (e.stop ≤ m)) && isOutside es m) := rfl

/-- In front of edits a byte is outside. -/
lemma isOutside_of_lt {m : Nat} (h : ∀ e ∈ es, m < e.start) : isOutside es m = true :=
  List.all_eq_true.mpr fun e he => by simp [h e he]

/-- The gaps hold what stands outside all spans. -/
lemma flatten_gaps (h : InLine source a es) : (gaps source a es).flatten
    = (source.cut a source.byteLength).charactersAt (isOutside es) a := by
  induction h with
  | nil _ =>
      have hall : isOutside [] = fun _ => true := rfl
      rw [gaps, List.flatten_singleton, hall, Text.charactersAt_true]
  | @cons a e es ha hae he hes ih =>
      have hle := he.le
      have hstart := Text.byteLength_cut ha he.start hae
      have hstop := Text.byteLength_cut he.start he.stop he.le
      -- The text from the first offset on is the gap, the span of the edit, and the rest.
      have hsource : source.cut a source.byteLength
          = source.cut a e.start ++ (source.cut e.start e.stop
            ++ source.cut e.stop source.byteLength) := by
        rw [Text.cut_append_cut he.start he.stop (Text.isBoundary_byteLength source) he.le
          he.stop.le_byteLength, Text.cut_append_cut ha he.start
          (Text.isBoundary_byteLength source) hae he.start.le_byteLength]
      -- The gap is outside of all spans, since they begin behind it.
      have hfront : (source.cut a e.start).charactersAt (isOutside (e :: es)) a
          = source.cut a e.start := by
        refine (Text.charactersAt_congr fun m _ hm => ?_).trans (Text.charactersAt_true (n := a) _)
        refine isOutside_of_lt (List.forall_mem_cons.mpr ⟨by omega, fun f hf => ?_⟩)
        have := hes.le_start f hf
        omega
      -- The span of the edit is left out,
      have hspan : (source.cut e.start e.stop).charactersAt (isOutside (e :: es)) e.start = [] := by
        refine (Text.charactersAt_congr fun m hm hm' => ?_).trans
          (Text.charactersAt_false (n := e.start) _)
        rw [isOutside_cons, decide_eq_false (by omega), decide_eq_false (by omega)]
        rfl
      -- and behind it only the other spans matter.
      have hbehind : (source.cut e.stop source.byteLength).charactersAt (isOutside (e :: es)) e.stop
          = (source.cut e.stop source.byteLength).charactersAt (isOutside es) e.stop := by
        refine Text.charactersAt_congr fun m hm _ => ?_
        rw [isOutside_cons, decide_eq_true hm, Bool.or_true, Bool.true_and]
      have hoffset : a + Text.byteLength (source.cut a e.start) = e.start := by omega
      have hoffset' : e.start + Text.byteLength (source.cut e.start e.stop) = e.stop := by omega
      rw [hsource, Text.charactersAt_append, Text.charactersAt_append, hoffset, hoffset', hfront,
        hspan, hbehind, ← ih, gaps, List.flatten_cons, List.nil_append]

end Gaps

/-! ### Recordings -/

/-- Sorting keeps the order of elements that are all equal in the order. -/
lemma filter_mergeSort {α : Type} {le : α → α → Bool}
    (htrans : ∀ a b c, le a b → le b c → le a c) (htotal : ∀ a b, le a b || le b a)
    {r : α → Bool} (hr : ∀ a b, r a → r b → le a b) (l : List α) :
    (l.mergeSort le).filter r = l.filter r := by
  have hsorted : (l.filter r).Pairwise fun a b => le a b = true := by
    rw [List.pairwise_filter]
    exact List.pairwise_of_forall fun a b ha hb => hr a b ha hb
  have hsublist := (List.sublist_mergeSort htrans htotal hsorted List.filter_sublist).filter r
  simp only [List.filter_filter, Bool.and_self] at hsublist
  exact (hsublist.eq_of_length ((List.mergeSort_perm l le).filter r).length_eq.symm).symm

/-- Two sorted lists are the same if they list the same elements of every key. -/
lemma eq_of_filter_eq {α κ : Type} [BEq κ] [LawfulBEq κ] (key : α → κ) {le : α → α → Bool}
    (hkey : ∀ a b, le a b → le b a → key a = key b) {l l' : List α}
    (hl : l.Pairwise fun a b => le a b = true) (hl' : l'.Pairwise fun a b => le a b = true)
    (h : ∀ k, l.filter (key · == k) = l'.filter (key · == k)) : l = l' := by
  induction l generalizing l' with
  | nil =>
      cases l' with
      | nil => rfl
      | cons b l' => simpa using h (key b)
  | cons a l ih =>
      cases l' with
      | nil => simpa using h (key a)
      | cons b l' =>
          have ha : a ∈ b :: l' := List.mem_of_mem_filter (p := (key · == key a)) (by simp [← h])
          have hb : b ∈ a :: l := List.mem_of_mem_filter (p := (key · == key b)) (by simp [h])
          rw [List.pairwise_cons] at hl hl'
          have hab : key a = key b := by
            rcases List.mem_cons.mp ha with rfl | ha
            · rfl
            rcases List.mem_cons.mp hb with rfl | hb
            · rfl
            exact hkey a b (hl.1 b hb) (hl'.1 a ha)
          -- the first elements have one key, and are the first ones of it
          have hheads := h (key a)
          rw [List.filter_cons_of_pos (by simp), List.filter_cons_of_pos (by simp [hab])] at hheads
          obtain rfl := (List.cons.inj hheads).1
          refine congrArg (a :: ·) (ih hl.2 hl'.2 fun k => ?_)
          have hk := h k
          rw [List.filter_cons, List.filter_cons] at hk
          split_ifs at hk
          · exact (List.cons.inj hk).2
          · exact hk

namespace Edit

/-- An edit with the number of its recording comes behind another one: by start, then by end,
then by recording. -/
def IsBehind (a b : Edit × Nat) : Prop :=
  b.1.start < a.1.start ∨ b.1.start = a.1.start ∧
    (b.1.stop < a.1.stop ∨ b.1.stop = a.1.stop ∧ b.2 < a.2)

instance (a b : Edit × Nat) : Decidable (IsBehind a b) :=
  inferInstanceAs (Decidable (_ ∨ _))

/-- The two ends of an edit. -/
def ends (e : Edit) : Nat × Nat := (e.start, e.stop)

/-- Edits with the same ends are in order either way. -/
lemma le_of_ends_eq {e f : Edit} (h : e.ends = f.ends) : le e f = true := by
  obtain ⟨hstart, hstop⟩ := Prod.mk.inj h
  rw [le_iff]
  omega

/-- Edits in order either way have the same ends. -/
lemma ends_eq_of_le {e f : Edit} (h : le e f = true) (h' : le f e = true) : e.ends = f.ends := by
  rw [le_iff] at h h'
  exact Prod.ext (by dsimp only [ends]; omega) (by dsimp only [ends]; omega)

/-- An edit comes behind another one if sorting puts it there and their numbers differ. -/
lemma isBehind_of_zipIdxLE {a b : Edit × Nat} (h : List.zipIdxLE le a b = true) (hne : a.2 ≠ b.2) :
    IsBehind b a := by
  rw [List.zipIdxLE] at h
  rw [IsBehind]
  split_ifs at h with hab hba
  · rw [le_iff] at hab hba
    rw [decide_eq_true_eq] at h
    omega
  · rw [le_iff] at hab hba
    omega

end Edit

/-- The recorded edits, the last one in the order of application first. -/
def Patch.descending (p : Patch) : List (Edit × Nat) :=
  (p.edits.zipIdx.mergeSort (List.zipIdxLE Edit.le)).reverse

namespace Patch

variable {source out : Text} {p : Patch}

/-- There is one order of the recorded edits in which each comes behind the next. -/
lemma eq_descending_iff (qs : List (Edit × Nat)) :
    qs = p.descending ↔ qs.Perm p.edits.zipIdx ∧ qs.Pairwise Edit.IsBehind := by
  have hperm := List.mergeSort_perm p.edits.zipIdx (List.zipIdxLE Edit.le)
  have hbehind : p.descending.Pairwise Edit.IsBehind := by
    have hsorted := List.pairwise_mergeSort (List.zipIdxLE_trans Edit.le_trans)
      (List.zipIdxLE_total Edit.le_total) p.edits.zipIdx
    -- The numbers of the edits are different, so the order has no ties.
    have hnumbers : (p.edits.zipIdx.map (·.2)).Nodup := by
      rw [List.zipIdx_map_snd]
      exact List.nodup_range'
    rw [List.Nodup, List.pairwise_map] at hnumbers
    have hnumbers := (hperm.pairwise_iff fun h => Ne.symm h).mpr hnumbers
    rw [descending, List.pairwise_reverse]
    exact (hsorted.and hnumbers).imp fun h => Edit.isBehind_of_zipIdxLE h.1 h.2
  constructor
  · rintro rfl
    exact ⟨(List.reverse_perm _).trans hperm, hbehind⟩
  · rintro ⟨hqs, hpairwise⟩
    refine List.Perm.eq_of_pairwise (fun a b _ _ h h' => ?_) hpairwise hbehind
      (hqs.trans (hperm.symm.trans (List.reverse_perm _).symm))
    rw [Edit.IsBehind] at h h'
    omega

/-- Without their numbers they are the edits in the order of application, turned around. -/
lemma map_descending (p : Patch) : p.descending.map (·.1) = p.ordered.reverse := by
  rw [descending, List.map_reverse, List.mergeSort_zipIdx, ordered]

/-- Two recordings have the edits of each span of the second in the same order. -/
def Agrees (q p : Patch) : Prop :=
  ∀ e ∈ p.edits, q.edits.filter (·.ends == e.ends) = p.edits.filter (·.ends == e.ends)

instance (q p : Patch) : Decidable (q.Agrees p) :=
  inferInstanceAs (Decidable (∀ e ∈ p.edits, _))

/-- Recordings of the same edits that agree have the same edits of any two ends. -/
lemma Agrees.filter_eq {q : Patch} (h : q.Agrees p) (hperm : q.edits.Perm p.edits)
    (ends : Nat × Nat) :
    q.edits.filter (·.ends == ends) = p.edits.filter (·.ends == ends) := by
  by_cases hends : ∃ e ∈ p.edits, e.ends = ends
  · obtain ⟨e, he, rfl⟩ := hends
    exact h e he
  · have hnone : p.edits.filter (·.ends == ends) = [] := by
      rw [List.filter_eq_nil_iff]
      exact fun e he hends' => hends ⟨e, he, beq_iff_eq.mp hends'⟩
    rw [hnone, ← List.perm_nil, ← hnone]
    exact hperm.filter _

/-- Recordings of the same edits that agree are sorted to the same list. -/
lemma Agrees.ordered_eq {q : Patch} (h : q.Agrees p) (hperm : q.edits.Perm p.edits) :
    q.ordered = p.ordered := by
  have hstable : ∀ (p : Patch) (ends : Nat × Nat),
      p.ordered.filter (·.ends == ends) = p.edits.filter (·.ends == ends) := by
    intro p ends
    refine filter_mergeSort Edit.le_trans Edit.le_total (fun e f he hf => ?_) p.edits
    exact Edit.le_of_ends_eq ((beq_iff_eq.mp he).trans (beq_iff_eq.mp hf).symm)
  refine eq_of_filter_eq Edit.ends (fun e f => Edit.ends_eq_of_le)
    (List.pairwise_mergeSort Edit.le_trans Edit.le_total _)
    (List.pairwise_mergeSort Edit.le_trans Edit.le_total _) fun ends => ?_
  calc q.ordered.filter (·.ends == ends)
      = q.edits.filter (·.ends == ends) := hstable q ends
    _ = p.edits.filter (·.ends == ends) := h.filter_eq hperm ends
    _ = p.ordered.filter (·.ends == ends) := (hstable p ends).symm

/-! ### Applying -/

/-- Edits that are applied one behind the other are in line, and the result is what is filled. -/
lemma inLine_of_applyFrom {cursor : Nat} {es : List Edit}
    (h : applyFrom source cursor es = .ok out) :
    InLine source cursor es ∧ out = filled source cursor source.byteLength es := by
  induction es generalizing cursor out with
  | nil =>
      rw [applyFrom] at h
      split at h
      · next rest hrest =>
        obtain ⟨before, hsource, hbefore⟩ := Text.dropBytes?_eq_some_iff.mp hrest
        have hcursor := Text.isBoundary_iff.mpr ⟨before, rest, hsource, hbefore⟩
        rw [Text.dropBytes?_eq_cut hcursor] at hrest
        cases h
        exact ⟨.nil hcursor, (Option.some.inj hrest).symm⟩
      · cases h
  | cons e es ih =>
      rw [applyFrom] at h
      -- An edit that ends in front of its beginning, or begins in front of the cursor, is
      -- refused.
      split_ifs at h with hbad
      split at h
      · cases h
      · next kept hkept =>
        obtain ⟨rest, hrest, hout⟩ := bind_eq_ok.mp h
        obtain ⟨hes, rfl⟩ := ih hrest
        obtain ⟨hcursor, hstart⟩ := Text.isBoundary_of_slice? (by omega) hkept
        rw [Text.slice?_eq_cut hcursor hstart (by omega)] at hkept
        cases hkept
        cases hout
        exact ⟨.cons hcursor (by omega) ⟨by omega, hstart, hes.isBoundary⟩ hes, rfl⟩

/-- **What a patch does**: its result is what comes out if its edits are spliced one by one, the
last in the order of start, end and recording first. The characters outside all spans are kept,
once and in order. Recordings of the same edits in which those with one span stand in the same
order have the same result. -/
theorem apply_eq_splices (h : p.apply source = .ok out) :
    (∃ qs : List (Edit × Nat),
        (∀ rs, rs = qs ↔ rs.Perm p.edits.zipIdx ∧ rs.Pairwise Edit.IsBehind) ∧
          splices? source (qs.map (·.1)) = some out) ∧
      (∃ kept : List Text, kept.length = p.edits.length + 1 ∧
        kept.flatten = source.outside p.edits ∧
          source = weave kept (p.ordered.map fun e => source.cut e.start e.stop) ∧
            out = weave kept (p.ordered.map (·.text))) ∧
      ∀ q : Patch, q.edits.Perm p.edits → q.Agrees p → q.apply source = .ok out := by
  have hperm : p.ordered.Perm p.edits := List.mergeSort_perm p.edits Edit.le
  obtain ⟨hline, hout⟩ := inLine_of_applyFrom h
  refine ⟨⟨p.descending, eq_descending_iff, ?_⟩,
    ⟨gaps source 0 p.ordered, ?_, ?_, ?_, ?_⟩, fun q hq hagree => ?_⟩
  · rw [map_descending, splices?_reverse hline, Text.cut_self, List.nil_append, hout]
  · rw [length_gaps, hperm.length_eq]
  · have hoff : isOutside p.ordered = isOutside p.edits := funext fun n => hperm.all_eq
    rw [flatten_gaps hline, Text.cut_all, hoff, Text.outside]
  · rw [← cut_eq_weave hline, Text.cut_all]
  · rw [hout, filled_eq_weave]
  · rw [apply, hagree.ordered_eq hq]
    exact h

/-- Two insertions at the start of a replacement, one at its end, and a deletion. -/
def nestedEdits : Patch :=
  Patch.empty |>.replace 3 5 "" |>.insert 2 "a" |>.replace 2 3 "b" |>.insert 2 "c" |>.insert 3 "d"

/-- The same edits in their order. -/
def sortedEdits : Patch :=
  Patch.empty |>.insert 2 "a" |>.insert 2 "c" |>.replace 2 3 "b" |>.insert 3 "d" |>.replace 3 5 ""

/-- Insertions at one place come in the order of recording, whatever is recorded between them. -/
theorem apply_eq_splices_nestedEdits :
    nestedEdits.apply "é-éx" = .ok "éacbdx".toList ∧
      splices? "é-éx" [⟨3, 5, []⟩, ⟨3, 3, ['d']⟩, ⟨2, 3, ['b']⟩, ⟨2, 2, ['c']⟩, ⟨2, 2, ['a']⟩]
        = some "éacbdx".toList ∧
      (Patch.empty |>.insert 2 "a" |>.insert 3 "d" |>.insert 2 "c" |>.replace 2 3 "b"
        |>.replace 3 5 "").apply "é-éx" = .ok "éacbdx".toList := by
  have hordered : nestedEdits.ordered = sortedEdits.edits := by
    rw [Agrees.ordered_eq (p := sortedEdits) (by decide) (by decide), ordered]
    exact List.mergeSort_of_pairwise (by decide)
  have h : nestedEdits.apply "é-éx" = .ok "éacbdx".toList := by
    rw [apply, hordered]
    decide
  obtain ⟨⟨qs, hqs, hsplices⟩, -, hagree⟩ := apply_eq_splices h
  refine ⟨h, ?_, hagree _ (by decide) (by decide)⟩
  obtain rfl : [(⟨3, 5, []⟩, 0), (⟨3, 3, ['d']⟩, 4), (⟨2, 3, ['b']⟩, 2), (⟨2, 2, ['c']⟩, 3),
    (⟨2, 2, ['a']⟩, 1)] = qs := (hqs _).mpr (by decide)
  exact hsplices

end Patch

end ComponentMigration
