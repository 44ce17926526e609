import ComponentMigration.Proofs.Script.Edits

/-!
The recorded edits make the rewriting.

* **Order.** Edits are recorded in one order and put in in another. Only insertions at one
  place can come in both orders, and these are closing parentheses, so that it does not
  matter (`printed_perm`).
* **Blocks.** A block `IsPrinted` if putting its edits into its span gives its text. Every
  way of rewriting keeps that (`keeps_isPrinted`), since the edits of blocks that are apart
  come block by block (`filled_blocks`).
* **Main statement.** `Program.filled_eq_hooked`: the recorded edits of a script, put into
  its source, give it with every piece rewritten and the import of the hook.
-/

namespace ComponentMigration

namespace Script

variable {source : Text} {a z : Nat}

/-! ### Order -/

/-- The insertions among the edits are closing parentheses. -/
def OnlyCloses (es : List Edit) : Prop := ∀ e ∈ es, e.start = e.stop → ∀ c ∈ e.text, c = ')'

/-- The edits in the order of application. -/
lemma pairwise_le_mergeSort (es : List Edit) :
    (es.mergeSort Edit.le).Pairwise fun e f => Edit.le e f = true :=
  List.pairwise_mergeSort Edit.le_trans Edit.le_total es

/-- Closing parentheses can change places. -/
lemma append_comm_of_closes {t u : Text} (ht : ∀ c ∈ t, c = ')') (hu : ∀ c ∈ u, c = ')') :
    t ++ u = u ++ t := by
  rw [List.eq_replicate_of_mem ht, List.eq_replicate_of_mem hu, List.replicate_append_replicate,
    List.replicate_append_replicate, Nat.add_comm]

/-- Edits that are apart and only close can change places where they have the same span. -/
lemma commutes_of_apart {es : List Edit} (hle : ∀ e ∈ es, e.start ≤ e.stop)
    (hapart : es.Pairwise Edit.IsApart) (hcloses : OnlyCloses es) :
    ∀ e ∈ es, ∀ f ∈ es, e.Commutes f := by
  intro e he f hf hstart hstop
  by_cases heq : e = f
  · exact .inl heq
  · have h := hapart.forall he hf heq
    have hempty : e.start = e.stop := by
      have := hle e he
      rw [Edit.IsApart] at h
      omega
    exact .inr ⟨hempty, append_comm_of_closes (hcloses e he hempty) (hcloses f hf (by omega))⟩

/-- What is filled does not depend on the order of recording. -/
lemma filled_of_perm {es fs gs : List Edit} (hes : AreSound source es) (hcloses : OnlyCloses es)
    (hf : fs.Perm es) (hfs : fs.Pairwise fun e f => Edit.le e f = true)
    (hg : gs.Perm es) (hgs : gs.Pairwise fun e f => Edit.le e f = true) :
    filled source a z fs = filled source a z gs := by
  have hcomm := commutes_of_apart (fun e he => (hes.fits e he).le) hes.apart hcloses
  refine filled_perm (hf.trans hg.symm) hfs hgs fun e he f hf' => ?_
  exact hcomm e (hf.mem_iff.mp he) f (hf.mem_iff.mp hf')

/-! ### Blocks -/

/-- Putting the edits of a block into its span gives its text. No edit ends where the block
begins. -/
structure Block.IsPrinted (source : Text) (b : Block) : Prop extends b.IsSound source where
  fits : b.span.Fits source
  behind : ∀ e ∈ b.edits, b.span.start < e.stop
  closes : OnlyCloses b.edits
  text : b.span.printed source b.edits = b.text

/-- An empty block has no edits, and no text. -/
lemma Block.IsPrinted.text_eq_nil {b : Block} (hb : b.IsPrinted source)
    (hempty : b.span.start = b.span.stop) : b.text = [] := by
  have hedits : b.edits = [] := by
    refine List.eq_nil_iff_forall_not_mem.mpr fun e he => ?_
    have hbehind := hb.behind e he
    have hstop := hb.toIsSound.stop e he
    omega
  rw [← hb.text, hedits, Span.printed, List.mergeSort_nil, filled, hempty, Text.cut_self]

/-- The edits of blocks that stand one behind the other come block by block. -/
lemma filled_flatMap {bs : List Block} (hbs : ∀ b ∈ bs, b.IsPrinted source)
    (h : bs.Pairwise fun b c => b.span.stop ≤ c.span.start) (ha : source.IsBoundary a)
    (hz : source.IsBoundary z) (hfrom : ∀ b ∈ bs, a ≤ b.span.start)
    (hto : ∀ b ∈ bs, b.span.stop ≤ z) :
    filled source a z (bs.flatMap fun b => b.edits.mergeSort Edit.le)
      = filled source a z (bs.map Block.edit) := by
  induction bs generalizing a with
  | nil => rfl
  | cons b bs ih =>
      rw [List.forall_mem_cons] at hbs hfrom hto
      rw [List.pairwise_cons] at h
      have hb := hbs.1
      have hown : ∀ e ∈ b.edits.mergeSort Edit.le, e ∈ b.edits := fun e he =>
        List.mem_mergeSort.mp he
      -- The edits of the other blocks are behind this one, so the fill can be split where it
      -- ends.
      have hothers : ∀ e ∈ bs.flatMap (fun b => b.edits.mergeSort Edit.le),
          e.Fits source ∧ b.span.stop ≤ e.start := by
        intro e he
        obtain ⟨c, hc, he⟩ := List.mem_flatMap.mp he
        have he := List.mem_mergeSort.mp he
        exact ⟨(hbs.2 c hc).sound.fits e he,
          Nat.le_trans (h.1 c hc) ((hbs.2 c hc).start e he)⟩
      have hinner : filled source a b.span.stop ([] ++ b.edits.mergeSort Edit.le)
          = source.cut a b.span.start ++ b.text := by
        rw [← hb.text]
        exact filled_append ha hb.fits.start hb.fits.stop hfrom.1 hb.fits.le
          (by simp) (fun e he => hb.sound.fits e (hown e he)) (by simp)
          fun e he => hb.toIsSound.start e (hown e he)
      rw [List.nil_append] at hinner
      rw [List.flatMap_cons, filled_append ha hb.fits.stop hz
        (Nat.le_trans hfrom.1 hb.fits.le) hto.1 (fun e he => hb.sound.fits e (hown e he))
        (fun e he => (hothers e he).1) (fun e he => hb.toIsSound.stop e (hown e he))
        (fun e he => (hothers e he).2), hinner, List.map_cons, filled,
        ih hbs.2 h.2 hb.fits.stop h.1 hto.2]
      rfl

/-- Edits that stand one behind the other are in order. -/
lemma pairwise_le_of_stop_le_start {es : List Edit} (hle : ∀ e ∈ es, e.start ≤ e.stop)
    (h : es.Pairwise fun e f => e.stop ≤ f.start) :
    es.Pairwise fun e f => Edit.le e f = true := by
  refine h.imp_of_mem fun he hf h => ?_
  have h₁ := hle _ he
  have h₂ := hle _ hf
  rw [Edit.le_iff]
  omega

/-- The edits of blocks in order are in order. -/
lemma pairwise_le_flatMap {bs : List Block} (hbs : ∀ b ∈ bs, b.IsSound source)
    (h : bs.Pairwise fun b c => b.span.stop ≤ c.span.start) :
    (bs.flatMap fun b => b.edits.mergeSort Edit.le).Pairwise fun e f => Edit.le e f = true := by
  have hfits : ∀ b ∈ bs, ∀ e ∈ b.edits, e.start ≤ e.stop := fun b hb e he =>
    ((hbs b hb).sound.fits e he).le
  refine pairwise_le_of_stop_le_start (fun e he => ?_)
    (List.pairwise_flatMap.mpr ⟨fun b hb => ?_, ?_⟩)
  · obtain ⟨b, hb, he⟩ := List.mem_flatMap.mp he
    exact hfits b hb e (List.mem_mergeSort.mp he)
  · exact pairwise_ordered (hfits b hb) (hbs b hb).sound.apart
  · refine h.imp_of_mem fun hb hc h e he f hf => ?_
    exact Nat.le_trans ((hbs _ hb).stop e (List.mem_mergeSort.mp he))
      (Nat.le_trans h ((hbs _ hc).start f (List.mem_mergeSort.mp hf)))

/-- Blocks that are apart, in the order of their spans. -/
lemma exists_inOrder {bs : List Block} (hle : ∀ b ∈ bs, b.span.start ≤ b.span.stop)
    (h : bs.Pairwise fun b c => b.span.IsApart c.span) :
    ∃ cs : List Block, cs.Perm bs ∧ cs.Pairwise fun b c => b.span.stop ≤ c.span.start := by
  have hperm := List.mergeSort_perm bs fun b c => Edit.le b.edit c.edit
  have hsorted := List.pairwise_mergeSort (fun b c d => Edit.le_trans b.edit c.edit d.edit)
    (fun b c => Edit.le_total b.edit c.edit) bs
  have hapart := (hperm.pairwise_iff fun h => Span.IsApart.symm h).mpr h
  refine ⟨_, hperm, (hsorted.and hapart).imp_of_mem fun {b c} _ hc h => ?_⟩
  exact Edit.stop_le_start_of_le (e := b.edit) (f := c.edit) (hle c (hperm.mem_iff.mp hc)) h.2 h.1

/-- The texts of blocks that are apart are sound edits, and none of them inserts a text. -/
lemma areSound_map_edit {bs : List Block} (hbs : ∀ b ∈ bs, b.IsPrinted source)
    (h : bs.Pairwise fun b c => b.span.IsApart c.span) :
    AreSound source (bs.map Block.edit) ∧ OnlyCloses (bs.map Block.edit) := by
  refine ⟨⟨?_, List.pairwise_map.mpr h⟩, ?_⟩
  · rw [List.forall_mem_map]
    exact fun b hb => (hbs b hb).fits.edit b.text
  · rw [OnlyCloses, List.forall_mem_map]
    intro b hb hempty c hc
    have htext : b.edit.text = [] := (hbs b hb).text_eq_nil hempty
    rw [htext] at hc
    cases hc

/-- **Flat and nested edits agree**: putting all edits of blocks that are apart into the
source is putting the text of each block in its place. -/
lemma filled_blocks {bs : List Block} {es fs : List Edit} (hbs : ∀ b ∈ bs, b.IsPrinted source)
    (h : bs.Pairwise fun b c => b.span.IsApart c.span) (ha : source.IsBoundary a)
    (hz : source.IsBoundary z) (hfrom : ∀ b ∈ bs, a ≤ b.span.start)
    (hto : ∀ b ∈ bs, b.span.stop ≤ z)
    (hes : es.Perm (bs.flatMap (·.edits))) (hes' : es.Pairwise fun e f => Edit.le e f = true)
    (hfs : fs.Perm (bs.map Block.edit)) (hfs' : fs.Pairwise fun e f => Edit.le e f = true) :
    filled source a z es = filled source a z fs := by
  -- The blocks are taken in the order of the text; then their edits are in order as well.
  obtain ⟨cs, hcs, hinOrder⟩ := exists_inOrder (fun b hb => (hbs b hb).fits.le) h
  have hprinted : ∀ b ∈ cs, b.IsPrinted source := fun b hb => hbs b (hcs.mem_iff.mp hb)
  have hcloses : OnlyCloses (bs.flatMap (·.edits)) := by
    intro e he
    obtain ⟨b, hb, he⟩ := List.mem_flatMap.mp he
    exact (hbs b hb).closes e he
  have hflat : (cs.flatMap fun b => b.edits.mergeSort Edit.le).Perm (bs.flatMap (·.edits)) :=
    (List.Perm.flatMap_left cs fun b _ => List.mergeSort_perm b.edits Edit.le).trans
      (hcs.flatMap_right _)
  have hmap : (cs.map Block.edit).Pairwise fun e f => Edit.le e f = true := by
    refine pairwise_le_of_stop_le_start ?_ (List.pairwise_map.mpr hinOrder)
    rw [List.forall_mem_map]
    exact fun b hb => (hprinted b hb).fits.le
  obtain ⟨hsound, hcloses'⟩ := areSound_map_edit hbs h
  calc filled source a z es
      = filled source a z (cs.flatMap fun b => b.edits.mergeSort Edit.le) :=
        filled_of_perm (areSound_flatMap (fun b hb => (hbs b hb).toIsSound) h) hcloses hes hes'
          hflat (pairwise_le_flatMap (fun b hb => (hprinted b hb).toIsSound) hinOrder)
    _ = filled source a z (cs.map Block.edit) :=
        filled_flatMap hprinted hinOrder ha hz (fun b hb => hfrom b (hcs.mem_iff.mp hb))
          fun b hb => hto b (hcs.mem_iff.mp hb)
    _ = filled source a z fs := filled_of_perm hsound hcloses' (hcs.map _) hmap hfs hfs'

/-! ### Ways of rewriting -/

/-- What is printed does not depend on the order of recording. -/
lemma printed_perm {s : Span} {es es' : List Edit} (hes : AreSound source es)
    (hcloses : OnlyCloses es) (hperm : es.Perm es') : s.printed source es = s.printed source es' :=
  filled_of_perm hes hcloses (List.mergeSort_perm es Edit.le) (pairwise_le_mergeSort es)
    ((List.mergeSort_perm es' Edit.le).trans hperm.symm) (pairwise_le_mergeSort es')

/-- A span with one edit inside of it. -/
lemma printed_singleton (s : Span) (e : Edit) :
    s.printed source [e] = source.cut s.start e.start ++ e.text ++ source.cut e.stop s.stop := by
  rw [Span.printed, List.mergeSort_singleton]
  rfl

/-- The end of the call of a setter is made of closing parentheses. -/
lemma closes_setterEnd (operator : Text) : ∀ c ∈ setterEnd operator, c = ')' := by
  rw [setterEnd]
  split_ifs
  · exact List.forall_mem_singleton.mpr rfl
  · exact List.forall_mem_cons.mpr ⟨rfl, List.forall_mem_singleton.mpr rfl⟩

/-- An assignment prints the start of the call, its value, the end of the call and what
stands behind the value. -/
lemma printed_assigned {s : Span} {b : Block} (v : StateVariable) (operator : Text)
    (hs : s.Fits source) (hinside : b.span.Inside s)
    (hb : b.IsPrinted source)
    (hsound : AreSound source (assignmentEdits v operator s b.span ++ b.edits))
    (hcloses : OnlyCloses (assignmentEdits v operator s b.span ++ b.edits)) :
    s.printed source (assignmentEdits v operator s b.span ++ b.edits)
      = setterStart v operator ++ b.text ++ setterEnd operator ++
          source.cut b.span.stop s.stop := by
  set opening : Edit := ⟨s.start, b.span.start, setterStart v operator⟩
  set closing : Edit := ⟨b.span.stop, b.span.stop, setterEnd operator⟩
  set inner := b.edits.mergeSort Edit.le
  have hmem : ∀ e ∈ inner, e ∈ b.edits := fun e he => List.mem_mergeSort.mp he
  have hperm : (opening :: (inner ++ [closing])).Perm
      (assignmentEdits v operator s b.span ++ b.edits) :=
    (((List.mergeSort_perm b.edits Edit.le).append_right [closing]).trans
      (List.perm_append_singleton closing b.edits)).cons opening
  -- The opening is in front of the inner edits, and the closing behind them.
  have hinOrder : (opening :: (inner ++ [closing])).Pairwise fun e f => e.stop ≤ f.start := by
    rw [List.pairwise_cons, List.forall_mem_append, List.forall_mem_singleton,
      List.pairwise_append]
    refine ⟨⟨fun e he => hb.toIsSound.start e (hmem e he), hb.fits.le⟩,
      pairwise_ordered (fun e he => (hb.sound.fits e he).le) hb.sound.apart,
      List.pairwise_singleton _ _, fun e he f hf => ?_⟩
    rw [List.mem_singleton.mp hf]
    exact hb.toIsSound.stop e (hmem e he)
  have hsorted := pairwise_le_of_stop_le_start
    (fun e he => (hsound.fits e (hperm.mem_iff.mp he)).le) hinOrder
  have hclosing : ∀ f ∈ [closing], f.Fits source ∧ b.span.stop ≤ f.start := by
    rw [List.forall_mem_singleton]
    exact ⟨⟨Nat.le_refl _, hb.fits.stop, hb.fits.stop⟩, Nat.le_refl _⟩
  calc s.printed source (assignmentEdits v operator s b.span ++ b.edits)
      = filled source s.start s.stop (opening :: (inner ++ [closing])) :=
        filled_of_perm hsound hcloses (List.mergeSort_perm _ Edit.le) (pairwise_le_mergeSort _)
          hperm hsorted
    _ = setterStart v operator ++ filled source b.span.start s.stop (inner ++ [closing]) := by
        rw [filled, Text.cut_self, List.nil_append]
    _ = setterStart v operator ++ (b.text ++ filled source b.span.stop s.stop [closing]) := by
        rw [filled_append hb.fits.start hb.fits.stop hs.stop hb.fits.le hinside.stop
          (fun e he => hb.sound.fits e (hmem e he)) (fun f hf => (hclosing f hf).1)
          (fun e he => hb.toIsSound.stop e (hmem e he)) fun f hf => (hclosing f hf).2, ← hb.text]
        rfl
    _ = _ := by
        rw [filled, Text.cut_self, List.nil_append, filled, List.append_assoc, List.append_assoc]

/-- Every way of rewriting keeps blocks printed. -/
lemma keeps_isPrinted (r : Pass) :
    r.Keeps (Span.Fits r.source) Span.Precedes Span.IsFilled (Block.IsPrinted r.source) where
  perm := by
    intro s es es' text hperm h
    have hmem : ∀ e ∈ es', e ∈ es := fun e he => hperm.mem_iff.mpr he
    exact {
      toIsSound := (keeps_isSound r Span.Precedes Span.IsFilled).perm hperm h.toIsSound
      fits := h.fits
      behind := fun e he => h.behind e (hmem e he)
      closes := fun e he => h.closes e (hmem e he)
      text := (printed_perm h.sound h.closes hperm).symm.trans h.text }
  -- A piece that is replaced has this one edit.
  replaced := by
    intro s text hs hfilled
    refine ⟨(keeps_isSound r Span.Precedes Span.IsFilled).replaced text hs hfilled, hs, ?_, ?_, ?_⟩
    · rw [List.forall_mem_singleton]
      exact hfilled
    · rw [OnlyCloses, List.forall_mem_singleton]
      exact fun heq => absurd heq (Nat.ne_of_lt hfilled)
    · simp [printed_singleton, Span.edit]
  read := by
    intro s o hs ho hfilled hinside
    have hlt : s.start < s.stop :=
      Nat.lt_of_le_of_lt hinside.start (Nat.lt_of_lt_of_le hfilled hinside.stop)
    refine ⟨(keeps_isSound r Span.Precedes Span.IsFilled).read hs ho hfilled hinside, hs,
      ?_, ?_, ?_⟩
    · rw [List.forall_mem_singleton]
      exact hlt
    · rw [OnlyCloses, List.forall_mem_singleton]
      exact fun _ => by simp
    · simp [printed_singleton]
  -- An assignment has the edits of its value, with the call of the setter around them.
  assigned := by
    intro s t o b v operator hs hfilled hobject htarget hprecedes hb hinside h
    have hlt : s.start < b.span.start :=
      calc s.start ≤ o.start := Nat.le_trans htarget.start hobject.start
        _ < o.stop := hfilled
        _ ≤ b.span.start := Nat.le_trans hobject.stop hprecedes
    have hsound := (keeps_isSound r Span.Precedes Span.IsFilled).assigned v operator hs hfilled
      hobject htarget hprecedes hb hinside h.toIsSound
    have hcloses : OnlyCloses (assignmentEdits v operator s b.span ++ b.edits) := by
      rw [OnlyCloses, assignmentEdits, List.forall_mem_append, List.forall_mem_cons,
        List.forall_mem_singleton]
      exact ⟨⟨fun heq => absurd heq (Nat.ne_of_lt hlt), fun _ => closes_setterEnd operator⟩,
        h.closes⟩
    refine ⟨hsound, hs, ?_, hcloses,
      printed_assigned v operator hs hinside h hsound.sound hcloses⟩
    rw [assignmentEdits, List.forall_mem_append, List.forall_mem_cons, List.forall_mem_singleton]
    exact ⟨⟨hlt, Nat.lt_of_lt_of_le hlt hb.le⟩, fun e he => Nat.lt_trans hlt (h.behind e he)⟩
  -- A node with rewritten parts has the edits of its parts.
  around := by
    intro s bs hs hbs hapart
    have hsound := (keeps_isSound r Span.Precedes Span.IsFilled).around bs hs
      (fun b hb => ⟨(hbs b hb).1, (hbs b hb).2.1, (hbs b hb).2.2.toIsSound⟩) hapart
    refine ⟨hsound, hs, fun e he => ?_, fun e he => ?_, ?_⟩
    · obtain ⟨b, hb, he⟩ := List.mem_flatMap.mp he
      exact Nat.lt_of_le_of_lt (hbs b hb).2.1.start ((hbs b hb).2.2.behind e he)
    · obtain ⟨b, hb, he⟩ := List.mem_flatMap.mp he
      exact (hbs b hb).2.2.closes e he
    · exact filled_blocks (fun b hb => (hbs b hb).2.2) hapart hs.start hs.stop
        (fun b hb => (hbs b hb).2.1.start) (fun b hb => (hbs b hb).2.1.stop)
        (List.mergeSort_perm _ Edit.le) (pairwise_le_mergeSort _)
        (List.mergeSort_perm _ Edit.le) (pairwise_le_mergeSort _)

/-! ### The import of the hook -/

/-- What is in order by blocks is selected by blocks. -/
lemma filter_flatMap_of_forall {α β : Type} {g : α → List β} {q : β → Bool} {d : α → Bool}
    {bs : List α} (h : ∀ b ∈ bs, ∀ e ∈ g b, q e = d b) :
    (bs.flatMap g).filter q = (bs.filter d).flatMap g := by
  induction bs with
  | nil => rfl
  | cons b bs ih =>
      rw [List.forall_mem_cons] at h
      rw [List.flatMap_cons, List.filter_append, ih h.2, List.filter_cons]
      cases hd : d b with
      | true =>
          rw [List.filter_eq_self.mpr fun e he => (h.1 e he).trans hd, if_pos rfl,
            List.flatMap_cons]
      | false =>
          rw [List.filter_eq_nil_iff.mpr fun e he => by simp [h.1 e he, hd], List.nil_append]
          rfl

/-- The edits that stand for a block: they are inside of its span, and none of them ends
where it begins unless it is empty. -/
def StandsFor (source : Text) (b : Block) (es : List Edit) : Prop :=
  ∀ e ∈ es, e.Fits source ∧ b.span.start ≤ e.start ∧
    (b.span.start = b.span.stop ∨ b.span.start < e.stop) ∧ e.stop ≤ b.span.stop

/-- Whether a block ends before a place. -/
def Block.endsBy (position : Nat) (b : Block) : Bool := b.span.stop ≤ position

/-- A block that a place is not inside of begins behind it unless it ends before it. -/
lemma Block.le_start_of_not_endsBy {b : Block} {position : Nat}
    (hpos : b.span.stop ≤ position ∨ position ≤ b.span.start) (h : (!b.endsBy position) = true) :
    position ≤ b.span.start := by
  refine hpos.resolve_left fun hstop => ?_
  simp [endsBy, hstop] at h

/-- An edit for a block is put in before an insertion if the block ends before its place. -/
lemma StandsFor.le_insertion {b : Block} {es : List Edit} {position : Nat}
    (h : StandsFor source b es) (hpos : b.span.stop ≤ position ∨ position ≤ b.span.start)
    (text : Text) : ∀ e ∈ es, Edit.le e ⟨position, position, text⟩ = b.endsBy position := by
  intro e he
  obtain ⟨hfits, hstart, hbehind, hstop⟩ := h e he
  have hle := hfits.le
  rw [Bool.eq_iff_iff, Edit.le_iff, Block.endsBy, decide_eq_true_eq]
  dsimp only
  omega

/-- An insertion parts what is filled. -/
lemma filled_insertion {es fs : List Edit} {position : Nat} (text : Text)
    (hposition : source.IsBoundary position)
    (hes : ∀ e ∈ es, e.Fits source ∧ e.stop ≤ position)
    (hfs : ∀ e ∈ fs, e.Fits source ∧ position ≤ e.start) :
    filled source 0 source.byteLength (es ++ ⟨position, position, text⟩ :: fs)
      = filled source 0 position es ++ text ++ filled source position source.byteLength fs := by
  have hbehind : ∀ e ∈ (⟨position, position, text⟩ : Edit) :: fs,
      e.Fits source ∧ position ≤ e.start := by
    rw [List.forall_mem_cons]
    exact ⟨⟨⟨Nat.le_refl _, hposition, hposition⟩, Nat.le_refl _⟩, hfs⟩
  rw [filled_append (Text.isBoundary_zero source) hposition (Text.isBoundary_byteLength source)
    (Nat.zero_le _) hposition.le_byteLength (fun e he => (hes e he).1)
    (fun e he => (hbehind e he).1) (fun e he => (hes e he).2) fun e he => (hbehind e he).2,
    filled, Text.cut_self, List.nil_append, List.append_assoc]

/-- An insertion behind all else that is recorded parts the blocks into those in front of it
and those behind it. -/
lemma exists_filled_insert {g : Block → List Edit} {bs : List Block} {es : List Edit}
    {position : Nat} (text : Text) (hg : ∀ b ∈ bs, StandsFor source b (g b))
    (hpos : ∀ b ∈ bs, b.span.stop ≤ position ∨ position ≤ b.span.start)
    (hposition : source.IsBoundary position) (hes : es.Perm (bs.flatMap g)) :
    ∃ fs gs, fs.Perm ((bs.filter (Block.endsBy position)).flatMap g) ∧
      (fs.Pairwise fun e f => Edit.le e f = true) ∧
      gs.Perm ((bs.filter fun b => !b.endsBy position).flatMap g) ∧
      (gs.Pairwise fun e f => Edit.le e f = true) ∧
      filled source 0 source.byteLength
          ((es ++ [(⟨position, position, text⟩ : Edit)]).mergeSort Edit.le)
        = filled source 0 position fs ++ text ++
            filled source position source.byteLength gs := by
  have hle : ∀ b ∈ bs, ∀ e ∈ g b, Edit.le e ⟨position, position, text⟩ = b.endsBy position :=
    fun b hb => (hg b hb).le_insertion (hpos b hb) text
  -- Sorting with one edit more cuts the sorted edits where the new one goes.
  obtain ⟨fs, gs, heq, hfs, hgs⟩ :=
    exists_mergeSort_append_singleton Edit.le_trans Edit.le_total es ⟨position, position, text⟩
  have hsorted := pairwise_le_mergeSort (es ++ [⟨position, position, text⟩])
  rw [heq, List.pairwise_append, List.pairwise_cons] at hsorted
  have hfs' : fs.Perm ((bs.filter (Block.endsBy position)).flatMap g) := by
    have h := hfs.trans (hes.filter _)
    rwa [filter_flatMap_of_forall hle] at h
  have hgs' : gs.Perm ((bs.filter fun b => !b.endsBy position).flatMap g) := by
    have h := hgs.trans (hes.filter _)
    rwa [filter_flatMap_of_forall fun b hb e he => congrArg (!·) (hle b hb e he)] at h
  -- On each side are the edits of the blocks on that side.
  have hfront : ∀ e ∈ fs, e.Fits source ∧ e.stop ≤ position := by
    intro e he
    obtain ⟨b, hb, he⟩ := List.mem_flatMap.mp (hfs'.mem_iff.mp he)
    obtain ⟨hb, hends⟩ := List.mem_filter.mp hb
    obtain ⟨hfits, -, -, hstop⟩ := hg b hb e he
    exact ⟨hfits, Nat.le_trans hstop (of_decide_eq_true hends)⟩
  have hbehind : ∀ e ∈ gs, e.Fits source ∧ position ≤ e.start := by
    intro e he
    obtain ⟨b, hb, he⟩ := List.mem_flatMap.mp (hgs'.mem_iff.mp he)
    obtain ⟨hb, hends⟩ := List.mem_filter.mp hb
    obtain ⟨hfits, hstart, -, -⟩ := hg b hb e he
    exact ⟨hfits, Nat.le_trans (Block.le_start_of_not_endsBy (hpos b hb) hends) hstart⟩
  refine ⟨fs, gs, hfs', hsorted.1, hgs', hsorted.2.1.2, ?_⟩
  rw [heq, filled_insertion text hposition hfront hbehind]

/-- With an insertion behind all else that is recorded, flat and nested edits agree. -/
lemma filled_insert {bs : List Block} {es fs : List Edit} {position : Nat} (text : Text)
    (hbs : ∀ b ∈ bs, b.IsPrinted source) (h : bs.Pairwise fun b c => b.span.IsApart c.span)
    (hpos : ∀ b ∈ bs, b.span.stop ≤ position ∨ position ≤ b.span.start)
    (hposition : source.IsBoundary position) (hes : es.Perm (bs.flatMap (·.edits)))
    (hfs : fs.Perm (bs.map Block.edit)) :
    filled source 0 source.byteLength
        ((es ++ [(⟨position, position, text⟩ : Edit)]).mergeSort Edit.le)
      = filled source 0 source.byteLength
          ((fs ++ [(⟨position, position, text⟩ : Edit)]).mergeSort Edit.le) := by
  have hedits : ∀ b ∈ bs, StandsFor source b b.edits := fun b hb e he =>
    ⟨(hbs b hb).sound.fits e he, (hbs b hb).toIsSound.start e he, .inr ((hbs b hb).behind e he),
      (hbs b hb).toIsSound.stop e he⟩
  have hself : ∀ b ∈ bs, StandsFor source b [b.edit] := by
    intro b hb
    rw [StandsFor, List.forall_mem_singleton]
    exact ⟨(hbs b hb).fits.edit b.text, Nat.le_refl _, Nat.eq_or_lt_of_le (hbs b hb).fits.le,
      Nat.le_refl _⟩
  rw [List.map_eq_flatMap] at hfs
  -- Both fills are cut at the insertion, and on each side the blocks are the same.
  obtain ⟨es₁, es₂, hes₁, hes₁', hes₂, hes₂', heq⟩ :=
    exists_filled_insert text hedits hpos hposition hes
  obtain ⟨fs₁, fs₂, hfs₁, hfs₁', hfs₂, hfs₂', heq'⟩ :=
    exists_filled_insert text hself hpos hposition hfs
  rw [← List.map_eq_flatMap] at hfs₁ hfs₂
  have hfront : filled source 0 position es₁ = filled source 0 position fs₁ := by
    refine filled_blocks (fun b hb => hbs b (List.mem_of_mem_filter hb)) (h.filter _)
      (Text.isBoundary_zero source) hposition (fun _ _ => Nat.zero_le _) (fun b hb => ?_)
      hes₁ hes₁' hfs₁ hfs₁'
    exact of_decide_eq_true (List.mem_filter.mp hb).2
  have hbehind : filled source position source.byteLength es₂
      = filled source position source.byteLength fs₂ := by
    refine filled_blocks (fun b hb => hbs b (List.mem_of_mem_filter hb)) (h.filter _)
      hposition (Text.isBoundary_byteLength source) (fun b hb => ?_)
      (fun b hb => (hbs b (List.mem_of_mem_filter hb)).fits.stop.le_byteLength)
      hes₂ hes₂' hfs₂ hfs₂'
    obtain ⟨hb, hends⟩ := List.mem_filter.mp hb
    exact Block.le_start_of_not_endsBy (hpos b hb) hends
  rw [heq, heq', hfront, hbehind]

/-! ### Scripts -/

variable {p : Program} {r : Pass}

/-- The source with every piece of a script replaced by its rewriting, and some insertions. -/
def Program.hooked (p : Program) (r : Pass) (insertions : List Edit) : Text :=
  filled r.source 0 r.source.byteLength ((hookedAll r p.pieces ++ insertions).mergeSort Edit.le)

/-- The recorded edits of a script make the rewriting of its pieces. -/
lemma Program.filled_eq_hooked (hp : p.IsLaidOut (Span.Fits r.source))
    (horderly : ∀ n ∈ nodesOf p.body, n.IsOrderly Span.Precedes Span.IsFilled)
    (hstates : stateVariablesOf r.primitive p.body = r.states) (module name : Text) :
    filled r.source 0 r.source.byteLength
        ((p.stateEdits r.states r.hook ++ p.importInsertion module name).mergeSort Edit.le)
      = p.hooked r (p.importInsertion module name) := by
  have hblocks : ∀ b ∈ p.pieces.map (Tree.block r), b.IsPrinted r.source := by
    rw [List.forall_mem_map]
    intro q hq
    exact q.rewritten (keeps_isPrinted r) (isLaidOut_of_mem_pieces hp hq)
      (fun n hn => horderly n (mem_nodesOf_of_mem_pieces hq hn)) q q.mem_nodes_self
  have hapart : (p.pieces.map (Tree.block r)).Pairwise fun b c => b.span.IsApart c.span := by
    rw [List.pairwise_map]
    exact pieces_apart hp
  have hflat : (p.stateEdits r.states r.hook).Perm
      ((p.pieces.map (Tree.block r)).flatMap (·.edits)) := by
    rw [List.flatMap_map]
    exact stateEdits_perm hstates
  have hnested : hookedAll r p.pieces = (p.pieces.map (Tree.block r)).map Block.edit := by
    rw [hookedAll_eq_map, List.map_map]
    rfl
  rw [hooked, hnested, importInsertion]
  -- With nothing to import there is no insertion.
  split_ifs
  · rw [List.append_nil, List.append_nil]
    exact filled_blocks hblocks hapart (Text.isBoundary_zero _) (Text.isBoundary_byteLength _)
      (fun _ _ => Nat.zero_le _) (fun b hb => (hblocks b hb).fits.stop.le_byteLength)
      ((List.mergeSort_perm _ Edit.le).trans hflat) (pairwise_le_mergeSort _)
      (List.mergeSort_perm _ Edit.le) (pairwise_le_mergeSort _)
  · have hposition := p.importEdit_takesImports module [name]
    refine filled_insert _ hblocks hapart ?_ (hposition.isBoundary hp fun _ h => h) hflat
      (List.Perm.refl _)
    rw [List.forall_mem_map]
    exact fun q hq => hposition.apart hp (fun _ h => h) hq

end Script

end ComponentMigration
