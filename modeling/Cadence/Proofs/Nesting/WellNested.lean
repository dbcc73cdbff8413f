/-
  WELL-NESTED lists — where the families nest in each other, and what the links say there.

  The families of choices and loops are matched independently of each other.  A list is WELL-NESTED
  when they also nest in each other: one stack for all of them (`enclosing`) is enough.

  1. **One stack** — at each end and at each branch the innermost construct is of the right family,
     so the stack of each family is the common stack without the others (`WellNested.openAt_eq`).

  2. **Links** — hence each link of the pass leads between positions whose enclosing constructs are
     told by one another: the end of a choice stands in the choice and in what encloses it
     (`WellNested.choiceEnd`), a continue leads to a header that encloses it
     (`WellNested.continueTarget`), and so on, one statement for each question that can be asked of
     the links.
-/
import Cadence.Proofs.Nesting.Linking

namespace Cadence

/-! ## The common stack -/

/-- Choices and loops of all families together. -/
def Family.blocks : Family where
  opens k := k = .ifStart || k.isLoopStart
  closes k := k = .ifEnd || k.isLoopEnd
  apart k := by cases k <;> decide

/-- The constructs that enclose the statement at a position, innermost first.  A choice encloses its
branches and its end, a loop its end, but neither encloses its start. -/
def enclosing (ks : List (Option Kind)) (k : Nat) : List Nat := Family.blocks.openAt ks k

/-- At a position the innermost construct was opened by a statement of a family. -/
def innermostOf (f : Family) (ks : List (Option Kind)) (k : Nat) : Bool :=
  (enclosing ks k).head?.any (holds f.opens ks)

/-- A list in which the families nest in each other, and everything is closed. -/
structure WellNested (ks : List (Option Kind)) : Prop where
  /-- The end of a choice stands innermost in a choice. -/
  choices : ∀ k, k < ks.length → holds Family.choices.closes ks k → innermostOf .choices ks k
  /-- The end of a guarded loop stands innermost in a guarded loop. -/
  whiles : ∀ k, k < ks.length → holds Family.whiles.closes ks k → innermostOf .whiles ks k
  /-- The end of a counted loop, or of a loop over a list, stands innermost in one. -/
  fors : ∀ k, k < ks.length → holds Family.fors.closes ks k → innermostOf .fors ks k
  /-- A branch stands innermost in a choice. -/
  branches : ∀ k, k < ks.length → holds Kind.isBranch ks k → innermostOf .choices ks k
  /-- Nothing is left open. -/
  closed : enclosing ks ks.length = []

instance (ks : List (Option Kind)) : Decidable (WellNested ks) :=
  decidable_of_iff
    ((∀ k, k < ks.length → holds Family.choices.closes ks k → innermostOf .choices ks k) ∧
      (∀ k, k < ks.length → holds Family.whiles.closes ks k → innermostOf .whiles ks k) ∧
      (∀ k, k < ks.length → holds Family.fors.closes ks k → innermostOf .fors ks k) ∧
      (∀ k, k < ks.length → holds Kind.isBranch ks k → innermostOf .choices ks k) ∧
      enclosing ks ks.length = [])
    ⟨fun ⟨h₁, h₂, h₃, h₄, h₅⟩ => ⟨h₁, h₂, h₃, h₄, h₅⟩, fun h =>
      ⟨h.choices, h.whiles, h.fors, h.branches, h.closed⟩⟩

/-! ## What lies below on a stack -/

namespace Family

variable {f : Family} {ks : List (Option Kind)}

/-- Below an opening lies what was open before it. -/
theorem openAt_eq_append {h n : Nat} (hm : h ∈ f.openAt ks n) :
    ∃ above, f.openAt ks n = above ++ h :: f.openAt ks h ∧ ∀ m ∈ above, h < m := by
  induction n with
  | zero => exact absurd hm List.not_mem_nil
  | succ n ih =>
    cases ho : holds f.opens ks n with
    | true =>
      rw [openAt_of_opens ho] at hm ⊢
      rcases List.mem_cons.mp hm with rfl | hm
      · exact ⟨[], rfl, fun m hm => absurd hm List.not_mem_nil⟩
      · obtain ⟨above, he, hlt⟩ := ih hm
        refine ⟨n :: above, by rw [he, List.cons_append], fun m hmem => ?_⟩
        rcases List.mem_cons.mp hmem with rfl | hmem
        · exact (mem_openAt hm).1
        · exact hlt m hmem
    | false =>
      cases hc : holds f.closes ks n with
      | true =>
        rw [openAt_of_closes hc] at hm ⊢
        obtain ⟨above, he, hlt⟩ := ih (List.mem_of_mem_tail hm)
        cases above with
        | nil =>
          -- `h` was on top and is gone, so it cannot be below either
          rw [he, List.nil_append, List.tail_cons] at hm
          exact absurd (mem_openAt hm).1 (Nat.lt_irrefl h)
        | cons c above =>
          exact ⟨above, by rw [he, List.cons_append, List.tail_cons],
            fun m hmem => hlt m (List.mem_cons_of_mem c hmem)⟩
      | false =>
        rw [openAt_of_neither ho hc] at hm ⊢
        exact ih hm

/-- Below the innermost lies what was open before it. -/
theorem openAt_of_head? {h n : Nat} (ht : (f.openAt ks n).head? = some h) :
    f.openAt ks n = h :: f.openAt ks h := by
  obtain ⟨above, he, hlt⟩ := openAt_eq_append (List.mem_of_head? ht)
  cases above with
  | nil => exact he
  | cons c above =>
    rw [he, List.cons_append, List.head?_cons] at ht
    have hc : h < c := hlt c (List.mem_cons_self ..)
    have : c = h := Option.some.inj ht
    omega

end Family

/-! ## One stack for all families -/

theorem holds_iff {p : Kind → Bool} {ks : List (Option Kind)} {i : Nat} :
    holds p ks i = true ↔ ∃ k, ks[i]?.join = some k ∧ p k = true := by
  unfold holds
  cases ks[i]?.join with
  | none => simp
  | some k => simp

/-- A family that is a part of all blocks, and for which a start and an end that match are both of
the family or both not. -/
structure Family.Part (g : Family) : Prop where
  /-- Its starts are starts of blocks. -/
  opens : ∀ k, g.opens k = true → blocks.opens k = true
  /-- Its ends are ends of blocks. -/
  closes : ∀ k, g.closes k = true → blocks.closes k = true
  /-- Choices are of the family or not. -/
  choices : ∀ o c, choices.opens o = true → choices.closes c = true → g.opens o = g.closes c
  /-- Guarded loops are of the family or not. -/
  whiles : ∀ o c, whiles.opens o = true → whiles.closes c = true → g.opens o = g.closes c
  /-- Counted loops and loops over lists are of the family or not. -/
  fors : ∀ o c, fors.opens o = true → fors.closes c = true → g.opens o = g.closes c

/-- The ends of each family, by their words. -/
theorem Family.choices_matched {o c : Kind} (ho : choices.opens o = true)
    (hc : choices.closes c = true) : o = .ifStart ∧ c = .ifEnd :=
  ⟨of_decide_eq_true ho, of_decide_eq_true hc⟩

theorem Family.whiles_matched {o c : Kind} (ho : whiles.opens o = true)
    (hc : whiles.closes c = true) : o = .whileStart ∧ c = .whileEnd :=
  ⟨of_decide_eq_true ho, of_decide_eq_true hc⟩

theorem Family.fors_matched {o c : Kind} (ho : fors.opens o = true)
    (hc : fors.closes c = true) : (o = .forStart ∨ o = .forEachStart) ∧ c = .forEnd :=
  ⟨of_decide_eq_true ho, of_decide_eq_true hc⟩

theorem Family.choices_part : Family.choices.Part where
  opens k h := by cases k <;> first | rfl | exact absurd h (by decide)
  closes k h := by cases k <;> first | rfl | exact absurd h (by decide)
  choices o c ho hc := by rw [ho, hc]
  whiles o c ho hc := by
    obtain ⟨rfl, rfl⟩ := whiles_matched ho hc
    rfl
  fors o c ho hc := by
    obtain ⟨rfl | rfl, rfl⟩ := fors_matched ho hc
    · rfl
    · rfl

theorem Family.whiles_part : Family.whiles.Part where
  opens k h := by cases k <;> first | rfl | exact absurd h (by decide)
  closes k h := by cases k <;> first | rfl | exact absurd h (by decide)
  choices o c ho hc := by
    obtain ⟨rfl, rfl⟩ := choices_matched ho hc
    rfl
  whiles o c ho hc := by rw [ho, hc]
  fors o c ho hc := by
    obtain ⟨rfl | rfl, rfl⟩ := fors_matched ho hc
    · rfl
    · rfl

theorem Family.fors_part : Family.fors.Part where
  opens k h := by cases k <;> first | rfl | exact absurd h (by decide)
  closes k h := by cases k <;> first | rfl | exact absurd h (by decide)
  choices o c ho hc := by
    obtain ⟨rfl, rfl⟩ := choices_matched ho hc
    rfl
  whiles o c ho hc := by
    obtain ⟨rfl, rfl⟩ := whiles_matched ho hc
    rfl
  fors o c ho hc := by rw [ho, hc]

theorem Family.loops_part : Family.loops.Part where
  opens k h := by cases k <;> first | rfl | exact absurd h (by decide)
  closes k h := by cases k <;> first | rfl | exact absurd h (by decide)
  choices o c ho hc := by
    obtain ⟨rfl, rfl⟩ := choices_matched ho hc
    rfl
  whiles o c ho hc := by
    obtain ⟨rfl, rfl⟩ := whiles_matched ho hc
    rfl
  fors o c ho hc := by
    obtain ⟨rfl | rfl, rfl⟩ := fors_matched ho hc
    · rfl
    · rfl

/-- The ends of blocks are those of the three families. -/
theorem Family.blocks_closes (k : Kind) (h : blocks.closes k = true) :
    choices.closes k = true ∨ whiles.closes k = true ∨ fors.closes k = true := by
  cases k <;> first | exact absurd h (by decide) | decide

/-- A branch begins and ends nothing. -/
theorem Family.blocks_of_isBranch (k : Kind) (h : k.isBranch = true) :
    blocks.opens k = false ∧ blocks.closes k = false := by
  cases k <;> first | exact ⟨rfl, rfl⟩ | exact absurd h (by decide)

namespace WellNested

variable {ks : List (Option Kind)}

theorem innermostOf_iff {f : Family} {k : Nat} :
    innermostOf f ks k = true ↔
      ∃ h, (enclosing ks k).head? = some h ∧ holds f.opens ks h = true := by
  unfold innermostOf
  cases (enclosing ks k).head? with
  | none => simp
  | some h => simp

/-- The innermost construct at an end is the one that the end is for, in any family that one asks. -/
theorem matched (hw : WellNested ks) {k : Nat} (hc : holds Family.blocks.closes ks k = true) :
    ∃ h, (enclosing ks k).head? = some h ∧
      ∀ g : Family, g.Part → holds g.opens ks h = holds g.closes ks k := by
  have hlt := lt_length_of_holds hc
  obtain ⟨c, hk, hcc⟩ := holds_iff.mp hc
  -- whichever family the end is of, the start is of the same, and then a part has both or none
  have conclude : ∀ f : Family, f.closes c = true → innermostOf f ks k = true →
      (∀ g : Family, g.Part → ∀ o, f.opens o = true → g.opens o = g.closes c) →
      ∃ h, (enclosing ks k).head? = some h ∧
        ∀ g : Family, g.Part → holds g.opens ks h = holds g.closes ks k := by
    intro f _ hin hg
    obtain ⟨h, hh, ho⟩ := innermostOf_iff.mp hin
    obtain ⟨o, hko, hoo⟩ := holds_iff.mp ho
    refine ⟨h, hh, fun g hp => ?_⟩
    have := hg g hp o hoo
    unfold holds
    rw [hko, hk]
    exact this
  rcases Family.blocks_closes c hcc with hf | hf | hf
  · exact conclude .choices hf (hw.choices k hlt (holds_iff.mpr ⟨c, hk, hf⟩))
      fun g hp o ho => hp.choices o c ho hf
  · exact conclude .whiles hf (hw.whiles k hlt (holds_iff.mpr ⟨c, hk, hf⟩))
      fun g hp o ho => hp.whiles o c ho hf
  · exact conclude .fors hf (hw.fors k hlt (holds_iff.mpr ⟨c, hk, hf⟩))
      fun g hp o ho => hp.fors o c ho hf

/-- **The stack of a family is the common stack without the others.** -/
theorem openAt_eq (hw : WellNested ks) {g : Family} (hg : g.Part) (k : Nat) :
    g.openAt ks k = (enclosing ks k).filter (holds g.opens ks) := by
  have up : ∀ {p q : Kind → Bool} {n}, (∀ k, p k = true → q k = true) →
      holds q ks n = false → holds p ks n = false := by
    intro p q n hpq hq
    cases hp : holds p ks n with
    | false => rfl
    | true =>
      obtain ⟨c, hc, hpc⟩ := holds_iff.mp hp
      rw [holds_iff.mpr ⟨c, hc, hpq c hpc⟩] at hq
      exact absurd hq (by decide)
  induction k with
  | zero => rfl
  | succ n ih =>
    unfold enclosing at ih ⊢
    cases ho : holds Family.blocks.opens ks n with
    | true =>
      -- what opens a block of another family is filtered out again
      rw [Family.openAt_of_opens ho]
      cases hgo : holds g.opens ks n with
      | true => rw [Family.openAt_of_opens hgo, List.filter_cons_of_pos hgo, ih]
      | false =>
        have hgc := up hg.closes (Family.not_closes_of_opens ho)
        rw [Family.openAt_of_neither hgo hgc, List.filter_cons_of_neg (by simp [hgo]), ih]
    | false =>
      have hgo := up hg.opens ho
      cases hc : holds Family.blocks.closes ks n with
      | false =>
        rw [Family.openAt_of_neither ho hc, Family.openAt_of_neither hgo (up hg.closes hc), ih]
      | true =>
        -- what is closed is of the family exactly when its end is
        obtain ⟨h, hh, hm⟩ := hw.matched hc
        have hs := Family.openAt_of_head? hh
        have hgh := hm g hg
        rw [Family.openAt_of_closes hc, hs, List.tail_cons]
        rw [hs] at ih
        cases hgc : holds g.closes ks n with
        | true =>
          rw [hgc] at hgh
          rw [Family.openAt_of_closes hgc, ih, List.filter_cons_of_pos hgh, List.tail_cons]
        | false =>
          rw [hgc] at hgh
          rw [Family.openAt_of_neither hgo hgc, ih, List.filter_cons_of_neg (by simp [hgh])]

/-! ## Where links lead -/

/-- Of a family's own innermost construct, the common stack knows that it encloses. -/
theorem mem_enclosing (hw : WellNested ks) {g : Family} (hg : g.Part) {h k : Nat}
    (ht : (g.openAt ks k).head? = some h) : h ∈ enclosing ks k ∧ holds g.opens ks h = true := by
  have hm := List.mem_of_head? ht
  rw [hw.openAt_eq hg] at hm
  exact List.mem_filter.mp hm

/-- Where the innermost construct is of a family, it is the innermost of the family. -/
theorem head?_openAt (hw : WellNested ks) {g : Family} (hg : g.Part) {h k : Nat}
    (hh : (enclosing ks k).head? = some h) (ho : holds g.opens ks h = true) :
    (g.openAt ks k).head? = some h := by
  have hs := Family.openAt_of_head? hh
  rw [hw.openAt_eq hg]
  unfold enclosing
  rw [hs, List.filter_cons_of_pos ho]
  rfl

/-- At an end of a family, what the family calls innermost is innermost. -/
theorem enclosing_of_closes (hw : WellNested ks) {g : Family} (hg : g.Part) {h k : Nat}
    (hc : holds g.closes ks k = true) (ht : (g.openAt ks k).head? = some h) :
    enclosing ks k = h :: enclosing ks h := by
  obtain ⟨c, hk, hcc⟩ := holds_iff.mp hc
  obtain ⟨h', hh', hm⟩ := hw.matched (holds_iff.mpr ⟨c, hk, hg.closes c hcc⟩)
  have hgo : holds g.opens ks h' = true := by rw [hm g hg, hc]
  have he : h' = h := by
    have := hw.head?_openAt hg hh' hgo
    rw [ht] at this
    exact (Option.some.inj this).symm
  subst he
  exact Family.openAt_of_head? hh'

theorem enclosing_succ_of_opens {k : Nat} (h : holds Family.blocks.opens ks k = true) :
    enclosing ks (k + 1) = k :: enclosing ks k :=
  Family.openAt_of_opens h

theorem enclosing_succ_of_neither {k : Nat} (ho : holds Family.blocks.opens ks k = false)
    (hc : holds Family.blocks.closes ks k = false) : enclosing ks (k + 1) = enclosing ks k :=
  Family.openAt_of_neither ho hc

/-- After an end, what enclosed the start is what encloses. -/
theorem enclosing_succ_of_closes {h k : Nat} (hc : holds Family.blocks.closes ks k = true)
    (he : enclosing ks k = h :: enclosing ks h) : enclosing ks (k + 1) = enclosing ks h := by
  show Family.blocks.openAt ks (k + 1) = _
  rw [Family.openAt_of_closes hc]
  show (enclosing ks k).tail = _
  rw [he, List.tail_cons]

theorem mem_of_lookup {β : Type} {l : List (Nat × β)} {a : Nat} {b : β}
    (h : l.lookup a = some b) : (a, b) ∈ l := by
  obtain ⟨l₁, l₂, rfl, -⟩ := List.lookup_eq_some_iff.mp h
  exact List.mem_append_right l₁ (List.mem_cons_self ..)

/-- The end of a choice stands in the choice, and in what encloses the choice. -/
theorem choiceEnd (hw : WellNested ks) {c e : Nat}
    (h : (Links.ofKinds ks).choiceEnd? c = some e) :
    holds Family.choices.closes ks e = true ∧ enclosing ks e = c :: enclosing ks c := by
  obtain ⟨hc, ht⟩ := Links.mem_choiceEnds.mp (mem_of_lookup h)
  exact ⟨hc, hw.enclosing_of_closes Family.choices_part hc ht⟩

/-- What stands with a choice as its branch has the choice innermost. -/
theorem branch_of_mem (hw : WellNested ks) {b c : Nat}
    (hb : holds Kind.isBranch ks b = true) (ht : (Family.choices.openAt ks b).head? = some c) :
    enclosing ks b = c :: enclosing ks c := by
  obtain ⟨h, hh, ho⟩ := innermostOf_iff.mp (hw.branches b (lt_length_of_holds hb) hb)
  have he : h = c := by
    have := hw.head?_openAt Family.choices_part hh ho
    rw [ht] at this
    exact (Option.some.inj this).symm
  subst he
  exact Family.openAt_of_head? hh

/-- A branch of a choice stands in the choice, and so does what follows it. -/
theorem branch (hw : WellNested ks) {b c : Nat} (h : b ∈ (Links.ofKinds ks).branchesOf c) :
    holds Kind.isBranch ks b = true ∧ enclosing ks b = c :: enclosing ks c ∧
      enclosing ks (b + 1) = c :: enclosing ks c := by
  unfold Links.branchesOf at h
  obtain ⟨⟨b', c'⟩, hmem, rfl⟩ := List.mem_map.mp h
  obtain ⟨hin, hc⟩ := List.mem_filter.mp hmem
  have hc : c' = c := of_decide_eq_true hc
  subst hc
  obtain ⟨hb, ht⟩ := Links.mem_branches.mp hin
  have he := hw.branch_of_mem hb ht
  refine ⟨hb, he, ?_⟩
  rw [enclosing_succ_of_neither, he]
  · exact not_holds_of_holds (fun k hk => (Family.blocks_of_isBranch k hk).1) hb
  · exact not_holds_of_holds (fun k hk => (Family.blocks_of_isBranch k hk).2) hb

/-- The end that a branch leads to is enclosed like the branch. -/
theorem branchEnd (hw : WellNested ks) {b e : Nat}
    (h : (Links.ofKinds ks).branchEnd? b = some e) : enclosing ks e = enclosing ks b := by
  unfold Links.branchEnd? at h
  obtain ⟨c, hc, he⟩ := Option.bind_eq_some_iff.mp h
  obtain ⟨hb, ht⟩ := Links.mem_branches.mp (mem_of_lookup hc)
  rw [(hw.choiceEnd he).2, hw.branch_of_mem hb ht]

/-- The two ends of a loop, from either of them. -/
theorem loop_of_mem (hw : WellNested ks) {h e : Nat} (hm : (h, e) ∈ (Links.ofKinds ks).loopEnds) :
    holds Kind.isLoopStart ks h = true ∧ holds Family.blocks.closes ks e = true ∧
      enclosing ks e = h :: enclosing ks h := by
  have conclude : ∀ g : Family, g.Part → (∀ k, g.opens k = true → k.isLoopStart = true) →
      holds g.closes ks e = true → (g.openAt ks e).head? = some h →
      holds Kind.isLoopStart ks h = true ∧ holds Family.blocks.closes ks e = true ∧
        enclosing ks e = h :: enclosing ks h := by
    intro g hg hl hc ht
    obtain ⟨o, ho, hoo⟩ := holds_iff.mp (hw.mem_enclosing hg ht).2
    obtain ⟨c, hk, hcc⟩ := holds_iff.mp hc
    exact ⟨holds_iff.mpr ⟨o, ho, hl o hoo⟩, holds_iff.mpr ⟨c, hk, hg.closes c hcc⟩,
      hw.enclosing_of_closes hg hc ht⟩
  rcases Links.mem_loopEnds.mp hm with ⟨hc, ht⟩ | ⟨hc, ht⟩
  · refine conclude .whiles Family.whiles_part (fun k hk => ?_) hc ht
    cases k <;> first | rfl | exact absurd hk (by decide)
  · refine conclude .fors Family.fors_part (fun k hk => ?_) hc ht
    cases k <;> first | rfl | exact absurd hk (by decide)

/-- The end of a loop stands in the loop, and in what encloses the loop. -/
theorem loopEnd (hw : WellNested ks) {h e : Nat} (hl : (Links.ofKinds ks).loopEnd? h = some e) :
    holds Family.blocks.closes ks e = true ∧ enclosing ks e = h :: enclosing ks h :=
  (hw.loop_of_mem (mem_of_lookup hl)).2

/-- The header that an end of a loop leads to is a loop header, and encloses the end innermost. -/
theorem loopHeader (hw : WellNested ks) {h e : Nat}
    (hl : (Links.ofKinds ks).loopHeader? e = some h) :
    holds Kind.isLoopStart ks h = true ∧ enclosing ks e = h :: enclosing ks h := by
  unfold Links.loopHeader? at hl
  obtain ⟨p, hf, rfl⟩ := Option.map_eq_some_iff.mp hl
  have he : p.2 = e := by simpa using List.find?_some hf
  subst he
  have := hw.loop_of_mem (List.mem_of_find?_eq_some hf)
  exact ⟨this.1, this.2.2⟩

/-- A break leads to an end of a loop whose header encloses the break. -/
theorem breakTarget (hw : WellNested ks) {b h e : Nat}
    (hl : (Links.ofKinds ks).breakTarget? b = some (h, e)) :
    h ∈ enclosing ks b ∧ holds Family.blocks.closes ks e = true ∧
      enclosing ks e = h :: enclosing ks h := by
  obtain ⟨-, hb, hc, ht⟩ := Links.mem_breaks.mp (mem_of_lookup hl)
  rw [Linking.breaksOut, Bool.and_eq_true, decide_eq_true_eq] at hb
  obtain ⟨c, hk, hcc⟩ := holds_iff.mp hc
  exact ⟨(hw.mem_enclosing Family.loops_part hb.2).1,
    holds_iff.mpr ⟨c, hk, Family.loops_part.closes c hcc⟩,
    hw.enclosing_of_closes Family.loops_part hc ht⟩

/-- A continue leads to a loop header that encloses it. -/
theorem continueTarget (hw : WellNested ks) {k h : Nat}
    (hl : (Links.ofKinds ks).continueTarget? k = some h) :
    h ∈ enclosing ks k ∧ holds Kind.isLoopStart ks h = true := by
  obtain ⟨-, ht⟩ := Links.mem_continues.mp (mem_of_lookup hl)
  exact hw.mem_enclosing Family.loops_part ht

end WellNested

end Cadence
