/-
  COUNTING — the links of a list of statements, told without any stack.

  Scripts are written against depth counters: from an opening on, count openings and closings of the
  family, and the first closing at which more was closed than opened is its end.  This file defines
  every link that way, by scanning forwards (`endFrom?`) or backwards (`lastBefore`), each family
  with its own count, and proves that the pass with its four stacks finds exactly these links, for
  EVERY list of statements: families may cross, ends and branches may be stray, loops may stay open.

  1. **The scans** — `endFrom?` and `innermost?`, and what they find on the stacks of `Depth`.

  2. **The links by counting** — one definition for each kind of link.

  3. **The pass** — `Linking` gathers the links position by position; each list is the graph of a
     partial function, so that looking up a position and being in the list are the same.

  4. **The theorem** — `ofKinds_eq_counting`.
-/
import Cadence.Proofs.Nesting.Linking

namespace Cadence

/-! ## Scans -/

namespace Counting

variable (f : Family) (ks : List (Option Kind))

/-- The first closing from `a` on at which more was closed than opened since `a`. -/
def endFrom? (a : Nat) : Option Nat :=
  (List.range' a (ks.length - a)).find? fun j =>
    holds f.closes ks j && within f.opens ks a (j + 1) < within f.closes ks a (j + 1)

/-- The last position before `n` with a property. -/
def lastBefore (p : Nat → Bool) : Nat → Option Nat
  | 0 => none
  | n + 1 => if p n then some n else lastBefore p n

/-- The nearest opening before `n` whose end, if it has one, does not come before `n`. -/
def innermost? (n : Nat) : Option Nat :=
  lastBefore (fun h => holds f.opens ks h && (endFrom? f ks (h + 1)).all (n ≤ ·)) n

variable {f ks}

/-- The scan forwards finds where the counter is over for the first time. -/
theorem endFrom?_eq_some_iff {a j : Nat} : endFrom? f ks a = some j ↔ f.First ks a j := by
  rw [endFrom?, List.find?_range'_eq_some]
  simp only [Bool.and_eq_true, decide_eq_true_eq, List.mem_range'_1]
  constructor
  · rintro ⟨⟨hc, ho⟩, ⟨haj, -⟩, hmin⟩
    refine ⟨haj, ?_, ho⟩
    rcases Family.quiet_or_first f ks a j with hq | ⟨m, hmj, hf⟩
    · exact hq
    · have hm := hmin m hf.1 hmj
      have hover : within f.opens ks a (m + 1) < within f.closes ks a (m + 1) := hf.2.2
      rw [hf.closes, Bool.true_and, decide_eq_true hover] at hm
      exact absurd hm (by decide)
  · intro hf
    have hj := lt_length_of_holds hf.closes
    refine ⟨⟨hf.closes, hf.2.2⟩, ⟨hf.1, by have := hf.1; omega⟩, ?_⟩
    intro m ham hmj
    have hn : ¬ within f.opens ks a (m + 1) < within f.closes ks a (m + 1) := hf.2.1 m ham hmj
    rw [decide_eq_false hn, Bool.and_false]
    rfl

/-- The counter is not over before `n` when the scan finds no end before `n`. -/
theorem quiet_iff_all {a n : Nat} :
    f.Quiet ks a n ↔ (endFrom? f ks a).all (n ≤ ·) = true := by
  constructor
  · intro hq
    cases he : endFrom? f ks a with
    | none => rfl
    | some j =>
      obtain ⟨haj, -, ho⟩ := endFrom?_eq_some_iff.mp he
      rcases Nat.lt_or_ge j n with hjn | hnj
      · exact absurd ho (hq j haj hjn)
      · simpa using hnj
  · intro ha
    rcases Family.quiet_or_first f ks a n with hq | ⟨j, hjn, hf⟩
    · exact hq
    · rw [endFrom?_eq_some_iff.mpr hf, Option.all_some, decide_eq_true_eq] at ha
      omega

theorem lastBefore_eq_none {p : Nat → Bool} {n : Nat} (h : ∀ m, m < n → p m = false) :
    lastBefore p n = none := by
  induction n with
  | zero => rfl
  | succ n ih =>
    rw [lastBefore, if_neg (by simp [h n (Nat.lt_succ_self n)])]
    exact ih fun m hm => h m (Nat.lt_succ_of_lt hm)

theorem lastBefore_eq_some {p : Nat → Bool} {h n : Nat} (hn : h < n) (hp : p h = true)
    (hno : ∀ m, h < m → m < n → p m = false) : lastBefore p n = some h := by
  induction n with
  | zero => exact absurd hn (Nat.not_lt_zero h)
  | succ n ih =>
    rcases Nat.lt_or_eq_of_le (Nat.le_of_lt_succ hn) with hlt | rfl
    · rw [lastBefore, if_neg (by simp [hno n hlt (Nat.lt_succ_self n)])]
      exact ih hlt fun m hhm hmn => hno m hhm (Nat.lt_succ_of_lt hmn)
    · rw [lastBefore, if_pos hp]

/-- **The scan backwards.** What it finds is on top of the stack. -/
theorem innermost?_eq (n : Nat) : innermost? f ks n = (f.openAt ks n).head? := by
  have hmem (h : Nat) : h ∈ f.openAt ks n ↔
      h < n ∧ (holds f.opens ks h && (endFrom? f ks (h + 1)).all (n ≤ ·)) = true := by
    rw [Family.mem_openAt_iff, Bool.and_eq_true, quiet_iff_all]
  have hd := Family.openAt_descending f ks n
  cases ho : f.openAt ks n with
  | nil =>
    refine lastBefore_eq_none fun m hm => ?_
    rw [Bool.eq_false_iff]
    intro hp
    have hin := (hmem m).mpr ⟨hm, hp⟩
    rw [ho] at hin
    exact absurd hin List.not_mem_nil
  | cons h rest =>
    have hh := (hmem h).mp (ho ▸ List.mem_cons_self ..)
    refine lastBefore_eq_some hh.1 hh.2 fun m hhm hm => ?_
    rw [Bool.eq_false_iff]
    intro hp
    have hin := (hmem m).mpr ⟨hm, hp⟩
    rw [ho] at hin hd
    rcases List.mem_cons.mp hin with rfl | hin
    · exact absurd hhm (Nat.lt_irrefl m)
    · exact absurd ((List.pairwise_cons.mp hd).1 m hin) (by omega)

/-! ## The links by counting -/

variable (ks)

/-- The end of a choice: the first `endif` with more `endif` than `if` since the choice. -/
def choiceEnd? (i : Nat) : Option Nat :=
  if holds Family.choices.opens ks i then endFrom? Family.choices ks (i + 1) else none

/-- The branches of a choice: those after it and before its end with as many `if` as `endif` in
between. -/
def branchesOf (i : Nat) : List Nat :=
  if holds Family.choices.opens ks i then
    (List.range ks.length).filter fun k =>
      holds Kind.isBranch ks k && i < k && (endFrom? Family.choices ks (i + 1)).all (k < ·) &&
        within Family.choices.opens ks (i + 1) k = within Family.choices.closes ks (i + 1) k
  else []

/-- The end of a loop, counted in its own family. -/
def loopEnd? (h : Nat) : Option Nat :=
  if holds Family.whiles.opens ks h then endFrom? Family.whiles ks (h + 1)
  else if holds Family.fors.opens ks h then endFrom? Family.fors ks (h + 1)
  else none

/-- The header that a continue goes back to: the nearest that is still open, all loops counted
together. -/
def continueTarget? (k : Nat) : Option Nat :=
  if holds (· = .continueLoop) ks k then innermost? Family.loops ks k else none

/-- The header of the loop that a break leaves, as for a continue, and the first loop end with more
ends than headers since the break. -/
def breakTarget? (b : Nat) : Option (Nat × Nat) :=
  if holds (· = .breakLoop) ks b then
    (innermost? Family.loops ks b).bind fun h =>
      (endFrom? Family.loops ks (b + 1)).map fun j => (h, j)
  else none

variable {ks}

/-- A counted end is the closing at which the opening lies on top of the stack. -/
theorem endFrom?_of_opens {i j : Nat} (hi : holds f.opens ks i = true) :
    endFrom? f ks (i + 1) = some j ↔
      holds f.closes ks j = true ∧ (f.openAt ks j).head? = some i := by
  have hin : (f.openAt ks (i + 1)).head? = some i := by
    rw [Family.openAt_of_opens hi, List.head?_cons]
  rw [endFrom?_eq_some_iff, Family.first_iff_closed hin]
  constructor
  · rintro ⟨-, hc, ht⟩
    exact ⟨hc, ht⟩
  · rintro ⟨hc, ht⟩
    exact ⟨(Family.mem_openAt (List.mem_of_head? ht)).1, hc, ht⟩

end Counting

/-! ## Looking up in a list of pairs -/

/-- In a list that is the graph of a partial function, looking up is applying the function. -/
theorem lookup_of_graph {β : Type} {l : List (Nat × β)} {g : Nat → Option β}
    (hg : ∀ a v, (a, v) ∈ l ↔ g a = some v) (a : Nat) : l.lookup a = g a := by
  have hmem {v : β} (hv : l.lookup a = some v) : (a, v) ∈ l := by
    obtain ⟨l₁, l₂, rfl, -⟩ := List.lookup_eq_some_iff.mp hv
    exact List.mem_append_right l₁ (List.mem_cons_self ..)
  cases hl : l.lookup a with
  | some v => exact ((hg a v).mp (hmem hl)).symm
  | none =>
    cases ha : g a with
    | none => rfl
    | some v =>
      have hne := List.lookup_eq_none_iff.mp hl (a, v) ((hg a v).mpr ha)
      simp at hne

/-- Looking for a second component finds the pair, when no other pair has it. -/
theorem find?_snd_eq_some_iff {l : List (Nat × Nat)} {a b : Nat}
    (hb : ∀ c c', (c, b) ∈ l → (c', b) ∈ l → c = c') :
    (l.find? fun e => e.2 = b).map Prod.fst = some a ↔ (a, b) ∈ l := by
  constructor
  · intro h
    obtain ⟨⟨c, d⟩, hf, rfl⟩ := Option.map_eq_some_iff.mp h
    have hd : d = b := by simpa using List.find?_some hf
    exact hd ▸ List.mem_of_find?_eq_some hf
  · intro hm
    cases hf : l.find? fun e => e.2 = b with
    | none =>
      have hne := List.find?_eq_none.mp hf (a, b) hm
      simp at hne
    | some e =>
      obtain ⟨c, d⟩ := e
      have hd : d = b := by simpa using List.find?_some hf
      have hin : (c, b) ∈ l := hd ▸ List.mem_of_find?_eq_some hf
      rw [Option.map_some, hb c a hin hm]

/-! ## The lists of the pass as graphs -/

namespace Links

variable {ks : List (Option Kind)}

/-- A pair of an opening and its end, in the list of the pass and by counting. -/
theorem counted_iff {f : Family} {i j : Nat} :
    (holds f.closes ks j = true ∧ (f.openAt ks j).head? = some i) ↔
      holds f.opens ks i = true ∧ Counting.endFrom? f ks (i + 1) = some j := by
  constructor
  · rintro ⟨hc, ht⟩
    have hi := (Family.mem_openAt (List.mem_of_head? ht)).2
    exact ⟨hi, (Counting.endFrom?_of_opens hi).mpr ⟨hc, ht⟩⟩
  · rintro ⟨hi, he⟩
    exact (Counting.endFrom?_of_opens hi).mp he

theorem choiceEnds_graph (i j : Nat) :
    (i, j) ∈ (ofKinds ks).choiceEnds ↔ Counting.choiceEnd? ks i = some j := by
  rw [mem_choiceEnds, counted_iff, Counting.choiceEnd?]
  split
  · rename_i hi
    exact ⟨fun h => h.2, fun h => ⟨hi, h⟩⟩
  · rename_i hi
    exact ⟨fun h => absurd h.1 hi, fun h => absurd h (by simp)⟩

theorem loopEnds_graph (h j : Nat) :
    (h, j) ∈ (ofKinds ks).loopEnds ↔ Counting.loopEnd? ks h = some j := by
  have hapart : ∀ k, Family.whiles.opens k = true → Family.fors.opens k = false := by
    intro k
    cases k <;> decide
  rw [mem_loopEnds, counted_iff, counted_iff, Counting.loopEnd?]
  by_cases hw : holds Family.whiles.opens ks h = true
  · simp [hw, not_holds_of_holds hapart hw]
  · by_cases hf : holds Family.fors.opens ks h = true <;> simp [hw, hf]

theorem continues_graph (k h : Nat) :
    (k, h) ∈ (ofKinds ks).continues ↔ Counting.continueTarget? ks k = some h := by
  rw [mem_continues, Counting.continueTarget?, Counting.innermost?_eq]
  by_cases hc : holds (· = .continueLoop) ks k = true <;> simp [hc]

theorem breaks_graph (b : Nat) (e : Nat × Nat) :
    (b, e) ∈ (ofKinds ks).breaks ↔ Counting.breakTarget? ks b = some e := by
  obtain ⟨h, j⟩ := e
  rw [mem_breaks, Counting.breakTarget?, Counting.innermost?_eq, Linking.breaksOut]
  by_cases hb : holds (· = .breakLoop) ks b = true
  · -- a break neither opens nor closes a loop, so the counter that starts after it starts where
    -- its own loop is innermost
    have hsame : Family.loops.openAt ks (b + 1) = Family.loops.openAt ks b :=
      Family.openAt_of_neither (not_holds_of_holds (fun k hk => (Family.loops_of_breakLoop k hk).1) hb)
        (not_holds_of_holds (fun k hk => (Family.loops_of_breakLoop k hk).2) hb)
    simp only [hb, Bool.true_and, decide_eq_true_eq, if_true]
    constructor
    · rintro ⟨hbj, hin, hc, ht⟩
      have hf : Counting.endFrom? Family.loops ks (b + 1) = some j :=
        Counting.endFrom?_eq_some_iff.mpr
          ((Family.first_iff_closed (by rw [hsame]; exact hin)).mpr ⟨hbj, hc, ht⟩)
      rw [hin, Option.bind_some, hf, Option.map_some]
    · intro he
      obtain ⟨h', hin, he⟩ := Option.bind_eq_some_iff.mp he
      obtain ⟨j', hf, he⟩ := Option.map_eq_some_iff.mp he
      obtain ⟨rfl, rfl⟩ := Prod.mk.inj he
      obtain ⟨hbj, hc, ht⟩ := (Family.first_iff_closed (by rw [hsame]; exact hin)).mp
        (Counting.endFrom?_eq_some_iff.mp hf)
      exact ⟨hbj, hin, hc, ht⟩
  · simp [hb]

/-- A statement is a branch of a choice for the pass when it is one by counting. -/
theorem branchesOf_graph {i k : Nat} (hi : holds Family.choices.opens ks i = true) :
    (holds Kind.isBranch ks k = true ∧ (Family.choices.openAt ks k).head? = some i) ↔
      (holds Kind.isBranch ks k && i < k &&
        (Counting.endFrom? Family.choices ks (i + 1)).all (k < ·) &&
        within Family.choices.opens ks (i + 1) k =
          within Family.choices.closes ks (i + 1) k) = true := by
  simp only [Bool.and_eq_true, decide_eq_true_eq]
  constructor
  · rintro ⟨hb, ht⟩
    obtain ⟨hik, hq, he⟩ := (Family.head?_openAt_iff hi).mp ht
    refine ⟨⟨⟨hb, hik⟩, ?_⟩, he.symm⟩
    have hall := Counting.quiet_iff_all.mp hq
    cases hend : Counting.endFrom? Family.choices ks (i + 1) with
    | none => rfl
    | some j =>
      -- the end is no branch, so it does not come at the branch itself
      have hc := (Counting.endFrom?_eq_some_iff.mp hend).closes
      rw [hend, Option.all_some, decide_eq_true_eq] at hall
      rw [Option.all_some, decide_eq_true_eq]
      have hapart : ∀ k, Kind.isBranch k = true → Family.choices.closes k = false := by
        intro k
        cases k <;> decide
      have hne : k ≠ j := by
        rintro rfl
        rw [not_holds_of_holds hapart hb] at hc
        exact absurd hc (by decide)
      omega
  · rintro ⟨⟨⟨hb, hik⟩, hall⟩, he⟩
    have hle : (Counting.endFrom? Family.choices ks (i + 1)).all (k ≤ ·) = true := by
      cases hend : Counting.endFrom? Family.choices ks (i + 1) with
      | none => rfl
      | some j =>
        rw [hend, Option.all_some, decide_eq_true_eq] at hall
        rw [Option.all_some, decide_eq_true_eq]
        omega
    exact ⟨hb, (Family.head?_openAt_iff hi).mpr ⟨hik, Counting.quiet_iff_all.mpr hle, he.symm⟩⟩

/-- The branches of a choice come in the order of the list. -/
theorem branchesOf_eq_filter (i : Nat) : (ofKinds ks).branchesOf i =
    (List.range ks.length).filter fun k =>
      holds Kind.isBranch ks k && (Family.choices.openAt ks k).head? = some i := by
  rw [branchesOf, branches_ofKinds, List.filter_filterMap, List.map_filterMap,
    ← List.filterMap_eq_filter]
  refine congrArg (fun g => List.filterMap g _) (funext fun k => ?_)
  rw [Linking.branchAt]
  cases hb : holds Kind.isBranch ks k with
  | false => simp [Option.guard, hb]
  | true =>
    cases ht : (Family.choices.openAt ks k).head? with
    | none => simp [Option.guard, hb, ht]
    | some c => by_cases hc : c = i <;> simp [Option.guard, Option.filter, hb, ht, hc]

theorem branchesOf_eq (i : Nat) : (ofKinds ks).branchesOf i = Counting.branchesOf ks i := by
  rw [branchesOf_eq_filter, Counting.branchesOf]
  by_cases hi : holds Family.choices.opens ks i = true
  · rw [if_pos hi]
    refine List.filter_congr fun k _ => Bool.eq_iff_iff.mpr ?_
    rw [← branchesOf_graph hi, Bool.and_eq_true, decide_eq_true_eq]
  · rw [if_neg hi]
    refine List.filter_eq_nil_iff.mpr fun k _ hk => ?_
    rw [Bool.and_eq_true, decide_eq_true_eq] at hk
    exact hi (Family.mem_openAt (List.mem_of_head? hk.2)).2

/-- The choice of a branch is looked up among the pairs that `mem_branches` describes. -/
theorem choiceOf?_eq_some_iff {k i : Nat} :
    (ofKinds ks).choiceOf? k = some i ↔ (k, i) ∈ (ofKinds ks).branches := by
  have hg (m c : Nat) : (m, c) ∈ (ofKinds ks).branches ↔
      (if holds Kind.isBranch ks m then (Family.choices.openAt ks m).head? else none) = some c := by
    rw [mem_branches]
    by_cases hb : holds Kind.isBranch ks m = true <;> simp [hb]
  rw [choiceOf?, lookup_of_graph hg, hg]

/-- An end closes one loop only. -/
theorem loopEnds_unique {h h' j : Nat} (hm : (h, j) ∈ (ofKinds ks).loopEnds)
    (hm' : (h', j) ∈ (ofKinds ks).loopEnds) : h = h' := by
  rcases mem_loopEnds.mp hm with ⟨hc, ht⟩ | ⟨hc, ht⟩ <;>
    rcases mem_loopEnds.mp hm' with ⟨hc', ht'⟩ | ⟨hc', ht'⟩
  · exact Option.some.inj (ht.symm.trans ht')
  · exact absurd hc' (by simp [not_holds_of_holds whiles_closes_apart hc])
  · exact absurd hc (by simp [not_holds_of_holds whiles_closes_apart hc'])
  · exact Option.some.inj (ht.symm.trans ht')

/-! ## The theorem -/

/-- **The pass is the depth counter.** For every list of statements, balanced or not, every link
that the pass finds is the one that counting finds, and it finds no other.

1. Every `if` is a choice; its end and its branches are found by counting `if` and `endif`.
2. A branch belongs to a choice when it is one of the choice's branches.
3. Loops are ended by counting within their own family, and the header of an end is the one that it
   ends.
4. A continue goes back to the nearest loop header still open; a break leaves that same loop, to the
   first end at which ends exceed headers since the break. -/
theorem ofKinds_eq_counting (ks : List (Option Kind)) :
    (ofKinds ks).choices = (List.range ks.length).filter (holds (· = .ifStart) ks) ∧
    (∀ i, (ofKinds ks).choiceEnd? i = Counting.choiceEnd? ks i) ∧
    (∀ i, (ofKinds ks).branchesOf i = Counting.branchesOf ks i) ∧
    (∀ k i, (ofKinds ks).choiceOf? k = some i ↔ k ∈ Counting.branchesOf ks i) ∧
    (∀ h, (ofKinds ks).loopEnd? h = Counting.loopEnd? ks h) ∧
    (∀ j h, (ofKinds ks).loopHeader? j = some h ↔ Counting.loopEnd? ks h = some j) ∧
    (∀ k, (ofKinds ks).continueTarget? k = Counting.continueTarget? ks k) ∧
    (∀ b, (ofKinds ks).breakTarget? b = Counting.breakTarget? ks b) := by
  refine ⟨choices_ofKinds, ?_, branchesOf_eq, ?_, ?_, ?_, ?_, ?_⟩
  · exact lookup_of_graph choiceEnds_graph
  · intro k i
    rw [choiceOf?_eq_some_iff, ← branchesOf_eq, branchesOf]
    simp
  · exact lookup_of_graph loopEnds_graph
  · intro j h
    rw [loopHeader?, find?_snd_eq_some_iff fun c c' hc hc' => loopEnds_unique hc hc']
    exact loopEnds_graph h j
  · exact lookup_of_graph continues_graph
  · exact lookup_of_graph breaks_graph

/-- `for … break … endwhile … endfor`: the break leaves by the first end, of another family. -/
example :
    (ofKinds [some .forStart, some .breakLoop, some .whileEnd, some .forEnd]).breakTarget? 1 =
      some (0, 2) := by decide

end Links

end Cadence
