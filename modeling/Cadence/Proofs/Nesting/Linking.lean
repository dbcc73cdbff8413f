/-
  LINKING — what the pass over a list of statements has found and still holds open.

  The pass that links statements keeps four stacks and appends to its lists as it goes.  Here its
  state after `n` statements is written down in one piece (`Linking.upTo`), with no state at all:
  the stacks are those of the four families (`Family.openAt`), every list of links is gathered from
  the positions before `n`, and the breaks that wait for the end of a loop are the breaks before `n`
  at which that loop was innermost.  `run_eq_upTo` says that this IS the state of the pass; what
  follows reads the links off it, one theorem for each list.
-/
import Cadence.Proofs.Nesting.Depth

namespace Cadence

/-! ## The families -/

/-- Choices: `if … endif`. -/
def Family.choices : Family where
  opens k := k = .ifStart
  closes k := k = .ifEnd
  apart k := by cases k <;> decide

/-- Guarded loops: `while … endwhile`. -/
def Family.whiles : Family where
  opens k := k = .whileStart
  closes k := k = .whileEnd
  apart k := by cases k <;> decide

/-- Counted loops and loops over lists: `for … endfor`, `foreach … endfor`. -/
def Family.fors : Family where
  opens k := k = .forStart ∨ k = .forEachStart
  closes k := k = .forEnd
  apart k := by cases k <;> decide

/-- Loops of any kind, as break and continue see them. -/
def Family.loops : Family where
  opens := Kind.isLoopStart
  closes := Kind.isLoopEnd
  apart k := by cases k <;> decide

/-- The first tokens of the further branches of a choice. -/
def Kind.isBranch (k : Kind) : Bool := k = .elseIf ∨ k = .elseStart

/-- A break opens no loop and closes none. -/
theorem Family.loops_of_breakLoop (k : Kind) (h : decide (k = .breakLoop) = true) :
    loops.opens k = false ∧ loops.closes k = false := by
  obtain rfl := of_decide_eq_true h
  exact ⟨rfl, rfl⟩

namespace Linking

variable (ks : List (Option Kind))

/-! ## The state after some statements -/

/-- The branch at a position with the start of the choice it stands in. -/
def branchAt (k : Nat) : Option (Nat × Nat) :=
  if holds Kind.isBranch ks k then (Family.choices.openAt ks k).head?.map fun c => (k, c) else none

/-- The choice that ends at a position. -/
def choiceEndAt (j : Nat) : Option (Nat × Nat) :=
  if holds Family.choices.closes ks j then
    (Family.choices.openAt ks j).head?.map fun c => (c, j)
  else none

/-- The loop that ends at a position. -/
def loopEndAt (j : Nat) : Option (Nat × Nat) :=
  if holds Family.whiles.closes ks j then (Family.whiles.openAt ks j).head?.map fun h => (h, j)
  else if holds Family.fors.closes ks j then (Family.fors.openAt ks j).head?.map fun h => (h, j)
  else none

/-- Is there a break at a position, with `h` the innermost loop? -/
def breaksOut (h b : Nat) : Bool :=
  holds (· = .breakLoop) ks b && (Family.loops.openAt ks b).head? = some h

/-- The breaks before a position with `h` the innermost loop. -/
def waiting (n h : Nat) : List Nat := (List.range n).filter (breaksOut ks h)

/-- The breaks that the loop end at a position lets go. -/
def breaksAt (j : Nat) : List (Nat × (Nat × Nat)) :=
  if holds Family.loops.closes ks j then
    match Family.loops.openAt ks j with
    | [] => []
    | h :: _ => (waiting ks j h).map fun b => (b, (h, j))
  else []

/-- The continue at a position with the header of the innermost loop. -/
def continueAt (k : Nat) : Option (Nat × Nat) :=
  if holds (· = .continueLoop) ks k then (Family.loops.openAt ks k).head?.map fun h => (k, h)
  else none

/-- The state of the pass after `n` statements. -/
def upTo (n : Nat) : Linking where
  links :=
    { choices := (List.range n).filter (holds Family.choices.opens ks)
      branches := (List.range n).filterMap (branchAt ks)
      choiceEnds := (List.range n).filterMap (choiceEndAt ks)
      loopEnds := (List.range n).filterMap (loopEndAt ks)
      breaks := (List.range n).flatMap (breaksAt ks)
      continues := (List.range n).filterMap (continueAt ks) }
  openChoices := Family.choices.openAt ks n
  openWhiles := Family.whiles.openAt ks n
  openFors := Family.fors.openAt ks n
  openLoops := (Family.loops.openAt ks n).map fun h => (h, waiting ks n h)

variable {ks}

theorem upTo_zero : upTo ks 0 = {} := rfl

/-! ## One statement more -/

theorem holds_eq {p : Kind → Bool} {n : Nat} {k : Option Kind} (hk : ks[n]?.join = k) :
    holds p ks n = k.any p := by
  rw [holds, hk]

/-- A loop is innermost only after its header. -/
theorem lt_of_breaksOut {h b : Nat} (hb : breaksOut ks h b = true) : h < b := by
  rw [breaksOut, Bool.and_eq_true, decide_eq_true_eq] at hb
  exact (Family.mem_openAt (List.mem_of_head? hb.2)).1

/-- A statement that is no break waits for nothing. -/
theorem waiting_succ_of_not {n h : Nat} (hn : holds (· = .breakLoop) ks n = false) :
    waiting ks (n + 1) h = waiting ks n h := by
  rw [waiting, List.range_succ, List.filter_append, waiting]
  simp [breaksOut, hn]

/-- A break waits for the end of the innermost loop. -/
theorem waiting_succ_of_break {n h : Nat} (hn : holds (· = .breakLoop) ks n = true) :
    waiting ks (n + 1) h =
      waiting ks n h ++ if (Family.loops.openAt ks n).head? = some h then [n] else [] := by
  rw [waiting, List.range_succ, List.filter_append, waiting]
  by_cases hh : (Family.loops.openAt ks n).head? = some h <;> simp [breaksOut, hn, hh]

/-- Nothing waits for the end of a loop that is only just opened. -/
theorem waiting_self (n : Nat) : waiting ks n n = [] := by
  refine List.filter_eq_nil_iff.mpr ?_
  intro b hb hw
  have hlt := lt_of_breaksOut hw
  have hbn := List.mem_range.mp hb
  omega

/-- A break is noted with the innermost loop. -/
def noteBreak (b : Nat) : List (Nat × List Nat) → List (Nat × List Nat)
  | [] => []
  | (h, bs) :: rest => (h, bs ++ [b]) :: rest

/-- What the pass does with a statement, list by list and stack by stack. -/
theorem meet_some (s : Linking) (i : Nat) (k : Kind) :
    s.meet i (some k) =
      { links :=
          { choices := s.links.choices ++ if Family.choices.opens k then [i] else []
            branches := s.links.branches ++
              (if k.isBranch then s.openChoices.head?.map fun c => (i, c) else none).toList
            choiceEnds := s.links.choiceEnds ++
              (if Family.choices.closes k then s.openChoices.head?.map fun c => (c, i)
                else none).toList
            loopEnds := s.links.loopEnds ++
              (if Family.whiles.closes k then s.openWhiles.head?.map fun h => (h, i)
                else if Family.fors.closes k then s.openFors.head?.map fun h => (h, i)
                else none).toList
            breaks := s.links.breaks ++
              if Family.loops.closes k then
                match s.openLoops with
                | [] => []
                | (h, bs) :: _ => bs.map fun b => (b, (h, i))
              else []
            continues := s.links.continues ++
              (if k = .continueLoop then s.openLoops.head?.map fun l => (i, l.1)
                else none).toList }
        openChoices := if Family.choices.opens k then i :: s.openChoices
          else if Family.choices.closes k then s.openChoices.tail else s.openChoices
        openWhiles := if Family.whiles.opens k then i :: s.openWhiles
          else if Family.whiles.closes k then s.openWhiles.tail else s.openWhiles
        openFors := if Family.fors.opens k then i :: s.openFors
          else if Family.fors.closes k then s.openFors.tail else s.openFors
        openLoops := if Family.loops.opens k then (i, []) :: s.openLoops
          else if Family.loops.closes k then s.openLoops.tail
          else if k = .breakLoop then noteBreak i s.openLoops else s.openLoops } := by
  obtain ⟨links, choices, whiles, fors, loops⟩ := s
  cases k with
  | elseIf | elseStart | ifEnd =>
    cases choices <;> simp [meet, partner, escape, Family.choices, Family.whiles, Family.fors,
      Family.loops, Kind.isBranch, Kind.isLoopStart, Kind.isLoopEnd]
  | whileEnd =>
    cases whiles <;> cases loops <;> simp [meet, partner, escape, Family.choices, Family.whiles,
      Family.fors, Family.loops, Kind.isBranch, Kind.isLoopStart, Kind.isLoopEnd]
  | forEnd =>
    cases fors <;> cases loops <;> simp [meet, partner, escape, Family.choices, Family.whiles,
      Family.fors, Family.loops, Kind.isBranch, Kind.isLoopStart, Kind.isLoopEnd]
  | breakLoop | continueLoop =>
    cases loops <;> simp [meet, partner, escape, Family.choices, Family.whiles, Family.fors,
      Family.loops, Kind.isBranch, Kind.isLoopStart, Kind.isLoopEnd, noteBreak]
  | _ => simp [meet, partner, escape, Family.choices, Family.whiles, Family.fors,
      Family.loops, Kind.isBranch, Kind.isLoopStart, Kind.isLoopEnd]

/-- The state after an empty statement is the state before it. -/
theorem upTo_succ_of_none {n : Nat} (hk : ks[n]?.join = none) :
    upTo ks (n + 1) = upTo ks n := by
  have hold (p : Kind → Bool) : holds p ks n = false := holds_eq hk
  have hwait (h : Nat) : waiting ks (n + 1) h = waiting ks n h := waiting_succ_of_not (hold _)
  simp [upTo, List.range_succ, List.filterMap_append, hold, Family.openAt,
    branchAt, choiceEndAt, loopEndAt, breaksAt, continueAt, hwait]

/-- The loops with their waiting breaks after one statement more. -/
theorem openLoops_succ {n : Nat} {k : Kind} (hk : ks[n]?.join = some k) :
    (upTo ks (n + 1)).openLoops =
      if Family.loops.opens k then (n, []) :: (upTo ks n).openLoops
      else if Family.loops.closes k then (upTo ks n).openLoops.tail
      else if k = .breakLoop then noteBreak n (upTo ks n).openLoops
      else (upTo ks n).openLoops := by
  have hold (p : Kind → Bool) : holds p ks n = p k := holds_eq hk
  simp only [upTo, Family.openAt, hold]
  by_cases hb : k = .breakLoop
  · have hbreak : holds (· = .breakLoop) ks n = true := by simp [hold, hb]
    have hd := Family.openAt_descending Family.loops ks n
    have hw := fun h => waiting_succ_of_break (h := h) hbreak
    subst hb
    cases ho : Family.loops.openAt ks n with
    | nil => rfl
    | cons h rest =>
      -- only the innermost loop gets the break, for no other has its header
      rw [ho, List.pairwise_cons] at hd
      have hrest : ∀ h' ∈ rest, waiting ks (n + 1) h' = waiting ks n h' := by
        intro h' hm
        have hne : h ≠ h' := fun he => absurd (hd.1 h' hm) (by omega)
        rw [hw, ho, List.head?_cons, if_neg (by simpa using hne), List.append_nil]
      have hh : waiting ks (n + 1) h = waiting ks n h ++ [n] := by
        rw [hw, ho, List.head?_cons, if_pos rfl]
      show (h, waiting ks (n + 1) h) :: rest.map (fun h' => (h', waiting ks (n + 1) h')) =
        (h, waiting ks n h ++ [n]) :: rest.map fun h' => (h', waiting ks n h')
      rw [hh, List.map_congr_left fun h' hm => by rw [hrest h' hm]]
  · have hw (h : Nat) : waiting ks (n + 1) h = waiting ks n h :=
      waiting_succ_of_not (by simp [hold, hb])
    simp only [hw, if_neg hb]
    split
    · rw [List.map_cons, waiting_self]
    · split
      · rw [List.map_tail]
      · rfl

/-- **One statement.** The pass goes from the state after `n` statements to the one after
`n + 1`. -/
theorem meet_upTo (n : Nat) : (upTo ks n).meet n ks[n]?.join = upTo ks (n + 1) := by
  cases hk : ks[n]?.join with
  | none => exact (upTo_succ_of_none hk).symm
  | some k =>
    have hold (p : Kind → Bool) : holds p ks n = p k := holds_eq hk
    have hone {α : Type} (f : Nat → Option α) : [n].filterMap f = (f n).toList := by
      cases hf : f n <;> simp [hf]
    have hloops := openLoops_succ hk
    rw [meet_some]
    simp only [upTo, List.range_succ, List.filter_append, List.filterMap_append,
      List.flatMap_append, hone, Linking.mk.injEq, Links.mk.injEq, Family.openAt, hold, branchAt,
      choiceEndAt, loopEndAt, continueAt] at hloops ⊢
    refine ⟨⟨?_, trivial, trivial, trivial, ?_, ?_⟩, trivial, trivial, trivial, hloops.symm⟩
    · by_cases ho : Family.choices.opens k <;> simp [ho, hold]
    · rw [List.flatMap_singleton, breaksAt, hold]
      cases Family.loops.openAt ks n <;> rfl
    · by_cases hc : k = .continueLoop <;> cases Family.loops.openAt ks n <;> simp [hc]

/-- The pass from the state after `n` statements on ends in the state after all of them. -/
theorem run_upTo (n : Nat) (rest : List (Option Kind)) (h : ks.drop n = rest) :
    (upTo ks n).run n rest = upTo ks (n + rest.length) := by
  induction rest generalizing n with
  | nil => rfl
  | cons k rest ih =>
    have hk : ks[n]?.join = k := by
      have hget : ks[n]? = some k := by rw [← List.head?_drop, h, List.head?_cons]
      rw [hget]
      rfl
    have hrest : ks.drop (n + 1) = rest := by rw [← List.tail_drop, h, List.tail_cons]
    rw [run, ← hk, meet_upTo, ih (n + 1) hrest, List.length_cons]
    congr 1
    omega

/-- **The pass in one piece.** What the pass finds is what can be gathered position by position. -/
theorem links_eq_upTo (ks : List (Option Kind)) :
    Links.ofKinds ks = (upTo ks ks.length).links := by
  have h := run_upTo 0 ks List.drop_zero
  rw [Nat.zero_add] at h
  rw [Links.ofKinds, ← h, upTo_zero]

theorem map_fst_eq_some_iff {o : Option Nat} {m a b : Nat} :
    (o.map fun c => (c, m)) = some (a, b) ↔ m = b ∧ o = some a := by
  cases o <;> simp [and_comm]

theorem map_snd_eq_some_iff {o : Option Nat} {m a b : Nat} :
    (o.map fun c => (m, c)) = some (a, b) ↔ m = a ∧ o = some b := by
  cases o <;> simp

/-- A pair is gathered when some position gives it; only positions of the list give pairs. -/
theorem mem_gathered {f : Nat → Option (Nat × Nat)} {e : Nat × Nat} {n : Nat}
    (hf : ∀ m, f m = some e → m < n) : e ∈ (List.range n).filterMap f ↔ ∃ m, f m = some e := by
  rw [List.mem_filterMap]
  constructor
  · rintro ⟨m, -, hm⟩
    exact ⟨m, hm⟩
  · rintro ⟨m, hm⟩
    exact ⟨m, List.mem_range.mpr (hf m hm), hm⟩

end Linking

/-! ## What the lists of links hold -/

namespace Links

open Linking

variable {ks : List (Option Kind)}

/-- The starts of choices, in order. -/
theorem choices_ofKinds :
    (ofKinds ks).choices = (List.range ks.length).filter (holds Family.choices.opens ks) := by
  rw [links_eq_upTo, upTo]

theorem branches_ofKinds :
    (ofKinds ks).branches = (List.range ks.length).filterMap (branchAt ks) := by
  rw [links_eq_upTo, upTo]

/-- A branch stands with the innermost choice. -/
theorem mem_branches {k c : Nat} :
    (k, c) ∈ (ofKinds ks).branches ↔
      holds Kind.isBranch ks k = true ∧ (Family.choices.openAt ks k).head? = some c := by
  have hat (m : Nat) : branchAt ks m = some (k, c) ↔
      m = k ∧ holds Kind.isBranch ks m = true ∧ (Family.choices.openAt ks m).head? = some c := by
    rw [branchAt]
    split
    · rename_i hb
      rw [map_snd_eq_some_iff, and_iff_right hb]
    · rename_i hb
      simp [hb]
  rw [links_eq_upTo, upTo, mem_gathered fun m hm => lt_length_of_holds ((hat m).mp hm).2.1]
  simp only [hat, exists_eq_left]

/-- An `endif` ends the innermost choice. -/
theorem mem_choiceEnds {c j : Nat} :
    (c, j) ∈ (ofKinds ks).choiceEnds ↔
      holds Family.choices.closes ks j = true ∧ (Family.choices.openAt ks j).head? = some c := by
  have hat (m : Nat) : choiceEndAt ks m = some (c, j) ↔
      m = j ∧ holds Family.choices.closes ks m = true ∧
        (Family.choices.openAt ks m).head? = some c := by
    rw [choiceEndAt]
    split
    · rename_i hb
      rw [map_fst_eq_some_iff, and_iff_right hb]
    · rename_i hb
      simp [hb]
  rw [links_eq_upTo, upTo, mem_gathered fun m hm => lt_length_of_holds ((hat m).mp hm).2.1]
  simp only [hat, exists_eq_left]

theorem whiles_closes_apart (k : Kind) (h : Family.whiles.closes k = true) :
    Family.fors.closes k = false := by
  cases k <;> first | rfl | exact absurd h (by decide)

/-- A loop end ends the innermost loop of its own family. -/
theorem mem_loopEnds {h j : Nat} :
    (h, j) ∈ (ofKinds ks).loopEnds ↔
      (holds Family.whiles.closes ks j = true ∧ (Family.whiles.openAt ks j).head? = some h) ∨
      (holds Family.fors.closes ks j = true ∧ (Family.fors.openAt ks j).head? = some h) := by
  have hat (m : Nat) : loopEndAt ks m = some (h, j) ↔
      m = j ∧
      ((holds Family.whiles.closes ks m = true ∧ (Family.whiles.openAt ks m).head? = some h) ∨
      (holds Family.fors.closes ks m = true ∧ (Family.fors.openAt ks m).head? = some h)) := by
    rw [loopEndAt]
    split
    · rename_i hw
      rw [map_fst_eq_some_iff]
      simp [hw, not_holds_of_holds whiles_closes_apart hw]
    · rename_i hw
      split
      · rename_i hc
        rw [map_fst_eq_some_iff]
        simp [hw, hc]
      · rename_i hc
        simp [hw, hc]
  have hlt (m : Nat) (hm : loopEndAt ks m = some (h, j)) : m < ks.length := by
    rcases ((hat m).mp hm).2 with hc | hc
    · exact lt_length_of_holds hc.1
    · exact lt_length_of_holds hc.1
  rw [links_eq_upTo, upTo, mem_gathered hlt]
  simp only [hat, exists_eq_left]

/-- A continue goes back to the innermost loop of any family. -/
theorem mem_continues {k h : Nat} :
    (k, h) ∈ (ofKinds ks).continues ↔
      holds (· = .continueLoop) ks k = true ∧ (Family.loops.openAt ks k).head? = some h := by
  have hat (m : Nat) : continueAt ks m = some (k, h) ↔
      m = k ∧ holds (· = .continueLoop) ks m = true ∧
        (Family.loops.openAt ks m).head? = some h := by
    rw [continueAt]
    split
    · rename_i hb
      rw [map_snd_eq_some_iff, and_iff_right hb]
    · rename_i hb
      simp [hb]
  rw [links_eq_upTo, upTo, mem_gathered fun m hm => lt_length_of_holds ((hat m).mp hm).2.1]
  simp only [hat, exists_eq_left]

/-- A break leaves the loop that is innermost at it, by the end that closes this loop. -/
theorem mem_breaks {b h j : Nat} :
    (b, (h, j)) ∈ (ofKinds ks).breaks ↔
      b < j ∧ breaksOut ks h b = true ∧
        holds Family.loops.closes ks j = true ∧ (Family.loops.openAt ks j).head? = some h := by
  have hat (m : Nat) : (b, (h, j)) ∈ breaksAt ks m ↔
      m = j ∧ b < m ∧ breaksOut ks h b = true ∧
        holds Family.loops.closes ks m = true ∧ (Family.loops.openAt ks m).head? = some h := by
    rw [breaksAt]
    by_cases hc : holds Family.loops.closes ks m = true
    · cases ho : Family.loops.openAt ks m with
      | nil => simp [hc]
      | cons c rest =>
        simp only [hc, if_true, List.mem_map, waiting, List.mem_filter, List.mem_range,
          List.head?_cons, Option.some.injEq, Prod.mk.injEq]
        constructor
        · rintro ⟨b', ⟨hlt, hb⟩, rfl, rfl, rfl⟩
          exact ⟨rfl, hlt, hb, trivial, rfl⟩
        · rintro ⟨rfl, hlt, hb, -, rfl⟩
          exact ⟨b, ⟨hlt, hb⟩, rfl, rfl, rfl⟩
    · simp [hc]
  rw [links_eq_upTo, upTo]
  simp only [List.mem_flatMap, List.mem_range, hat]
  constructor
  · rintro ⟨m, -, rfl, hrest⟩
    exact hrest
  · intro hrest
    exact ⟨j, lt_length_of_holds hrest.2.2.1, rfl, hrest⟩

end Links

end Cadence
