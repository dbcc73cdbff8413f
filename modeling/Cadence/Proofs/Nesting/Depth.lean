/-
  DEPTH — what is open at a position of a list of statements.

  A family of statements has openings and closings.  There are two ways to say what is open at a
  position, and this file shows that they agree:

  1. **The stack** — `openAt` reads the list from the left, puts the position of each opening on a
     stack and takes the top off at each closing.  A closing that finds nothing open is STRAY and
     changes nothing.

  2. **The counter** — from a position on, openings and closings are counted.  The first position
     at which more was closed than opened (`Over`) ends whatever was innermost at the start.

  The crux is `openAt_of_quiet`: as long as the counter is not over, the stack at the start stays
  below everything that is opened since, and the height above it is what the counter says.  So at
  the first position that is over, the stack is the one of the start (`openAt_of_first`), and an
  opening is on the stack exactly until its own counter is over (`mem_openAt_iff`).
-/
import Cadence.Tree.Links

namespace Cadence

/-! ## Families and counting -/

/-- Does the statement at a position have a first token of a wanted kind? -/
def holds (p : Kind → Bool) (ks : List (Option Kind)) (i : Nat) : Bool := ks[i]?.join.any p

/-- The number of statements from `a` on and before `b` that have a first token of a wanted kind. -/
def within (p : Kind → Bool) (ks : List (Option Kind)) (a b : Nat) : Nat :=
  (List.range' a (b - a)).countP (holds p ks)

theorem lt_length_of_holds {p : Kind → Bool} {ks : List (Option Kind)} {i : Nat}
    (h : holds p ks i = true) : i < ks.length := by
  rcases Nat.lt_or_ge i ks.length with hi | hi
  · exact hi
  · rw [holds, List.getElem?_eq_none hi] at h
    exact absurd h (by simp)

/-- A statement of one kind is of no kind that is apart from it. -/
theorem not_holds_of_holds {p q : Kind → Bool} {ks : List (Option Kind)} {i : Nat}
    (hpq : ∀ k, p k = true → q k = false) (h : holds p ks i = true) : holds q ks i = false := by
  unfold holds at h ⊢
  cases hk : ks[i]?.join with
  | none => rfl
  | some k =>
    rw [hk] at h
    exact hpq k h

theorem within_self (p : Kind → Bool) (ks : List (Option Kind)) (a : Nat) :
    within p ks a a = 0 := by
  simp [within]

/-- Counting one statement more. -/
theorem within_succ (p : Kind → Bool) (ks : List (Option Kind)) {a b : Nat} (h : a ≤ b) :
    within p ks a (b + 1) = within p ks a b + (if holds p ks b then 1 else 0) := by
  have hb : b + 1 - a = (b - a) + 1 := by omega
  have he : a + (b - a) = b := by omega
  rw [within, within, hb, List.range'_concat, List.countP_append, Nat.one_mul, he]
  simp [List.countP_cons]

theorem within_succ_of_holds {p : Kind → Bool} {ks : List (Option Kind)} {a b : Nat} (h : a ≤ b)
    (hb : holds p ks b = true) : within p ks a (b + 1) = within p ks a b + 1 := by
  rw [within_succ p ks h, if_pos hb]

theorem within_succ_of_not {p : Kind → Bool} {ks : List (Option Kind)} {a b : Nat} (h : a ≤ b)
    (hb : holds p ks b = false) : within p ks a (b + 1) = within p ks a b := by
  rw [within_succ p ks h, if_neg (by simp [hb]), Nat.add_zero]

/-- Statements that open and close something. -/
structure Family where
  /-- The first tokens of openings. -/
  opens : Kind → Bool
  /-- The first tokens of closings. -/
  closes : Kind → Bool
  /-- Nothing opens and closes at once. -/
  apart : ∀ k, opens k = true → closes k = false

namespace Family

variable (f : Family) (ks : List (Option Kind))

/-- From `a` on, up to and with `j`, more was closed than opened. -/
def Over (a j : Nat) : Prop := within f.opens ks a (j + 1) < within f.closes ks a (j + 1)

/-- The counter that starts at `a` is not over before `n`. -/
def Quiet (a n : Nat) : Prop := ∀ m, a ≤ m → m < n → ¬ f.Over ks a m

/-- `j` is the first position from `a` on at which more was closed than opened. -/
def First (a j : Nat) : Prop := a ≤ j ∧ f.Quiet ks a j ∧ f.Over ks a j

/-- What is open before the statement at a position, innermost first. -/
def openAt : Nat → List Nat
  | 0 => []
  | n + 1 =>
    if holds f.opens ks n then n :: openAt n
    else if holds f.closes ks n then (openAt n).tail
    else openAt n

variable {f ks}

theorem not_closes_of_opens {i : Nat} (h : holds f.opens ks i = true) :
    holds f.closes ks i = false :=
  not_holds_of_holds f.apart h

theorem not_opens_of_closes {i : Nat} (h : holds f.closes ks i = true) :
    holds f.opens ks i = false := by
  cases ho : holds f.opens ks i with
  | false => rfl
  | true =>
    rw [not_closes_of_opens ho] at h
    exact absurd h (by decide)

theorem openAt_of_opens {n : Nat} (h : holds f.opens ks n = true) :
    f.openAt ks (n + 1) = n :: f.openAt ks n := by
  rw [openAt, if_pos h]

theorem openAt_of_closes {n : Nat} (h : holds f.closes ks n = true) :
    f.openAt ks (n + 1) = (f.openAt ks n).tail := by
  rw [openAt, if_neg (by simp [not_opens_of_closes h]), if_pos h]

theorem openAt_of_neither {n : Nat} (ho : holds f.opens ks n = false)
    (hc : holds f.closes ks n = false) : f.openAt ks (n + 1) = f.openAt ks n := by
  rw [openAt, if_neg (by simp [ho]), if_neg (by simp [hc])]

/-! ## The stack on its own -/

/-- What is open was opened before. -/
theorem mem_openAt {h n : Nat} (hm : h ∈ f.openAt ks n) :
    h < n ∧ holds f.opens ks h = true := by
  induction n with
  | zero => exact absurd hm List.not_mem_nil
  | succ n ih =>
    rw [openAt] at hm
    split at hm
    · rename_i ho
      rcases List.mem_cons.mp hm with rfl | hm
      · exact ⟨Nat.lt_succ_self _, ho⟩
      · exact ⟨Nat.lt_succ_of_lt (ih hm).1, (ih hm).2⟩
    · split at hm
      · have hm := ih (List.mem_of_mem_tail hm)
        exact ⟨Nat.lt_succ_of_lt hm.1, hm.2⟩
      · exact ⟨Nat.lt_succ_of_lt (ih hm).1, (ih hm).2⟩

/-- The stack descends: what was opened later lies above. -/
theorem openAt_descending (f : Family) (ks : List (Option Kind)) (n : Nat) :
    (f.openAt ks n).Pairwise (· > ·) := by
  induction n with
  | zero => exact List.Pairwise.nil
  | succ n ih =>
    rw [openAt]
    split
    · refine List.pairwise_cons.mpr ⟨?_, ih⟩
      intro h hm
      exact (mem_openAt hm).1
    · split
      · exact ih.tail
      · exact ih

/-- What is open later, and was opened before, is open in between. -/
theorem mem_openAt_of_mem {h m n : Nat} (hm : h ∈ f.openAt ks n) (hhm : h < m) (hmn : m ≤ n) :
    h ∈ f.openAt ks m := by
  induction n with
  | zero => exact absurd hm List.not_mem_nil
  | succ n ih =>
    rcases Nat.lt_or_eq_of_le hmn with hlt | rfl
    · have hmn' : m ≤ n := Nat.le_of_lt_succ hlt
      refine ih ?_ hmn'
      rw [openAt] at hm
      split at hm
      · rcases List.mem_cons.mp hm with rfl | hm
        · exact absurd hhm (by omega)
        · exact hm
      · split at hm
        · exact List.mem_of_mem_tail hm
        · exact hm
    · exact hm

/-- What a closing takes off is not open any more. -/
theorem not_mem_openAt_of_closed {h j n : Nat} (hc : holds f.closes ks j = true)
    (ht : (f.openAt ks j).head? = some h) (hjn : j < n) : h ∉ f.openAt ks n := by
  intro hm
  obtain ⟨rest, hr⟩ : ∃ rest, f.openAt ks j = h :: rest := by
    cases ho : f.openAt ks j with
    | nil => rw [ho] at ht; exact absurd ht (by simp)
    | cons c rest =>
      rw [ho] at ht
      exact ⟨rest, by rw [Option.some.inj ht]⟩
  have hhj : h < j := (mem_openAt (hr ▸ List.mem_cons_self ..)).1
  have hin : h ∈ f.openAt ks (j + 1) := mem_openAt_of_mem hm (by omega) hjn
  rw [openAt_of_closes hc, hr] at hin
  have hd := openAt_descending f ks j
  rw [hr] at hd
  exact absurd ((List.pairwise_cons.mp hd).1 h hin) (Nat.lt_irrefl h)

/-! ## The stack and the counter -/

theorem Quiet.mono {a m n : Nat} (h : f.Quiet ks a n) (hmn : m ≤ n) : f.Quiet ks a m :=
  fun k hak hkm => h k hak (Nat.lt_of_lt_of_le hkm hmn)

/-- A closing makes the counter be over when nothing opened since the start is left to close. -/
theorem over_iff_of_closes {a j : Nat} (haj : a ≤ j) (hc : holds f.closes ks j = true) :
    f.Over ks a j ↔ within f.opens ks a j < within f.closes ks a j + 1 := by
  rw [Over, within_succ_of_holds haj hc, within_succ_of_not haj (not_opens_of_closes hc)]

/-- **The crux.** While the counter is not over, the stack of the start lies below what was opened
since, and the height above it is the difference of the two counts. -/
theorem openAt_of_quiet {a n : Nat} (hq : f.Quiet ks a n) (han : a ≤ n) :
    ∃ above, f.openAt ks n = above ++ f.openAt ks a ∧
      above.length + within f.closes ks a n = within f.opens ks a n ∧ ∀ h ∈ above, a ≤ h := by
  induction n with
  | zero =>
    obtain rfl : a = 0 := Nat.le_zero.mp han
    exact ⟨[], rfl, by simp [within_self], fun h hm => absurd hm List.not_mem_nil⟩
  | succ n ih =>
    rcases Nat.lt_or_eq_of_le han with hlt | rfl
    · have hle : a ≤ n := Nat.le_of_lt_succ hlt
      obtain ⟨above, hs, hl, hge⟩ := ih (hq.mono (Nat.le_succ n)) hle
      have hover : ¬ f.Over ks a n := hq n hle (Nat.lt_succ_self n)
      cases ho : holds f.opens ks n with
      | true =>
        have hc := not_closes_of_opens ho
        refine ⟨n :: above, ?_, ?_, ?_⟩
        · rw [openAt_of_opens ho, hs, List.cons_append]
        · rw [within_succ_of_holds hle ho, within_succ_of_not hle hc, List.length_cons]
          omega
        · intro h hm
          rcases List.mem_cons.mp hm with rfl | hm
          · exact hle
          · exact hge h hm
      | false =>
        cases hc : holds f.closes ks n with
        | true =>
          -- the counter is not over, so something opened since `a` is there to be closed
          rw [over_iff_of_closes hle hc] at hover
          have hpos : above ≠ [] := by
            rintro rfl
            rw [List.length_nil] at hl
            omega
          obtain ⟨c, rest, rfl⟩ := List.exists_cons_of_ne_nil hpos
          refine ⟨rest, ?_, ?_, fun h hm => hge h (List.mem_cons_of_mem c hm)⟩
          · rw [openAt_of_closes hc, hs, List.cons_append, List.tail_cons]
          · rw [within_succ_of_holds hle hc, within_succ_of_not hle ho]
            rw [List.length_cons] at hl
            omega
        | false =>
          refine ⟨above, ?_, ?_, hge⟩
          · rw [openAt_of_neither ho hc, hs]
          · rw [within_succ_of_not hle hc, within_succ_of_not hle ho]
            exact hl
    · exact ⟨[], rfl, by simp [within_self], fun h hm => absurd hm List.not_mem_nil⟩

/-- While the counter is not over, what was innermost at the start is innermost again only where
nothing more is open than at the start. -/
theorem openAt_eq_of_head? {a n h : Nat} (hq : f.Quiet ks a n) (han : a ≤ n) (hha : h < a)
    (ht : (f.openAt ks n).head? = some h) :
    f.openAt ks n = f.openAt ks a ∧ within f.closes ks a n = within f.opens ks a n := by
  obtain ⟨above, hs, hl, hge⟩ := openAt_of_quiet hq han
  cases above with
  | nil =>
    rw [List.length_nil] at hl
    exact ⟨by rw [hs, List.nil_append], by omega⟩
  | cons c rest =>
    rw [hs, List.cons_append, List.head?_cons] at ht
    have hac : a ≤ c := hge c (List.mem_cons_self ..)
    have hch : c = h := Option.some.inj ht
    omega

/-- The counter is not over before a position, or it is over for the first time at one before. -/
theorem quiet_or_first (f : Family) (ks : List (Option Kind)) (a n : Nat) :
    f.Quiet ks a n ∨ ∃ j, j < n ∧ f.First ks a j := by
  induction n with
  | zero => exact Or.inl fun m _ hm => absurd hm (Nat.not_lt_zero m)
  | succ n ih =>
    rcases ih with hq | ⟨j, hj, hf⟩
    · by_cases hn : a ≤ n ∧ f.Over ks a n
      · exact Or.inr ⟨n, Nat.lt_succ_self n, hn.1, hq, hn.2⟩
      · refine Or.inl fun m ham hm ho => ?_
        rcases Nat.lt_or_eq_of_le (Nat.le_of_lt_succ hm) with hlt | rfl
        · exact hq m ham hlt ho
        · exact hn ⟨ham, ho⟩
    · exact Or.inr ⟨j, Nat.lt_succ_of_lt hj, hf⟩

/-- The counter is over for the first time at a closing. -/
theorem First.closes {a j : Nat} (h : f.First ks a j) : holds f.closes ks j = true := by
  obtain ⟨haj, hq, ho⟩ := h
  obtain ⟨above, -, hl, -⟩ := openAt_of_quiet hq haj
  cases hc : holds f.closes ks j with
  | true => rfl
  | false =>
    rw [Over, within_succ_of_not haj hc, within_succ _ _ haj] at ho
    omega

/-- Where the counter is over for the first time, the stack is the one of the start. -/
theorem openAt_of_first {a j : Nat} (h : f.First ks a j) : f.openAt ks j = f.openAt ks a := by
  have hc := h.closes
  obtain ⟨haj, hq, ho⟩ := h
  obtain ⟨above, hs, hl, -⟩ := openAt_of_quiet hq haj
  rw [over_iff_of_closes haj hc] at ho
  have hz : above = [] := List.length_eq_zero_iff.mp (by omega)
  rw [hs, hz, List.nil_append]

/-- **The end of the innermost.** A counter that starts where `h` is innermost is over for the
first time at the closing that takes `h` off the stack. -/
theorem first_iff_closed {a j h : Nat} (hin : (f.openAt ks a).head? = some h) :
    f.First ks a j ↔
      a ≤ j ∧ holds f.closes ks j = true ∧ (f.openAt ks j).head? = some h := by
  constructor
  · intro hf
    exact ⟨hf.1, hf.closes, by rw [openAt_of_first hf]; exact hin⟩
  · rintro ⟨haj, hc, ht⟩
    rcases quiet_or_first f ks a j with hq | ⟨m, hmj, hf⟩
    · have hha : h < a := (mem_openAt (List.mem_of_head? hin)).1
      obtain ⟨-, hl⟩ := openAt_eq_of_head? hq haj hha ht
      refine ⟨haj, hq, ?_⟩
      rw [over_iff_of_closes haj hc]
      omega
    · -- an earlier end takes `h` off, and it cannot come back
      have htm : (f.openAt ks m).head? = some h := by rw [openAt_of_first hf]; exact hin
      exact absurd (List.mem_of_head? ht) (not_mem_openAt_of_closed hf.closes htm hmj)

/-- **What is open.** An opening is on the stack from the next position on until its own counter is
over. -/
theorem mem_openAt_iff {h n : Nat} :
    h ∈ f.openAt ks n ↔ h < n ∧ holds f.opens ks h = true ∧ f.Quiet ks (h + 1) n := by
  constructor
  · intro hm
    obtain ⟨hhn, ho⟩ := mem_openAt hm
    refine ⟨hhn, ho, ?_⟩
    rcases quiet_or_first f ks (h + 1) n with hq | ⟨j, hjn, hf⟩
    · exact hq
    · have ht : (f.openAt ks j).head? = some h := by
        rw [openAt_of_first hf, openAt_of_opens ho, List.head?_cons]
      exact absurd hm (not_mem_openAt_of_closed hf.closes ht hjn)
  · rintro ⟨hhn, ho, hq⟩
    obtain ⟨above, hs, -, -⟩ := openAt_of_quiet hq hhn
    rw [hs, openAt_of_opens ho]
    exact List.mem_append_right above (List.mem_cons_self ..)

/-- **What is innermost.** An opening is on top of the stack when it is not over yet and as much
was closed as opened since. -/
theorem head?_openAt_iff {h n : Nat} (ho : holds f.opens ks h = true) :
    (f.openAt ks n).head? = some h ↔
      h < n ∧ f.Quiet ks (h + 1) n ∧
        within f.closes ks (h + 1) n = within f.opens ks (h + 1) n := by
  constructor
  · intro ht
    obtain ⟨hhn, -, hq⟩ := mem_openAt_iff.mp (List.mem_of_head? ht)
    exact ⟨hhn, hq, (openAt_eq_of_head? hq hhn (Nat.lt_succ_self h) ht).2⟩
  · rintro ⟨hhn, hq, he⟩
    obtain ⟨above, hs, hl, -⟩ := openAt_of_quiet hq hhn
    have hz : above = [] := List.length_eq_zero_iff.mp (by omega)
    rw [hs, hz, openAt_of_opens ho, List.nil_append, List.head?_cons]

end Family

end Cadence
