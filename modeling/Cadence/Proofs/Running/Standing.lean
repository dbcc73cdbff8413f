/-
  STANDING — a script at a position, with the frames that belong there.

  A script STANDS at a position when it has a frame for each construct that encloses the position,
  and no others (`Stood`).  One case needs more care.  A loop header does not enclose itself; but
  after the end of the loop, or after a continue, the cursor is BACK on the header, and the frame of
  the loop is still there.  The header tells the two cases apart by the innermost frame alone.

  Two notions come before.  `Ends` says what holds after an operation that did not fail; it goes
  through sequences.  `Still` says that a script was left in peace: its tree, its cursor, and the
  statements that opened its frames are the same, and no wait has begun.
-/
import Cadence.Proofs.Running.Chain
import Cadence.Proofs.Running.Driving

namespace Cadence

open ScriptM

section

variable {σ ι α β : Type}

/-! ## What goes well -/

/-- What holds before an operation lets something hold after it, if it does not fail. -/
def Ends (P : World σ ι → Prop) (x : ScriptM σ ι α) (Q : α → World σ ι → Prop) : Prop :=
  ∀ w a w', P w → x w = .ok a w' → Q a w'

/-- A script with a number is there and satisfies something. -/
def With (i : Nat) (φ : Script ι → Prop) (w : World σ ι) : Prop :=
  i < w.scripts.size ∧ φ (w.script i)

namespace Ends

variable {P : World σ ι → Prop}

theorem bind {x : ScriptM σ ι α} {f : α → ScriptM σ ι β} {Q : α → World σ ι → Prop}
    {S : β → World σ ι → Prop} (hx : Ends P x Q) (hf : ∀ a, Ends (Q a) (f a) S) :
    Ends P (x >>= f) S := by
  intro w b w' hw h
  obtain ⟨a, u, hxu, hfu⟩ := bind_ok h
  exact hf a u b w' (hx w a u hw hxu) hfu

theorem pure {a : α} {Q : α → World σ ι → Prop} (h : ∀ w, P w → Q a w) :
    Ends P (Pure.pure a) Q := by
  intro w b w' hw hb
  cases hb
  exact h w hw

theorem throw {fault : Fault} {Q : α → World σ ι → Prop} :
    Ends P (MonadExcept.throw fault : ScriptM σ ι α) Q := by
  intro w b w' _ hb
  cases hb

theorem fail {site : Option Site} {cause : Cause} {Q : α → World σ ι → Prop} :
    Ends P (ScriptM.fail site cause : ScriptM σ ι α) Q := throw

theorem ite {c : Prop} [Decidable c] {x y : ScriptM σ ι α} {Q : α → World σ ι → Prop}
    (hx : c → Ends P x Q) (hy : ¬ c → Ends P y Q) : Ends P (if c then x else y) Q := by
  by_cases h : c
  · rw [if_pos h]
    exact hx h
  · rw [if_neg h]
    exact hy h

theorem mono {P' : World σ ι → Prop} {x : ScriptM σ ι α} {Q Q' : α → World σ ι → Prop}
    (hx : Ends P x Q) (hP : ∀ w, P' w → P w) (hQ : ∀ a w, Q a w → Q' a w) : Ends P' x Q' :=
  fun w a w' hw h => hQ a w' (hx w a w' (hP w hw) h)

theorem keeps {R : World σ ι → World σ ι → Prop} {x : ScriptM σ ι α} {Q : World σ ι → Prop}
    (hx : Keeps R x) (h : ∀ w w', R w w' → P w → Q w') : Ends P x fun _ => Q :=
  fun w _ w' hw hok => h w w' (hx.ok hok) hw

/-- Looking at the world changes nothing. -/
theorem look {x : ScriptM σ ι α} {f : α → ScriptM σ ι β} {Q : β → World σ ι → Prop}
    (hx : ∀ w, x.after w = w) (hf : ∀ a, Ends P (f a) Q) : Ends P (x >>= f) Q := by
  refine .bind (.keeps (R := fun w w' => w' = w) hx fun w w' hsame hw => ?_) hf
  exact hsame ▸ hw

theorem modify {g : World σ ι → World σ ι} {Q : World σ ι → Prop} (h : ∀ w, P w → Q (g w)) :
    Ends P (modify g : ScriptM σ ι Unit) fun _ => Q := by
  intro w a w' hw hok
  cases hok
  exact h w hw

theorem modifyScript {i : Nat} {f : Script ι → Script ι} {φ ψ : Script ι → Prop}
    (h : ∀ s, φ s → ψ (f s)) :
    Ends (With i φ) (ScriptM.modifyScript i f : ScriptM σ ι Unit) fun _ => With i ψ := by
  intro w a w' hw hok
  cases hok
  refine ⟨by rw [World.size_modifyScript]; exact hw.1, ?_⟩
  rw [World.script_modifyScript_self f hw.1]
  exact h _ hw.2

/-- Whoever reads the script knows it. -/
theorem script_self {i : Nat} {φ : Script ι → Prop} {f : Script ι → ScriptM σ ι α}
    {Q : α → World σ ι → Prop} (h : ∀ s, φ s → Ends (With i fun s' => s' = s) (f s) Q) :
    Ends (With i φ) (ScriptM.script i >>= f) Q := by
  intro w a w' hw hok
  exact h (w.script i) hw.2 w a w' ⟨hw.1, rfl⟩ hok

/-- Whoever reads the script knows what holds of it. -/
theorem script {i : Nat} {φ : Script ι → Prop} {f : Script ι → ScriptM σ ι α}
    {Q : α → World σ ι → Prop} (h : ∀ s, φ s → Ends (With i φ) (f s) Q) :
    Ends (With i φ) (ScriptM.script i >>= f) Q := by
  intro w a w' hw hok
  exact h (w.script i) hw.2 w a w' hw hok

end Ends

/-! ## Keeping still -/

/-- A script has the same tree, and frames of the same statements. -/
structure SameChain (i : Nat) (w w' : World σ ι) : Prop where
  /-- It is still there. -/
  size : i < w.scripts.size → i < w'.scripts.size
  /-- It has the same tree. -/
  root : (w'.script i).root = (w.script i).root
  /-- It is the same loading. -/
  load : (w'.script i).load = (w.script i).load
  /-- It has the same links. -/
  links : (w'.script i).links = (w.script i).links
  /-- Its frames were opened by the same statements. -/
  starts : (w'.script i).frames.starts = (w.script i).frames.starts

/-- Its cursor is the same too. -/
structure SamePlace (i : Nat) (w w' : World σ ι) : Prop extends SameChain i w w' where
  /-- The cursor is the same. -/
  cursor : (w'.script i).cursor = (w.script i).cursor

/-- And no wait of it has begun. -/
structure Still (i : Nat) (w w' : World σ ι) : Prop extends SamePlace i w w' where
  /-- It waits only if it did before. -/
  wait : (w'.script i).activity = .timingOut → (w.script i).activity = .timingOut

theorem sameChain_of_idle {i : Nat} {w w' : World σ ι} (h : Idle w w') : SameChain i w w' where
  size hi := h.size ▸ hi
  root := h.same Script.root (fun _ => rfl) i
  load := h.same Script.load (fun _ => rfl) i
  links := h.same Script.links (fun _ => rfl) i
  starts := by
    have : (w'.script i).frames = (w.script i).frames :=
      h.same Script.frames (fun _ => rfl) i
    rw [this]

theorem still_of_idle {i : Nat} {w w' : World σ ι} (h : Idle w w') : Still i w w' where
  toSameChain := sameChain_of_idle h
  cursor := h.same Script.cursor (fun _ => rfl) i
  wait ha := by
    have : (w'.script i).activity = (w.script i).activity :=
      h.same Script.activity (fun _ => rfl) i
    rw [← this]
    exact ha

theorem SameChain.trans {i : Nat} {u v w : World σ ι} (h : SameChain i u v) (h' : SameChain i v w) :
    SameChain i u w :=
  ⟨fun hi => h'.size (h.size hi), h'.root.trans h.root, h'.load.trans h.load,
    h'.links.trans h.links, h'.starts.trans h.starts⟩

theorem sameChain_lenient (i : Nat) : Lenient (SameChain (σ := σ) (ι := ι) i) where
  trans := .trans
  idle := sameChain_of_idle

theorem samePlace_lenient (i : Nat) : Lenient (SamePlace (σ := σ) (ι := ι) i) where
  trans h h' := ⟨h.toSameChain.trans h'.toSameChain, h'.cursor.trans h.cursor⟩
  idle h := (still_of_idle h).toSamePlace

theorem still_lenient (i : Nat) : Lenient (Still (σ := σ) (ι := ι) i) where
  trans h h' := ⟨⟨h.toSameChain.trans h'.toSameChain, h'.cursor.trans h.cursor⟩,
    fun ha => h.wait (h'.wait ha)⟩
  idle := still_of_idle

/-- Scripts that are suspended or sent about keep their trees and their frames. -/
theorem sameChain_roams (i : Nat) : Roams (SameChain (σ := σ) (ι := ι) i) := by
  refine .of_roves (sameChain_lenient i) fun j f w hf => ?_
  obtain ⟨cursor, returns, activity, deadline, callback, hs⟩ := hf
  have same : ∀ {β : Type} (tells : Script ι → β), tells (f (w.script j)) = tells (w.script j) →
      Same tells i w (w.modifyScript j f) := fun _ => same_of_tells i j w
  exact
    { size := fun h => (w.size_modifyScript j f).symm ▸ h
      root := same Script.root (by rw [hs])
      load := same Script.load (by rw [hs])
      links := same Script.links (by rw [hs])
      starts := same (fun s => s.frames.starts) (by rw [hs]) }

variable {T : Tree} {hs : List Nat} {c : Option Statement} {waits : Bool} {i : Nat}

theorem Framed.samePlace {w w' : World σ ι} (h : Framed T hs c waits (w.script i))
    (hp : SamePlace i w w') : Framed T hs c true (w'.script i) :=
  ⟨hp.root.trans h.root, hp.load.trans h.load, hp.links.trans h.links, hp.starts.trans h.starts,
    hp.cursor.trans h.cursor, fun _ => rfl⟩

theorem Framed.still {w w' : World σ ι} (h : Framed T hs c waits (w.script i))
    (hp : Still i w w') : Framed T hs c waits (w'.script i) :=
  ⟨hp.root.trans h.root, hp.load.trans h.load, hp.links.trans h.links, hp.starts.trans h.starts,
    hp.cursor.trans h.cursor, fun ha => h.wait (hp.wait ha)⟩

theorem Ends.still {x : ScriptM σ ι α} (hx : Keeps (Still i) x) :
    Ends (With i (Framed T hs c waits)) x fun _ => With i (Framed T hs c waits) :=
  .keeps hx fun _ _ hs hw => ⟨hs.size hw.1, hw.2.still hs⟩

/-! ## Where a script may stand -/

/-- The positions of the frames of a script at a position; if it is back on a header, the header's
own frame is among them. -/
def Tree.headers (T : Tree) (back : Bool) (k : Nat) : List Nat :=
  if back then k :: enclosing T.kinds k else enclosing T.kinds k

/-- Is a statement a command? -/
def Statement.isCommand (t : Statement) : Bool :=
  t.head?.any fun head =>
    head.kind = .command ∨ head.kind = .quiet ∨ head.kind = .force ∨ head.kind = .negate

/-- A script stands at a position, with a frame for each construct that encloses it; at the end, or
when it was stopped, it may also have no cursor.  It is back only on a loop header, and it waits
only on a command. -/
structure StoodAt (T : Tree) (back : Bool) (k : Nat) (c : Option Statement) (waits : Bool)
    (s : Script ι) : Prop where
  /-- The position is one of the tree, or its end. -/
  le : k ≤ T.kinds.length
  /-- The frames are those of the enclosing constructs. -/
  framed : Framed T (T.headers back k) c waits s
  /-- The cursor is at the position, or there is none. -/
  cursor : c = none ∨ c = T.statement? k
  /-- A script that is back is back on a loop header. -/
  back : back = true → holds Kind.isLoopStart T.kinds k = true ∧ c ≠ none
  /-- A script that waits, waits on a command. -/
  wait : waits = true → ∃ t, c = some t ∧ t.isCommand = true

/-- A script stands somewhere. -/
def Stood (T : Tree) (back : Bool) (s : Script ι) : Prop := ∃ k c waits, StoodAt T back k c waits s

theorem Stood.at {s : Script ι} {k : Nat} (hk : k ≤ T.kinds.length)
    (h : Framed T (enclosing T.kinds k) (T.statement? k) false s) : Stood T false s :=
  ⟨k, _, false, hk, h, .inr rfl, fun h => absurd h (by simp), fun h => absurd h (by simp)⟩

/-- On the way back to a header, its own frame is on top. -/
theorem Stood.back {s : Script ι} {k : Nat} (hl : holds Kind.isLoopStart T.kinds k = true)
    (h : Framed T (k :: enclosing T.kinds k) (T.statement? k) false s) : Stood T true s := by
  have hk := lt_length_of_holds hl
  obtain ⟨t, ht⟩ := Tree.exists_statement? hk
  exact ⟨k, _, false, Nat.le_of_lt hk, h, .inr rfl, fun _ => ⟨hl, by simp [ht]⟩,
    fun h => absurd h (by simp)⟩

/-- On a command a script may wait. -/
theorem Stood.command {s : Script ι} {k : Nat} {t : Statement} (ht : T.statement? k = some t)
    (hc : t.isCommand = true) (h : Framed T (enclosing T.kinds k) (some t) true s) :
    Stood T false s :=
  ⟨k, some t, true, Nat.le_of_lt (Tree.lt_of_statement? ht), h, .inr ht.symm,
    fun h => absurd h (by simp), fun _ => ⟨t, rfl, hc⟩⟩

theorem Statement.isCommand_iff {t : Statement} :
    t.isCommand = true ↔ ∃ head, t.head? = some head ∧
      (head.kind = .command ∨ head.kind = .quiet ∨ head.kind = .force ∨ head.kind = .negate) := by
  unfold Statement.isCommand
  cases t.head? with
  | none => simp
  | some head => simp

theorem Statement.isCommand_of_head? {t : Statement} {head : Site} (hh : t.head? = some head) :
    t.isCommand = decide (head.kind = .command ∨ head.kind = .quiet ∨ head.kind = .force ∨
      head.kind = .negate) := by
  rw [isCommand, hh, Option.any_some]

/-- Only on a command a script waits. -/
theorem StoodAt.calm {s : Script ι} {back waits : Bool} {k : Nat} {t : Statement}
    (h : StoodAt T back k (some t) waits s) (hn : t.isCommand = false) :
    Framed T (T.headers back k) (some t) false s := by
  cases waits with
  | false => exact h.framed
  | true =>
    obtain ⟨u, hu, hc⟩ := h.wait rfl
    cases hu
    exact absurd (hc.symm.trans hn) (by simp)

/-- Only on a loop header a script is back, with the header's own frame. -/
theorem StoodAt.headers_eq {s : Script ι} {back waits : Bool} {k : Nat} {c : Option Statement}
    (h : StoodAt T back k c waits s) (hn : holds Kind.isLoopStart T.kinds k = false) :
    T.headers back k = enclosing T.kinds k := by
  cases back with
  | false => rfl
  | true => exact absurd ((h.back rfl).1.symm.trans hn) (by simp)

/-- A command opens nothing, closes nothing and is no loop header. -/
theorem not_holds_of_command {k : Nat} {t : Statement} (ht : T.statement? k = some t)
    (hc : t.isCommand = true) :
    holds Family.blocks.opens T.kinds k = false ∧ holds Family.blocks.closes T.kinds k = false ∧
      holds Kind.isLoopStart T.kinds k = false := by
  obtain ⟨head, hh, hkind⟩ := Statement.isCommand_iff.mp hc
  rw [Tree.holds_of_head? ht hh, Tree.holds_of_head? ht hh, Tree.holds_of_head? ht hh]
  rcases hkind with h | h | h | h
  all_goals
    rw [h]
    exact ⟨rfl, rfl, rfl⟩

/-- A script that waits stands on a command, and is not back anywhere. -/
theorem Stood.waiting {s : Script ι} {back : Bool} (h : Stood T back s)
    (ha : s.activity = .timingOut) :
    back = false ∧ ∃ k t, T.statement? k = some t ∧ t.isCommand = true ∧
      Framed T (enclosing T.kinds k) (some t) true s := by
  obtain ⟨k, c, waits, hst⟩ := h
  have hwaits : waits = true := hst.framed.wait ha
  obtain ⟨t, rfl, hc⟩ := hst.wait hwaits
  have ht : T.statement? k = some t := by
    rcases hst.cursor with hn | hk
    · exact absurd hn (by simp)
    · exact hk.symm
  have hback : back = false := by
    cases back with
    | false => rfl
    | true =>
      have := (hst.back rfl).1
      rw [(not_holds_of_command ht hc).2.2] at this
      exact absurd this (by simp)
  subst hback
  exact ⟨rfl, k, t, ht, hc, hwaits ▸ hst.framed⟩

/-- The frames that may be there were opened at positions of the tree. -/
theorem lt_of_mem_enclosing {ks : List (Option Kind)} {m k : Nat} (h : m ∈ enclosing ks k) :
    m < ks.length :=
  lt_length_of_holds (Family.mem_openAt h).2

end

end Cadence
