/-
  LINES — each statement does what its line in a structured program means.

  The machine finds its way by the links, by its own cursor and by the innermost frame; the meaning
  of a program knows where it is.  Here the two are compared for ONE statement of a ready script:
  they do the same (`Agree`), and the script is ready again, at the statement and with the frames
  that the meaning says (`Ends`).

  There is one section for each sort of line: commands, the ways out of a loop, choices.  Loop
  headers have a module of their own.
-/
import Cadence.Proofs.Meaning.Ticking

namespace Cadence

open ScriptM

section

variable {σ ι α β : Type}

/-! ## Agreement -/

/-- Two operations do the same in each of some worlds. -/
def Agree (P : World σ ι → Prop) (x y : ScriptM σ ι α) : Prop := ∀ w, P w → x w = y w

namespace Agree

variable {P : World σ ι → Prop}

theorem refl (x : ScriptM σ ι α) : Agree P x x := fun _ _ => rfl

theorem trans {x y z : ScriptM σ ι α} (h : Agree P x y) (h' : Agree P y z) : Agree P x z :=
  fun w hw => (h w hw).trans (h' w hw)

/-- Two sequences agree when they begin alike and agree from there. -/
theorem bind {x : ScriptM σ ι α} {f g : α → ScriptM σ ι β} {Q : α → World σ ι → Prop}
    (hx : Ends P x Q) (h : ∀ a, Agree (Q a) (f a) (g a)) : Agree P (x >>= f) (x >>= g) :=
  fun w hw => bind_congr_ok fun a u hu => h a u (hx w a u hw hu)

/-- Two sequences agree when their beginnings do. -/
theorem bind_left {x y : ScriptM σ ι α} (h : Agree P x y) (f : α → ScriptM σ ι β) :
    Agree P (x >>= f) (y >>= f) := by
  intro w hw
  rw [bind_apply, bind_apply, h w hw]

end Agree

variable {host : Host σ ι} {i : Nat} {T : Tree} {F : Frames} {c : Option Statement} {p : Nat}

/-! ## Moves of a ready script -/

namespace Ready

variable {w : World σ ι} {t : Statement}

theorem has (h : Ready T i F c w) : (w.script i).Has T := ⟨h.root, h.load⟩

theorem branches (h : Ready T i F c w) (ht : T.statement? p = some t) :
    (w.script i).branches t = ((Links.ofKinds T.kinds).branchesOf p).filterMap T.statement? := by
  have hs : (w.script i).statementAt? = T.statement? := funext h.has.statementAt?
  unfold Script.branches
  rw [h.has.position? ht, hs, h.links]

end Ready

/-- A change of the cursor and the frames. -/
theorem Ready.ends_modify {f : Script ι → Script ι} {G : Frames} {d : Option Statement}
    (hf : ∀ s : Script ι, s.cursor = c → s.frames = F → f s = { s with cursor := d, frames := G }) :
    Ends (Ready (σ := σ) T i F c) (modifyScript i f) fun _ => Ready T i G d := by
  intro w a w' hw hok
  cases hok
  exact hw.modify (hf _ hw.cursor hw.frames)

theorem Ready.ends_moveTo (d : Option Statement) :
    Ends (Ready (σ := σ) (ι := ι) T i F c) (moveTo i d) fun _ => Ready T i F d :=
  Ready.ends_modify fun s _ hf => by rw [← hf]

theorem Ready.ends_goTo (q : Nat) :
    Ends (Ready (σ := σ) (ι := ι) T i F c) (goTo i T q) fun _ => Ready T i F (T.statement? q) :=
  Ready.ends_moveTo _

theorem Ready.ends_pushFrame (t : Statement) :
    Ends (Ready (σ := σ) (ι := ι) T i F c) (pushFrame i t) fun _ => Ready T i (F.push t) c :=
  Ready.ends_modify fun s hc hf => by
    rw [← hc, ← hf]
    rfl

theorem Ready.ends_popFrame :
    Ends (Ready (σ := σ) (ι := ι) T i F c) (modifyScript i Script.popFrame)
      fun _ => Ready T i F.pop c :=
  Ready.ends_modify fun s hc hf => by
    rw [← hc, ← hf]
    rfl

theorem Ready.ends_closeFrames (n : Nat) :
    Ends (Ready (σ := σ) (ι := ι) T i F c) (closeFrames i n) fun _ => Ready T i (F.close n) c :=
  Ready.ends_modify fun s hc hf => by rw [← hc, ← hf]

theorem Ready.ends_mapTop (g : Frame → Frame) :
    Ends (Ready (σ := σ) (ι := ι) T i F c) (modifyScript i fun s => s.mapTop g)
      fun _ => Ready T i (F.mapTop g) c :=
  Ready.ends_modify fun s hc hf => by
    rw [← hc, ← hf]
    rfl

/-- A guard is asked, and the script stays where it is. -/
theorem Ready.ends_guard (hh : host.Keeps (Steady T i)) (keyword : Site) :
    Ends (Ready T i F c) (evaluateGuard host i keyword) fun _ => Ready T i F c :=
  .keeps (keeps_evaluateGuard (steady_lenient T i).toTolerant i hh keyword)
    fun _ _ hs hw => hw.steady hs

theorem Ready.ends_reading (f : World σ ι → Except Fault α) :
    Ends (Ready T i F c) (reading f) fun _ => Ready T i F c :=
  .keeps (.reading (steady_lenient T i).toTolerant f) fun _ _ hs hw => hw.steady hs

theorem Ready.ends_listElement (list : Site) (listName : String) (index : Nat) :
    Ends (Ready (σ := σ) (ι := ι) T i F c) (listElement list listName index)
      fun _ => Ready T i F c :=
  .keeps (keeps_listElement (steady_lenient T i).toTolerant list listName index)
    fun _ _ hs hw => hw.steady hs

/-- Going on is going to the next line. -/
theorem agree_advance {t : Statement} (ht : T.statement? p = some t) :
    Agree (Ready (σ := σ) (ι := ι) T i F (some t)) (advance i) (goTo i T (p + 1)) := by
  intro w hw
  have h : (w.script i).advance = { w.script i with cursor := T.statement? (p + 1) } := by
    rw [hw.advance, Option.bind_some, Tree.next?_of_statement? ht]
  have he : w.modifyScript i Script.advance =
      w.modifyScript i fun s => { s with cursor := T.statement? (p + 1) } :=
    modifyScript_congr hw.size h
  exact congrArg (EStateM.Result.ok ()) he

/-- Ending a wait of a script that does not wait changes nothing. -/
theorem clearTimeout_of_ready {w : World σ ι} (hw : Ready T i F c w) :
    modifyScript i Script.clearTimeout w = .ok () w := by
  have h : w.modifyScript i Script.clearTimeout = w.modifyScript i id :=
    modifyScript_congr hw.size hw.clearTimeout
  have hid : w.scripts.modify i id = w.scripts := by
    apply Array.ext
    · simp
    · intro j h₁ h₂
      rw [Array.getElem_modify, id, ite_self]
  show EStateM.Result.ok () (w.modifyScript i Script.clearTimeout) = _
  rw [h, World.modifyScript, hid]

/-! ## Executing a line -/

/-- A line is executed by its first token. -/
theorem executeStatement_line {k : Kind} (l : Line k) :
    executeStatement host i (l.at T p) = executeHead host i (l.at T p) (l.head T p) := by
  unfold executeStatement
  have hk : (l.at T p).site.kind = .statement := l.statement
  rw [if_neg (by rw [hk]; decide), l.head?]

theorem Line.kind_head {k : Kind} (l : Line k) : (l.head T p).kind = k := l.kind

/-! ### Commands and the end of the script -/

theorem executeHead_command {k : Kind} (asks : k.asksCommand = true) {t : Statement} {head : Site}
    (hk : head.kind = k) : executeHead host i t head = (do
      if ← executeCommand host i t.site.children then advance i) := by
  unfold executeHead
  rw [hk]
  revert asks
  cases k <;> first | exact fun _ => rfl | exact fun h => absurd h (by decide)

theorem agree_command (hh : host.Discreet T i) {k : Kind} (asks : k.asksCommand = true) {l : Line k}
    (ht : T.statement? p = some (l.at T p)) :
    Agree (Ready T i F (some (l.at T p))) (executeStatement host i (l.at T p))
      ((do
        let done ← executeCommand host i (l.at T p).site.children
        if done then goTo i T (p + 1)
        return done) >>= fun _ => pure ()) := by
  rw [executeStatement_line, executeHead_command asks l.kind_head, bind_assoc]
  have hx : Ends (Ready T i F (some (l.at T p))) (executeCommand host i (l.at T p).site.children)
      fun _ => Ready T i F (some (l.at T p)) := by
    intro w b w' hw hok
    have := steady_executeCommand hh ht hw.tame
    rw [after_of_ok hok] at this
    exact hw.steady this
  refine .bind hx fun done => ?_
  cases done with
  | true => exact agree_advance ht
  | false => exact .refl _

/-- After a command the script is at the next line, or still at the command. -/
theorem ends_command (hh : host.Discreet T i) {t : Statement} (ht : T.statement? p = some t) :
    Ends (Ready T i F (some t))
      (do
        let done ← executeCommand host i t.site.children
        if done then goTo i T (p + 1)
        return done)
      fun done => Ready T i F (if done then T.statement? (p + 1) else some t) := by
  have hx : Ends (Ready T i F (some t)) (executeCommand host i t.site.children)
      fun _ => Ready T i F (some t) := by
    intro w b w' hw hok
    have := steady_executeCommand hh ht hw.tame
    rw [after_of_ok hok] at this
    exact hw.steady this
  refine .bind hx fun done => ?_
  cases done with
  | true => exact .bind (Ready.ends_goTo (p + 1)) fun _ => .pure fun _ hw => hw
  | false => exact .pure fun _ hw => hw

theorem executeHead_stop {t : Statement} {head : Site} (hk : head.kind = .stop) :
    executeHead host i t head = moveTo i none := by
  unfold executeHead
  rw [hk]

theorem agree_stop {l : Line .stop} :
    Agree (Ready T i F (some (l.at T p))) (executeStatement host i (l.at T p))
      (moveTo i none >>= fun _ => pure ()) := by
  rw [executeStatement_line, executeHead_stop l.kind_head]
  exact .refl _

/-! ### The ways out of a loop -/

/-- Going to the end of a loop and on is going behind it. -/
theorem agree_moveTo_advance {e : Nat} {t : Statement} (ht : T.statement? e = some t) :
    Agree (Ready (σ := σ) (ι := ι) T i F c)
      (do
        moveTo i (some t)
        advance i)
      (goTo i T (e + 1)) := by
  refine .trans (.bind (Ready.ends_moveTo (some t)) fun _ => agree_advance ht) ?_
  intro w hw
  show EStateM.Result.ok () ((w.modifyScript i _).modifyScript i _) = EStateM.Result.ok () _
  rw [World.modifyScript_modifyScript]

theorem Frames.close_pop (n : Nat) (F : Frames) : (F.close n).pop = F.close (n + 1) := by
  induction n generalizing F with
  | zero => rfl
  | succ n ih => exact ih F.pop

/-- The frames that are open at a position were opened at some positions before it. -/
structure Opened (T : Tree) (hs : List Nat) (p : Nat) (F : Frames) : Prop where
  /-- The positions, innermost first; the outermost frame was opened by no statement. -/
  starts : F.starts = hs.map T.statement? ++ [none]
  /-- They come before. -/
  before : ∀ m ∈ hs, m < p
  /-- The position is one of the tree, or comes right after it. -/
  within : p ≤ T.kinds.length

/-- The loop that a part of a program is told to stand in is the one that is innermost there: the
frames inside it are those of choices. -/
structure Within.Fits (c : Within) (T : Tree) (hs : List Nat) (p : Nat) : Prop where
  /-- So many frames were opened inside the loop. -/
  inside : ∃ above rest, hs = above ++ c.header :: rest ∧ above.length = c.inside ∧
    ∀ a ∈ above, c.header < a
  /-- The loop is innermost. -/
  inner : (Family.loops.openAt T.kinds p).head? = some c.header
  /-- Its end is an end. -/
  ends : holds Family.loops.closes T.kinds c.last = true
  /-- It is the end of this loop. -/
  closes : (Family.loops.openAt T.kinds c.last).head? = some c.header

/-- A part of a program knows the loop around it, or that there is none. -/
def Around (T : Tree) (hs : List Nat) (p : Nat) : Option Within → Prop
  | none => Family.loops.openAt T.kinds p = []
  | some c => c.Fits T hs p

/-- Unwinding to a loop closes the frames inside it, and its own if asked. -/
theorem Opened.unwind {hs : List Nat} (h : Opened T hs p F) {c : Within} (hc : c.Fits T hs p)
    {t : Statement} (ht : T.statement? c.header = some t) (inclusive : Bool) :
    F.unwind t inclusive = F.close (if inclusive then c.inside + 1 else c.inside) := by
  obtain ⟨above, rest, rfl, hlen, habove⟩ := hc.inside
  have hstarts : (Frames.mk F.top F.outer).starts =
      above.map T.statement? ++ some t :: (rest.map T.statement? ++ [none]) := by
    rw [← ht]
    simpa using h.starts
  have hlt : ∀ a ∈ above, c.header < a ∧ a < T.kinds.length := fun a ha =>
    ⟨habove a ha, Nat.lt_of_lt_of_le (h.before a (List.mem_append_left _ ha)) h.within⟩
  have hf := (Frames.from?_starts ht above F.top F.outer hlt hstarts).1
  unfold Frames.unwind
  rw [hf, hlen]
  cases inclusive with
  | true => exact Frames.close_pop c.inside F
  | false => rfl

theorem agree_unwind {hs : List Nat} (h : Opened T hs p F) {d : Within} (hd : d.Fits T hs p)
    {t : Statement} (ht : T.statement? d.header = some t) (inclusive : Bool) :
    Agree (Ready (σ := σ) (ι := ι) T i F c)
      (modifyScript i fun s => { s with frames := s.frames.unwind t inclusive })
      (closeFrames i (if inclusive then d.inside + 1 else d.inside)) := by
  intro w hw
  refine congrArg (EStateM.Result.ok ()) (modifyScript_congr hw.size ?_)
  rw [hw.frames, h.unwind hd ht]

theorem executeHead_break {t : Statement} {head : Site} (hk : head.kind = .breakLoop) :
    executeHead host i t head = executeBreak i t head := by
  unfold executeHead
  rw [hk]

theorem executeHead_continue {t : Statement} {head : Site} (hk : head.kind = .continueLoop) :
    executeHead host i t head = executeContinue i t head := by
  unfold executeHead
  rw [hk]

/-- The statement of a loop that is open. -/
theorem Within.Fits.statement? {c : Within} {hs : List Nat} (hc : c.Fits T hs p) :
    (∃ t, T.statement? c.header = some t) ∧ ∃ t, T.statement? c.last = some t :=
  ⟨Tree.exists_statement? (lt_length_of_holds (Family.mem_openAt (List.mem_of_head? hc.inner)).2),
    Tree.exists_statement? (lt_length_of_holds hc.ends)⟩

theorem agree_break {l : Line .breakLoop} {ns : List Node} (h : Placed T p (l.node :: ns))
    {hs : List Nat} (ho : Opened T hs p F) {c : Within} (hc : c.Fits T hs p) :
    Agree (Ready T i F (some (l.at T p))) (executeStatement host i (l.at T p))
      ((do
        closeFrames i (c.inside + 1)
        goTo i T (c.last + 1)) >>= fun _ => pure ()) := by
  obtain ⟨⟨header, hheader⟩, last, hlast⟩ := hc.statement?
  have hlink := Links.breakTarget?_eq_some (h.holds _) hc.inner hc.ends hc.closes
  rw [executeStatement_line, executeHead_break l.kind_head]
  intro w hw
  have h₁ : (w.script i).breakHeader? (l.at T p) = some header := by
    unfold Script.breakHeader?
    rw [hw.has.linked? h.statement?, hw.links, hlink]
    exact hheader
  have h₂ : (w.script i).breakEnd? (l.at T p) = some last := by
    unfold Script.breakEnd?
    rw [hw.has.linked? h.statement?, hw.links, hlink]
    exact hlast
  have hmachine : executeBreak i (l.at T p) (l.head T p) w = (do
      modifyScript i fun s => { s with frames := s.frames.unwind header true }
      moveTo i (some last)
      advance i : ScriptM σ ι Unit) w := by
    unfold executeBreak
    rw [script_bind, h₁, h₂]
  rw [hmachine]
  exact Agree.trans (.bind_left (agree_unwind ho hc hheader true) _)
    (.bind (Ready.ends_closeFrames (c.inside + 1)) fun _ => agree_moveTo_advance hlast) w hw

/-- Outside of loops a break is an error. -/
theorem agree_break_outside {l : Line .breakLoop} {ns : List Node} (h : Placed T p (l.node :: ns))
    (hc : Family.loops.openAt T.kinds p = []) :
    Agree (Ready T i F (some (l.at T p))) (executeStatement host i (l.at T p))
      ((fail (some (l.head T p)) (.unexpected .breakLoop) : ScriptM σ ι Unit) >>=
        fun _ => pure ()) := by
  rw [executeStatement_line, executeHead_break l.kind_head]
  intro w hw
  have h₁ : (w.script i).breakHeader? (l.at T p) = none := by
    unfold Script.breakHeader?
    rw [hw.has.linked? h.statement?, hw.links, Links.breakTarget?_eq_none hc]
    rfl
  unfold executeBreak
  rw [script_bind, h₁, l.kind_head]
  rfl

theorem agree_continue {l : Line .continueLoop} {ns : List Node} (h : Placed T p (l.node :: ns))
    {hs : List Nat} (ho : Opened T hs p F) {c : Within} (hc : c.Fits T hs p) :
    Agree (Ready T i F (some (l.at T p))) (executeStatement host i (l.at T p))
      ((do
        closeFrames i c.inside
        goTo i T c.header) >>= fun _ => pure ()) := by
  obtain ⟨header, hheader⟩ := hc.statement?.1
  have hlink := Links.continueTarget?_eq (h.holds _)
  rw [executeStatement_line, executeHead_continue l.kind_head]
  intro w hw
  have h₁ : (w.script i).continueTarget? (l.at T p) = some header := by
    unfold Script.continueTarget?
    rw [hw.has.linked? h.statement?, hw.links, hlink, hc.inner]
    exact hheader
  have hmachine : executeContinue i (l.at T p) (l.head T p) w = (do
      modifyScript i fun s => { s with frames := s.frames.unwind header false }
      moveTo i (some header) : ScriptM σ ι Unit) w := by
    unfold executeContinue
    rw [script_bind, h₁]
  have hgo : Agree (Ready (σ := σ) (ι := ι) T i (F.close c.inside) (some (l.at T p)))
      (moveTo i (some header)) (goTo i T c.header) := by
    rw [goTo, hheader]
    exact .refl _
  rw [hmachine]
  exact Agree.trans (.bind_left (agree_unwind ho hc hheader false) _)
    (.bind (Ready.ends_closeFrames c.inside) fun _ => hgo) w hw

/-- Outside of loops a continue is an error. -/
theorem agree_continue_outside {l : Line .continueLoop} {ns : List Node}
    (h : Placed T p (l.node :: ns)) (hc : Family.loops.openAt T.kinds p = []) :
    Agree (Ready T i F (some (l.at T p))) (executeStatement host i (l.at T p))
      ((fail (some (l.head T p)) (.unexpected .continueLoop) : ScriptM σ ι Unit) >>=
        fun _ => pure ()) := by
  have hlink := Links.continueTarget?_eq (h.holds _)
  rw [executeStatement_line, executeHead_continue l.kind_head]
  intro w hw
  have h₁ : (w.script i).continueTarget? (l.at T p) = none := by
    unfold Script.continueTarget?
    rw [hw.has.linked? h.statement?, hw.links, hlink, hc]
    rfl
  unfold executeContinue
  rw [script_bind, h₁, l.kind_head]
  rfl

/-! ### Choices -/

theorem executeHead_if {t : Statement} {head : Site} (hk : head.kind = .ifStart) :
    executeHead host i t head = executeIf host i t head := by
  unfold executeHead
  rw [hk]

theorem executeHead_branch {t : Statement} {head : Site} (hk : head.kind.isBranch = true) :
    executeHead host i t head = skipBranch i t head := by
  have hcases : head.kind = .elseIf ∨ head.kind = .elseStart := of_decide_eq_true hk
  unfold executeHead
  rcases hcases with h | h
  · rw [h]
  · rw [h]

theorem executeHead_ifEnd {t : Statement} {head : Site} (hk : head.kind = .ifEnd) :
    executeHead host i t head = (do
      modifyScript i Script.popFrame
      advance i) := by
  unfold executeHead
  rw [hk]

/-- The branches found by the links are asked as the tail says. -/
theorem enterBranch_eq (c : Option Within) {fallback : Statement} {p : Nat} : (t : Tail) →
    Placed T p t.flatten → T.statement? (t.endAt p) = some fallback →
    enterBranch host i fallback ((t.branches p).filterMap T.statement?) =
      (t.choose host i T c p >>= fun _ => pure ())
  | .close l, _, hf => by
    -- no branch is left, so the machine falls back on the end of the choice
    rw [Tail.branches, Tail.choose, bind_assoc]
    show moveTo i (some fallback) = moveTo i (T.statement? p) >>= fun _ => pure ()
    rw [show T.statement? p = some fallback from hf]
    rfl
  | .elseIf l body rest, h, hf => by
    have ih := enterBranch_eq c rest h.elseIf.2 hf
    rw [Tail.branches, List.filterMap_cons_some h.statement?, enterBranch]
    simp only [l.head?]
    rw [if_neg (by rw [l.kind_head]; decide), Tail.choose, bind_assoc]
    -- both ask the same guard, and both ask the others only when it does not hold
    refine bind_congr fun b => ?_
    cases b with
    | true =>
      show moveTo i (l.at T p).next? = (goTo i T (p + 1) >>= fun _ => _) >>= fun _ => pure ()
      rw [Tree.next?_of_statement? h.statement?]
      rfl
    | false => exact ih
  | .otherwise l body last, h, _ => by
    rw [Tail.branches, List.filterMap_cons_some h.statement?, enterBranch]
    simp only [l.head?]
    rw [if_pos l.kind_head, Tail.choose, bind_assoc]
    show moveTo i (l.at T p).next? = goTo i T (p + 1) >>= fun _ => pure ()
    rw [Tree.next?_of_statement? h.statement?]
    rfl

theorem agree_if (hh : host.Keeps (Steady T i)) {l : Line .ifStart} {body : Block} {tail : Tail}
    (h : Placed T p (Stmt.choice l body tail).flatten) (c : Option Within) (x : Course σ ι) :
    Agree (Ready T i F (some (l.at T p))) (executeStatement host i (l.at T p))
      ((do
        pushFrame i (l.at T p)
        if ← evaluateGuard host i (l.head T p) then
          goTo i T (p + 1)
          return x
        else tail.choose host i T c (p + 1 + body.size)) >>= fun _ => pure ()) := by
  have ht : T.statement? p = some (l.at T p) := h.statement?
  have hlast := h.choice.2.last.statement?
  have hin : (Family.choices.openAt T.kinds (p + 1 + body.size)).head? = some p := by
    rw [openAt_choice h, List.head?_cons]
  rw [executeStatement_line, executeHead_if l.kind_head]
  unfold executeIf
  simp only [bind_assoc]
  refine .bind (Ready.ends_pushFrame _) fun _ => .bind (Ready.ends_guard hh _) fun b => ?_
  cases b with
  | true => exact agree_advance ht
  | false =>
    intro w hw
    have hend : (w.script i).choiceEnd? (l.at T p) =
        some (tail.last.at T (tail.endAt (p + 1 + body.size))) := by
      unfold Script.choiceEnd?
      rw [hw.has.linked? ht, hw.links, Links.choiceEnd?_tail h.choice.2 hin]
      exact hlast
    have hbranches : (w.script i).branches (l.at T p) =
        (tail.branches (p + 1 + body.size)).filterMap T.statement? := by
      rw [hw.branches ht, Links.branchesOf_choice h]
    simp only [Bool.false_eq_true, if_false]
    rw [script_bind, hend, hbranches]
    show (modifyScript i Script.clearTimeout >>= fun _ => _ : ScriptM σ ι Unit) w = _
    rw [bind_of_ok (clearTimeout_of_ready hw), enterBranch_eq c tail h.choice.2 hlast]

/-- A further branch, reached from the one before it, leads to the end of the choice. -/
theorem agree_skip {k : Kind} (hk : k.isBranch = true) {l : Line k} {ns : List Node}
    (h : Placed T p (l.node :: ns)) {s e : Nat}
    (hin : (Family.choices.openAt T.kinds p).head? = some s)
    (hend : (Links.ofKinds T.kinds).choiceEnd? s = some e) :
    Agree (Ready T i F (some (l.at T p))) (executeStatement host i (l.at T p))
      (goTo i T e >>= fun _ => pure ()) := by
  obtain ⟨last, hlast⟩ := Tree.exists_statement?
    (lt_length_of_holds (Links.choiceEnd?_eq_some_iff.mp hend).1)
  rw [executeStatement_line, executeHead_branch (by rw [l.kind_head]; exact hk)]
  intro w hw
  have hlink : (w.script i).branchEnd? (l.at T p) = some last := by
    unfold Script.branchEnd?
    rw [hw.has.linked? h.statement?, hw.links, Links.branchEnd?_eq ((h.holds _).trans hk) hin, hend]
    exact hlast
  unfold skipBranch
  rw [script_bind, hlink]
  show (modifyScript i Script.clearTimeout >>= fun _ => _ : ScriptM σ ι Unit) w = _
  rw [bind_of_ok (clearTimeout_of_ready hw), goTo, hlast]
  rfl

theorem agree_ifEnd {l : Line .ifEnd} {ns : List Node} (h : Placed T p (l.node :: ns)) :
    Agree (Ready T i F (some (l.at T p))) (executeStatement host i (l.at T p))
      ((do
        modifyScript i Script.popFrame
        goTo i T (p + 1)) >>= fun _ => pure ()) := by
  rw [executeStatement_line, executeHead_ifEnd l.kind_head]
  exact .bind Ready.ends_popFrame fun _ => agree_advance h.statement?

end

end Cadence
