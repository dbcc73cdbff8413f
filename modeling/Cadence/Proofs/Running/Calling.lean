/-
  CALLING — a counted loop whose body jumps away and comes back.

  The header of a counted loop tells a first visit from a further one by the innermost frame alone.
  So it matters in which frames a subroutine returns, for a return takes them along as they are.

  1. **Passages** — ticks lead from one world to another, and some of them from the header into the
     body (`Passage`).  What is known before and after them is told by `Leads`, which goes through
     sequences.

  2. **Rounds** — one way through the body, with a jump and a return on it (`Round`).

  3. **The passes** — when each return finds the frames of its pass, the body is entered as often as
     the loop counts, and the script goes on behind the end in the frames from before the loop.
     When each return leaves another frame innermost, the header always begins again, and the body
     is entered for ever (`Counted.passes_of_rounds`).

  4. **Two loops that call** — one whose subroutine returns at once, and one whose subroutine returns
     from inside a choice.
-/
import Cadence.Proofs.Running.Poised

namespace Cadence

open ScriptM

section

variable {σ ι : Type}

/-! ## Passages -/

/-- A script goes on from a statement to the next, as from a header into the body of its loop. -/
def Enters (i : Nat) (t : Statement) (u v : World σ ι) : Prop :=
  (u.script i).cursor = some t ∧ (v.script i).cursor = t.next?

/-- Ticks lead from one world to another, and none of them fails.  The number tells how many of them
go on from the statement to the next. -/
inductive Passage (host : Host σ ι) (i : Nat) (t : Statement) (w : World σ ι) :
    Nat → World σ ι → Prop
  /-- No ticks at all. -/
  | start : Passage host i t w 0 w
  /-- One more tick, which goes on from the statement to the next. -/
  | enter {n u b v} : Passage host i t w n u → tick host i u = .ok b v → Enters i t u v →
      Passage host i t w (n + 1) v
  /-- One more tick, which does not. -/
  | tick {n u b v} : Passage host i t w n u → tick host i u = .ok b v → ¬ Enters i t u v →
      Passage host i t w n v

theorem Passage.trans {host : Host σ ι} {i : Nat} {t : Statement} {u v w : World σ ι} {m n : Nat}
    (h : Passage host i t u m v) (h' : Passage host i t v n w) :
    Passage host i t u (m + n) w := by
  induction h' with
  | start => exact h
  | enter _ htick henters ih => exact .enter ih htick henters
  | tick _ htick hnot ih => exact .tick ih htick hnot

/-- Wherever the first holds, ticks lead to where the second holds, and so many of them go on from
the statement to the next. -/
def Leads (host : Host σ ι) (i : Nat) (t : Statement) (P : World σ ι → Prop) (n : Nat)
    (Q : World σ ι → Prop) : Prop :=
  ∀ w, P w → ∃ v, Passage host i t w n v ∧ Q v

variable {host : Host σ ι} {i : Nat} {t : Statement}

namespace Leads

variable {P Q R : World σ ι → Prop} {m n : Nat}

theorem here (h : ∀ w, P w → Q w) : Leads host i t P 0 Q := fun w hw => ⟨w, .start, h w hw⟩

theorem andThen (hx : Leads host i t P m Q) (hy : Leads host i t Q n R) :
    Leads host i t P (m + n) R := by
  intro w hw
  obtain ⟨u, hu, hQ⟩ := hx w hw
  obtain ⟨v, hv, hR⟩ := hy u hQ
  exact ⟨v, hu.trans hv, hR⟩

theorem enter (h : ∀ w, P w → ∃ b v, Cadence.tick host i w = .ok b v ∧ Enters i t w v ∧ Q v) :
    Leads host i t P 1 Q := by
  intro w hw
  obtain ⟨b, v, htick, henters, hv⟩ := h w hw
  exact ⟨v, .enter .start htick henters, hv⟩

theorem tick (h : ∀ w, P w → ∃ b v, Cadence.tick host i w = .ok b v ∧ ¬ Enters i t w v ∧ Q v) :
    Leads host i t P 0 Q := by
  intro w hw
  obtain ⟨b, v, htick, hnot, hv⟩ := h w hw
  exact ⟨v, .tick .start htick hnot, hv⟩

end Leads

/-! ## Rounds -/

variable {T : Tree} {K : Table (Handler Bundled.Command ι)}

/-- The script is about to return, in frames of a kind. -/
def Returns (T : Tree) (i : Nat) (K : Table (Handler Bundled.Command ι)) (Γ : Frames → Prop)
    (S : List Statement) (w : World σ ι) : Prop :=
  ∃ r args, PoisedIn T i K (some r) Γ S w ∧ r.Asks i .return_ args w

/-- **A way through the body of a loop that makes a call.**  It begins in frames of one kind, and
its return happens in frames of another.  No part of it leads through the header into the body. -/
structure Round (host : Host σ ι) (T : Tree) (i : Nat) (K : Table (Handler Bundled.Command ι))
    (t : Statement) (p e : Nat) (S : List Statement) (Γ Δ : Frames → Prop) (k q : Nat)
    (g : Statement) : Prop where
  /-- The body leads to the jump. -/
  before : Leads host i t (PoisedIn T i K (T.statement? (p + 1)) Γ S) 0
    (PoisedIn T i K (some g) Γ S)
  /-- It jumps to the subroutine. -/
  jumps : ∀ v : World σ ι, PoisedIn T i K (some g) Γ S v → ∃ line more n,
    g.Asks i .goto (line :: more) v ∧ v.asInt line = .ok n ∧
      (v.script i).statementOn? n = T.statement? q
  /-- The subroutine leads to a return. -/
  called : Leads host i t (PoisedIn T i K (T.statement? q) Γ (g :: S)) 0
    (Returns T i K Δ (g :: S))
  /-- What stands behind the jump leads to the end of the loop. -/
  after : Leads host i t (PoisedIn T i K (T.statement? (k + 1)) Δ S) 0
    (PoisedIn T i K (T.statement? e) Δ S)

/-- A statement that asks a command is no header. -/
theorem Counted.ne_of_asks {p e : Nat} {bound : Site} (hl : Counted T p e t bound)
    {a : Statement} {c : Bundled.Command} {args : List Argument} {w : World σ ι}
    (ha : a.Asks i c args w) : a ≠ t := by
  rintro rfl
  obtain ⟨head, hhead, hkind, -⟩ := hl.head
  have hcommand := ha.command
  rw [Statement.isCommand_of_head? hhead, hkind] at hcommand
  exact absurd hcommand (by decide)

/-- The end of a loop is not its header. -/
theorem Counted.ending_ne_header {p e : Nat} {bound : Site} (hl : Counted T p e t bound) :
    T.statement? e ≠ some t := fun h =>
  absurd (Tree.eq_of_statement? h hl.header) (Nat.ne_of_gt hl.lt)

/-- A tick from another statement than the header does not enter the body. -/
theorem Poised.not_enters {c : Option Statement} {F : Frames} {S : List Statement}
    {w v : World σ ι} (hw : Poised T i K c F S w) (hc : c ≠ some t) : ¬ Enters i t w v :=
  fun h => hc (hw.cursor.symm.trans h.1)

namespace Round

variable {p e k q : Nat} {bound : Site} {g : Statement} {S : List Statement}
  {Γ Δ : Frames → Prop}

/-- **A round leads from the beginning of the body back to the header**, in the frames in which the
subroutine returned. -/
theorem leads (hl : Counted T p e t bound) (hh : host.Unobtrusive) (hg : T.statement? k = some g)
    (hq : q < T.kinds.length) (h : Round host T i K t p e S Γ Δ k q g) :
    Leads host i t (PoisedIn T i K (T.statement? (p + 1)) Γ S) 0 (PoisedIn T i K (some t) Δ S) := by
  have there : Leads host i t (PoisedIn T i K (some g) Γ S) 0
      (PoisedIn T i K (T.statement? q) Γ (g :: S)) := by
    refine .tick fun w hw => ?_
    obtain ⟨line, more, n, ha, hint, hline⟩ := h.jumps w hw
    obtain ⟨G, hG, hp⟩ := hw
    obtain ⟨b, v, htick, hv⟩ := tick_of_jump hh hp ha hint hline hq
    exact ⟨b, v, htick, hp.not_enters (by simpa using hl.ne_of_asks ha), G, hG, hv⟩
  have back : Leads host i t (Returns T i K Δ (g :: S)) 0
      (PoisedIn T i K (T.statement? (k + 1)) Δ S) := by
    refine .tick fun w hw => ?_
    obtain ⟨r, args, ⟨G, hG, hp⟩, ha⟩ := hw
    obtain ⟨b, v, htick, hv⟩ := tick_of_return hh hp ha hg
    exact ⟨b, v, htick, hp.not_enters (by simpa using hl.ne_of_asks ha), G, hG, hv⟩
  have again : Leads host i t (PoisedIn T i K (T.statement? e) Δ S) 0
      (PoisedIn T i K (some t) Δ S) := by
    refine .tick fun w hw => ?_
    obtain ⟨G, hG, hp⟩ := hw
    obtain ⟨b, v, htick, hv⟩ := hl.tick_of_end hh hp
    exact ⟨b, v, htick, hp.not_enters hl.ending_ne_header, G, hG, hv⟩
  exact ((((h.before.andThen there).andThen h.called).andThen back).andThen h.after).andThen again

end Round

/-! ## The passes -/

namespace Counted

variable {p e : Nat} {bound : Site} {S : List Statement} {F : Frames} {n : Int}
  {V : Table Argument → Prop} (hl : Counted T p e t bound) (hh : host.Unobtrusive)
include hl

/-- From the header into the body. -/
theorem enters {G : Frames} {w v : World σ ι} (hw : Poised T i K (some t) F S w)
    (hv : Poised T i K (T.statement? (p + 1)) G S v) : Enters i t w v :=
  ⟨hw.cursor, by rw [hv.cursor, Tree.next?_of_statement? hl.header]⟩

/-- From the header behind the end of the loop. -/
theorem not_enters {G : Frames} {w v : World σ ι}
    (hv : Poised T i K (T.statement? (e + 1)) G S v) : ¬ Enters i t w v := by
  rintro ⟨-, hnext⟩
  obtain ⟨u, _, hu, -⟩ := hl.ending
  have hlt := hl.lt
  obtain ⟨a, ha⟩ := T.exists_statement? (Nat.lt_of_le_of_lt hlt (Tree.lt_of_statement? hu))
  rw [hv.cursor, Tree.next?_of_statement? hl.header, ha] at hnext
  have := Tree.eq_of_statement? hnext ha
  omega

include hh

/-- **From before a pass, the body is entered once for each pass that is left**, if each pass comes
back to the header in its own frames. -/
theorem leads_passes {P : World σ ι → Prop} {j : Nat}
    (hround : ∀ j : Nat, (j : Int) < n →
      Leads host i t (PoisedIn T i K (T.statement? (p + 1)) (F.Passing t n V j) S) 0
        (PoisedIn T i K (some t) (F.Passing t n V j) S))
    (hP : ∀ w, P w → (∃ G, Poised T i K (some t) G S w) ∧
      ∃ b v, tick host i w = .ok b v ∧ BeforePass T i K p e F t n V j S v) :
    Leads host i t P (n - j).toNat (Poised T i K (T.statement? (e + 1)) F S) := by
  -- by induction on the number of passes that are left
  generalize hm : (n - j).toNat = m
  induction m generalizing j P with
  | zero =>
    refine .tick fun w hw => ?_
    obtain ⟨-, b, v, htick, hv⟩ := hP w hw
    have hj : ¬ (j : Int) < n := by omega
    rw [BeforePass, if_neg hj] at hv
    exact ⟨b, v, htick, hl.not_enters hv, hv⟩
  | succ m ih =>
    have hj : (j : Int) < n := by omega
    have into : Leads host i t P 1
        (PoisedIn T i K (T.statement? (p + 1)) (F.Passing t n V j) S) := by
      refine .enter fun w hw => ?_
      obtain ⟨⟨_, hp⟩, b, v, htick, hv⟩ := hP w hw
      rw [BeforePass, if_pos hj] at hv
      obtain ⟨G, hG, hpv⟩ := hv
      exact ⟨b, v, htick, hl.enters hp hpv, G, hG, hpv⟩
    have rest := ih (P := PoisedIn T i K (some t) (F.Passing t n V j) S) (j := j + 1)
      (fun w hw => ⟨hw.imp fun _ h => h.2, hl.tick_of_passing hh hw⟩) (by omega)
    rw [show m + 1 = 1 + 0 + m by omega]
    exact (into.andThen (hround j hj)).andThen rest

/-- **If another frame is innermost whenever the script comes back to the header, the body is
entered for ever.** -/
theorem leads_for_ever {Φ : Frames → Prop} (hV : V .empty) (hn : 0 < n)
    (hnew : ∀ G, Φ G → G.top.openedBy t = false)
    (hbound : ∀ w : World σ ι, PoisedIn T i K (some t) Φ S w → w.asUInt ⟨i, bound⟩ = .ok n)
    (hround : Leads host i t
      (PoisedIn T i K (T.statement? (p + 1)) (fun G => ∃ F, Φ F ∧ F.Passing t n V 0 G) S) 0
      (PoisedIn T i K (some t) Φ S)) (m : Nat) :
    Leads host i t (PoisedIn T i K (some t) Φ S) m (PoisedIn T i K (some t) Φ S) := by
  induction m with
  | zero => exact .here fun _ h => h
  | succ m ih =>
    have into : Leads host i t (PoisedIn T i K (some t) Φ S) 1
        (PoisedIn T i K (T.statement? (p + 1)) (fun G => ∃ F, Φ F ∧ F.Passing t n V 0 G) S) := by
      refine .enter fun w hw => ?_
      have hu := hbound w hw
      obtain ⟨F, hF, hp⟩ := hw
      obtain ⟨b, v, htick, hv⟩ := hl.tick_of_new hh hV hp (hnew F hF) hu
      rw [BeforePass, if_pos (show ((0 : Nat) : Int) < n from hn)] at hv
      obtain ⟨G, hG, hpv⟩ := hv
      exact ⟨b, v, htick, hl.enters hp hpv, G, ⟨F, hF, hG⟩, hpv⟩
    exact (ih.andThen into).andThen hround

/-- **How often the body of a counted loop is entered when it calls a subroutine.**  Let a script
come to the header of a loop of `n` passes, with another frame innermost.

* If in each pass the return happens in the frames of the pass, the body is entered `n` times, and
  the script goes on behind the end of the loop, in the frames from before the loop.
* If there is a pass, and each return leaves a frame innermost that is not that of the loop, the
  body is entered more often than any number. -/
theorem passes_of_rounds (hV : V .empty) {k q : Nat} {g : Statement} {w : World σ ι}
    (hg : T.statement? k = some g) (hq : q < T.kinds.length)
    (hw : Poised T i K (some t) F S w) (hnew : F.top.openedBy t = false)
    (hn : w.asUInt ⟨i, bound⟩ = .ok n) :
    ((∀ j : Nat, (j : Int) < n →
        Round host T i K t p e S (F.Passing t n V j) (F.Passing t n V j) k q g) →
      ∃ v, Passage host i t w n.toNat v ∧ Poised T i K (T.statement? (e + 1)) F S v) ∧
    (0 < n → ∀ Φ : Frames → Prop, Φ F → (∀ G, Φ G → G.top.openedBy t = false) →
      (∀ v : World σ ι, PoisedIn T i K (some t) Φ S v → v.asUInt ⟨i, bound⟩ = .ok n) →
      Round host T i K t p e S (fun G => ∃ F, Φ F ∧ F.Passing t n V 0 G) Φ k q g →
      ∀ m, ∃ v, Passage host i t w m v) := by
  constructor
  · intro hrounds
    refine hl.leads_passes (P := fun v => v = w) hh (fun j hj => (hrounds j hj).leads hl hh hg hq)
      (j := 0) ?_ w rfl |>.imp fun v hv => ?_
    · rintro _ rfl
      exact ⟨⟨F, hw⟩, hl.tick_of_new hh hV hw hnew hn⟩
    · rwa [show (n - (0 : Nat)).toNat = n.toNat by simp] at hv
  · intro hpos Φ hF hforeign hbound hround m
    obtain ⟨v, hv, -⟩ := hl.leads_for_ever hh hV hpos hforeign hbound (hround.leads hl hh hg hq) m w
      ⟨F, hF, hw⟩
    exact ⟨v, hv⟩

end Counted

end

/-! ## Two loops that call -/

/-- No frame binds a variable. -/
def Frames.Bare (F : Frames) : Prop := ∀ f ∈ F.toList, f.vars = .empty

theorem Frames.Bare.push {F : Frames} (hF : F.Bare) (t : Statement) : (F.push t).Bare := by
  intro f hf
  rcases List.mem_cons.mp hf with rfl | hf
  · rfl
  · exact hF f hf

theorem Frames.Passing.bare {F G : Frames} {t : Statement} {n : Int} {j : Nat}
    (hG : F.Passing t n (· = .empty) j G) (hF : F.Bare) : G.Bare := by
  intro f hf
  rw [Frames.toList, hG.outer] at hf
  rcases List.mem_cons.mp hf with rfl | hf
  · exact hG.vars
  · exact hF f hf

section

variable {σ ι : Type} {T : Tree} {i : Nat} {K : Table (Handler Bundled.Command ι)}
  {c : Option Statement} {F : Frames} {S : List Statement} {w : World σ ι}

/-- In bare frames a text means itself. -/
theorem Poised.resolveText_of_bare (h : Poised T i K c F S w) (hF : F.Bare) {site : Site}
    {text : String} (hs : site.lexeme = some text) (reading : Reading) :
    w.resolveText reading ⟨i, site⟩ = .ok (text, site) := by
  have ha : Argument.lexeme ⟨i, site⟩ = some text := hs
  refine resolveText_of_unbound ha ?_ reading
  unfold Script.lookup
  rw [h.frames, Scope.lookup_eq_none_iff]
  intro vars hvars
  obtain ⟨f, hf, rfl⟩ := List.mem_map.mp hvars
  rw [hF f hf, Table.get?_empty]

theorem Poised.asInt_of_bare (h : Poised T i K c F S w) (hF : F.Bare) {site : Site}
    {text : String} (hs : site.lexeme = some text) :
    w.asInt ⟨i, site⟩ = Literal.toInt (some text) (some site) := by
  unfold World.asInt World.read
  rw [h.resolveText_of_bare hF hs]

theorem Poised.asUInt_of_bare (h : Poised T i K c F S w) (hF : F.Bare) {site : Site}
    {text : String} (hs : site.lexeme = some text) :
    w.asUInt ⟨i, site⟩ = Literal.toUInt (some text) (some site) := by
  unfold World.asUInt World.read
  rw [h.resolveText_of_bare hF hs]

end

/-- The header of a counted loop. -/
def headerLine (passes : String) : Node where
  kind := .statement
  line := 1
  children := [{ kind := .forStart, children := [{ kind := .integer, lexeme := some passes }] }]

/-- The number of passes in that header. -/
def passesSite (passes : String) (above : List (Node × Nat)) : Site where
  node := { kind := .integer, lexeme := some passes }
  above

theorem lexeme_passesSite (passes : String) (above : List (Node × Nat)) :
    (passesSite passes above).lexeme = some passes := rfl

/-- A jump in the body. -/
def jumpLine (target : String) : Node where
  kind := .statement
  line := 2
  children := [{ kind := .command, lexeme := some "goto" },
    { kind := .integer, lexeme := some target }]

/-- A statement of one word. -/
def wordLine (line : Int) (kind : Kind) (lexeme : Option String) : Node where
  kind := .statement
  line
  children := [{ kind, lexeme }]

/-- A choice whose guard holds. -/
def choiceLine (line : Int) : Node where
  kind := .statement
  line
  children :=
    [{ kind := .ifStart
       children := [{ kind := .binary
                      children := [{ kind := .integer, lexeme := some "1" },
                        { kind := .equal, lexeme := some "==" },
                        { kind := .integer, lexeme := some "1" }] }] }]

/-- A loop whose body calls a subroutine that is given. -/
def callingRoot (passes : String) (subroutine : List Node) : Node where
  kind := .script
  children :=
    [headerLine passes, jumpLine "5", wordLine 3 .forEnd none, wordLine 4 .stop none] ++ subroutine

/-- A statement of a tree that is the first to be loaded. -/
def lineOf (root : Node) (k : Nat) : Statement where
  load := 0
  site := ⟨root.children.getD k default, [(root, k)]⟩

/-- A world in which a script begins that may jump and return. -/
def loopingWorld (root : Node) : World Unit Unit :=
  { awayWorld with scripts := #[.start "looping" root] }

section

variable {passes : String} {subroutine : List Node}

theorem counted_calling (passes : String) (subroutine : List Node) :
    ∃ above, Counted ⟨callingRoot passes subroutine, 0⟩ 0 2
      (lineOf (callingRoot passes subroutine) 0) (passesSite passes above) := by
  exact ⟨_, rfl, rfl, ⟨_, rfl, rfl, rfl⟩, rfl, ⟨_, _, rfl, rfl, rfl, rfl⟩,
    Links.mem_loopEnds.mpr (.inr ⟨rfl, rfl⟩)⟩

/-- In bare frames the body jumps to the subroutine. -/
theorem jumps_calling {G : Frames} {S : List Statement} {v : World Unit Unit}
    (hline : (Script.start (ι := Unit) "looping" (callingRoot passes subroutine)).statementOn? 5 =
      Tree.statement? ⟨callingRoot passes subroutine, 0⟩ 4)
    (hv : Poised ⟨callingRoot passes subroutine, 0⟩ 0 awayWorld.registry.commands
      (some (lineOf (callingRoot passes subroutine) 1)) G S v) (hG : G.Bare) :
    ∃ line more n, (lineOf (callingRoot passes subroutine) 1).Asks 0 .goto (line :: more) v ∧
      v.asInt line = .ok n ∧ (v.script 0).statementOn? n =
        Tree.statement? ⟨callingRoot passes subroutine, 0⟩ 4 := by
  refine ⟨⟨0, (lineOf (callingRoot passes subroutine) 1).site.children.getD 1 default⟩, [], 5,
    ⟨rfl, rfl, _, "goto", _, rfl, ?_, rfl⟩, ?_, ?_⟩
  · rw [hv.commands, awayWorld_goto]
  · rw [hv.asInt_of_bare hG rfl]
    rfl
  · rw [← hline]
    unfold Script.statementOn?
    rw [hv.root, hv.load]
    rfl

/-- A return that the script knows. -/
theorem asks_return {v : World Unit Unit} (hv : v.registry.commands = awayWorld.registry.commands)
    (line : Int) (above : List (Node × Nat)) :
    Statement.Asks 0 .return_ [] v ⟨0, ⟨wordLine line .command "return", above⟩⟩ := by
  refine ⟨rfl, rfl, _, "return", _, rfl, ?_, rfl⟩
  rw [hv, awayWorld_return]

/-- A script at the beginning of a loop. -/
theorem poised_calling (passes : String) (subroutine : List Node) :
    Poised ⟨callingRoot passes subroutine, 0⟩ 0 awayWorld.registry.commands
      (some (lineOf (callingRoot passes subroutine) 0)) {} []
      (loopingWorld (callingRoot passes subroutine)) :=
  ⟨Nat.zero_lt_one, rfl, rfl, rfl, rfl, rfl, rfl, rfl, rfl⟩

end

/-- No variable is bound at the beginning. -/
theorem bare_of_start : Frames.Bare {} := fun f hf => by
  rw [List.mem_singleton.mp hf]

/-- A loop of two passes, whose subroutine returns at once. -/
def promptRoot : Node := callingRoot "2" [wordLine 5 .command "return"]

theorem passes_of_rounds_prompt :
    quietHost.Unobtrusive ∧
      ∃ v, Passage quietHost 0 (lineOf promptRoot 0) (loopingWorld promptRoot) 2 v ∧
        Poised ⟨promptRoot, 0⟩ 0 awayWorld.registry.commands (some (lineOf promptRoot 3)) {} []
          v := by
  obtain ⟨above, hl⟩ := counted_calling "2" [wordLine 5 .command "return"]
  have hround : ∀ j : Nat, (j : Int) < 2 → Round quietHost ⟨promptRoot, 0⟩ 0
      awayWorld.registry.commands (lineOf promptRoot 0) 0 2 []
      (Frames.Passing {} (lineOf promptRoot 0) 2 (· = .empty) j)
      (Frames.Passing {} (lineOf promptRoot 0) 2 (· = .empty) j) 1 4 (lineOf promptRoot 1) := by
    intro j _
    constructor
    · exact .here fun _ h => h
    · rintro v ⟨G, hG, hv⟩
      exact jumps_calling rfl hv (hG.bare bare_of_start)
    · refine .here fun v hv => ⟨lineOf promptRoot 4, [], hv, ?_⟩
      obtain ⟨_, _, hv⟩ := hv
      exact asks_return hv.commands 5 _
    · exact .here fun _ h => h
  have hbegin := poised_calling "2" [wordLine 5 .command "return"]
  have hn : (loopingWorld promptRoot).asUInt ⟨0, passesSite "2" above⟩ = .ok 2 :=
    hbegin.asUInt_of_bare bare_of_start (lexeme_passesSite "2" above)
  exact ⟨quietHost_unobtrusive, (hl.passes_of_rounds (V := (· = .empty)) (k := 1) (q := 4)
    quietHost_unobtrusive rfl rfl (by decide) hbegin rfl hn).1 hround⟩

/-- A subroutine that returns from inside a choice. -/
def hastySubroutine : List Node :=
  [choiceLine 5, wordLine 6 .command "return", wordLine 7 .ifEnd none]

/-- A loop of one pass, which calls that subroutine. -/
def hastyRoot : Node := callingRoot "1" hastySubroutine

theorem evaluateGuard_choiceLine (line : Int) (above : List (Node × Nat)) (v : World Unit Unit) :
    evaluateGuard quietHost 0 ⟨(choiceLine line).children.getD 0 default, above⟩ v =
      .ok true v := by
  show evaluate quietHost 0 _ v = _
  rw [evaluate]
  rfl

/-- **A return from inside a choice leaves the frame of the choice above that of the loop**: so the
header always begins again, and the body of a loop of one pass is entered for ever. -/
theorem for_ever_of_hasty :
    ∃ bound, Counted ⟨hastyRoot, 0⟩ 0 2 (lineOf hastyRoot 0) bound ∧
      (loopingWorld hastyRoot).asUInt ⟨0, bound⟩ = .ok 1 ∧
      ∀ m, ∃ v, Passage quietHost 0 (lineOf hastyRoot 0) (loopingWorld hastyRoot) m v := by
  obtain ⟨above, hl⟩ := counted_calling "1" hastySubroutine
  have hbegin := poised_calling "1" hastySubroutine
  let Φ : Frames → Prop := fun G => G.Bare ∧ G.top.openedBy (lineOf hastyRoot 0) = false
  have hround : Round quietHost ⟨hastyRoot, 0⟩ 0 awayWorld.registry.commands (lineOf hastyRoot 0)
      0 2 [] (fun G => ∃ F, Φ F ∧ F.Passing (lineOf hastyRoot 0) 1 (· = .empty) 0 G) Φ 1 4
      (lineOf hastyRoot 1) := by
    constructor
    · exact .here fun _ h => h
    · rintro v ⟨G, ⟨F, hF, hG⟩, hv⟩
      exact jumps_calling rfl hv (hG.bare hF.1)
    · -- the choice opens its frame, and then comes the return
      refine .tick fun v hv => ?_
      obtain ⟨G, ⟨F, hF, hG⟩, hv⟩ := hv
      obtain ⟨b, u, htick, hu⟩ := tick_of_choice (k := 4) (t := lineOf hastyRoot 4)
        quietHost_unobtrusive rfl rfl rfl rfl (evaluateGuard_choiceLine 5 _) hv
      have hother : Tree.statement? ⟨hastyRoot, 0⟩ 4 ≠ some (lineOf hastyRoot 0) := fun h =>
        absurd (Tree.eq_of_statement? h hl.header) (by decide)
      refine ⟨b, u, htick, hv.not_enters hother, lineOf hastyRoot 5, [],
        ⟨_, ⟨(hG.bare hF.1).push _, rfl⟩, hu⟩, ?_⟩
      exact asks_return hu.commands 6 _
    · exact .here fun _ h => h
  have hbound : ∀ w : World Unit Unit, PoisedIn ⟨hastyRoot, 0⟩ 0 awayWorld.registry.commands
      (some (lineOf hastyRoot 0)) Φ [] w →
      w.asUInt ⟨0, passesSite "1" above⟩ = .ok 1 := by
    rintro w ⟨G, hG, hw⟩
    exact hw.asUInt_of_bare hG.1 (lexeme_passesSite "1" above)
  have hstart : PoisedIn ⟨hastyRoot, 0⟩ 0 awayWorld.registry.commands
      (some (lineOf hastyRoot 0)) Φ [] (loopingWorld hastyRoot) :=
    ⟨{}, ⟨bare_of_start, rfl⟩, hbegin⟩
  refine ⟨_, hl, hbound _ hstart, fun m => ?_⟩
  obtain ⟨v, hv, -⟩ := hl.leads_for_ever (V := (· = .empty)) quietHost_unobtrusive rfl (by decide)
    (fun G hG => hG.2) hbound (hround.leads hl quietHost_unobtrusive rfl (by decide)) m _ hstart
  exact ⟨v, hv⟩

end Cadence
