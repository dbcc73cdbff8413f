/-
  CEASING — ticks that do not go on for ever.

  1. **Proceeding** — a tick that lets the script go on, and whatever happens until the next one
     (`Proceeds`).  Ticking CEASES when no chain of these is without end (`Ceases`), and then a run
     ends (`Ceases.run`).

  2. **What is asked of the others** — the command is done and leaves the script where it is, and no
     list that a loop around the statement goes through gets longer (`Fair`).

  3. **Resuming** — from wherever a part of a program lands, ticking ceases (`Resumable`); then it
     ceases from its beginning (`Resumes`).  The variables of the script do not matter for that, only
     what the frames are for (`Frames.marks`).  One line resumes what it leads to
     (`ResumesWith.line`); here are the lines that lead to one place.
-/
import Cadence.Proofs.Meaning.Simulation
import Cadence.World.Run
import Mathlib.Logic.Relation

namespace Cadence

open ScriptM

/-- The list that the loop of a statement goes through, if it opens such a loop. -/
def Statement.list? (t : Statement) : Option String :=
  t.head?.bind fun head =>
    if head.kind = .forEachStart then head.children[1]?.bind Site.lexeme else none

/-- A position belongs to a loop that goes through a list, from its header to its end. -/
def Tree.GoesThrough (T : Tree) (p : Nat) (name : String) : Prop :=
  ∃ header last t, (header, last) ∈ (Links.ofKinds T.kinds).loopEnds ∧ header ≤ p ∧ p ≤ last ∧
    T.statement? header = some t ∧ t.list? = some name

section

variable {σ ι α : Type}

/-- No list that a loop around a position goes through is longer than it was. -/
def NoLonger (T : Tree) (p : Nat) (w w' : World σ ι) : Prop :=
  ∀ name, T.GoesThrough p name → w'.listLength name ≤ w.listLength name

/-! ## Variables do not matter -/

/-- What the frames are for: the statements that opened them and their counts, innermost first. -/
def Frames.marks (F : Frames) : List (Option Statement × Option Count) :=
  F.toList.map fun f => (f.start, f.loop)

/-- A script is left where it is, though its variables may change. -/
structure Unshifted (T : Tree) (i : Nat) (w w' : World σ ι) : Prop extends SamePlace i w w' where
  /-- Its frames were opened by the same statements, and count the same passes. -/
  marks : (w'.script i).frames.marks = (w.script i).frames.marks
  /-- It runs, or is suspended, as before. -/
  activity : (w'.script i).activity = (w.script i).activity
  /-- The words of the tree are not given away to commands that move. -/
  tame : Tame T w → Tame T w'

theorem Steady.unshifted {T : Tree} {i : Nat} {w w' : World σ ι} (h : Steady T i w w') :
    Unshifted T i w w' :=
  ⟨h.toSamePlace, congrArg Frames.marks h.frames, h.activity, h.tame⟩

theorem Ready.unshifted {T : Tree} {i : Nat} {F : Frames} {c : Option Statement} {w w' : World σ ι}
    (h : Ready T i F c w) (hw : Unshifted T i w w') :
    ∃ G, G.marks = F.marks ∧ Ready T i G c w' :=
  ⟨_, hw.marks.trans (congrArg Frames.marks h.frames), hw.size h.size, hw.root.trans h.root,
    hw.load.trans h.load, hw.links.trans h.links, hw.cursor.trans h.cursor, rfl,
    hw.activity.trans h.activity, hw.tame h.tame⟩

namespace Frames

variable {F G : Frames}

theorem marks_pop (h : G.marks = F.marks) : G.pop.marks = F.pop.marks := by
  obtain ⟨g, gs⟩ := G
  obtain ⟨f, fs⟩ := F
  have houter := (List.cons.inj h).2
  cases gs with
  | nil =>
    cases fs with
    | nil => exact h
    | cons _ _ => exact absurd houter nofun
  | cons _ _ =>
    cases fs with
    | nil => exact absurd houter nofun
    | cons _ _ => exact houter

theorem marks_close (h : G.marks = F.marks) (n : Nat) : (G.close n).marks = (F.close n).marks := by
  induction n generalizing F G with
  | zero => exact h
  | succ n ih => exact ih (marks_pop h)

theorem starts_of_marks (h : G.marks = F.marks) : G.starts = F.starts := by
  have hfst : ∀ F : Frames, F.starts = F.marks.map Prod.fst := by
    intro F
    rw [marks, List.map_map]
    rfl
  rw [hfst, hfst, h]

end Frames

theorem Opened.congr {T : Tree} {hs : List Nat} {p : Nat} {F G : Frames} (h : Opened T hs p F)
    (hG : G.marks = F.marks) : Opened T hs p G :=
  ⟨(Frames.starts_of_marks hG).trans h.starts, h.before, h.within⟩

/-- The frames at a header are those of `Loop.Entered`, except for the variables. -/
def Loop.EnteredLike (sort : Loop) (F : Frames) (t : Statement) (a : Option Count) (G : Frames) :
    Prop :=
  ∃ F', F'.marks = F.marks ∧ sort.Entered F' t a G

theorem Loop.EnteredLike.congr {sort : Loop} {F G H : Frames} {t : Statement} {a : Option Count}
    (h : sort.EnteredLike F t a G) (hH : H.marks = G.marks) : sort.EnteredLike F t a H := by
  obtain ⟨F', hF', hG⟩ := h
  cases a with
  | none =>
    obtain rfl : G = F' := hG
    exact ⟨H, hH.trans hF', rfl⟩
  | some c =>
    obtain ⟨hout, hstart, hloop⟩ := hG
    obtain ⟨top, outer⟩ := H
    obtain ⟨htop, houter⟩ := List.cons.inj hH
    cases outer with
    | nil =>
      rw [hout] at houter
      exact absurd houter nofun
    | cons f fs =>
      refine ⟨⟨f, fs⟩, ?_, rfl, ?_, fun hsort => ?_⟩
      · rw [hout] at houter
        exact houter.trans hF'
      · exact (congrArg Prod.fst htop).trans hstart
      · exact (congrArg Prod.snd htop).trans (hloop hsort)

/-! ## Proceeding -/

variable (host : Host σ ι) (i : Nat) (between : World σ ι → World σ ι → Prop)

/-- A tick lets the script go on, and something happens until the next one. -/
def Proceeds (w w' : World σ ι) : Prop := ∃ u, tick host i w = .ok true u ∧ between u w'

/-- The ticks and what happens between them do not go on for ever. -/
def Ceases (w : World σ ι) : Prop := Acc (fun v u => Proceeds host i between u v) w

/-- What happens in a tick before its statement is executed. -/
def announce (t : Statement) : ScriptM σ ι LogEntry := do
  modify fun w => { w with active := some i }
  emit host (.beforeStatement i t)
  logStep i t

/-- The command that a tick asks is done and leaves the script where it is, and no list that a loop
around the statement goes through gets longer: not until the statement is executed, and not until
the next tick. -/
structure Fair (T : Tree) (w : World σ ι) : Prop where
  /-- Until the statement is executed, no list gets longer. -/
  announced : ∀ p t e u, T.statement? p = some t → (w.script i).cursor = some t →
    announce host i t w = .ok e u → NoLonger T p w u
  /-- The command is done, and leaves the script where it is. -/
  command : ∀ p t e u b v, T.statement? p = some t → (w.script i).cursor = some t →
    t.isCommand = true → announce host i t w = .ok e u →
    executeCommand host i t.site.children u = .ok b v → b = true ∧ Unshifted T i u v
  /-- Until the next tick, no list gets longer. -/
  next : ∀ p t v, T.statement? p = some t → (w.script i).cursor = some t →
    Proceeds host i between w v → NoLonger T p w v

variable {host i between}

/-- An event that nobody listens to does nothing. -/
theorem emit_of_silent {e : Event} {w : World σ ι} (h : w.registry.listenersOf e.name = []) :
    emit host e w = .ok () w := by
  have hnone : ∀ calls, notifyFrom host e calls 0 w = .ok () w := by
    intro calls
    cases calls with
    | zero => rfl
    | succ calls =>
      unfold notifyFrom
      rw [get_bind, h]
      rfl
  unfold emit
  rw [get_bind, mapFault, hnone]

/-- No chain of ticks goes on for ever. -/
theorem Ceases.not_forever {w : World σ ι} (h : Ceases host i between w) (u : Nat → World σ ι)
    (hu : u 0 = w) : ¬ ∀ n, Proceeds host i between (u n) (u (n + 1)) := by
  induction h generalizing u with
  | intro w _ ih =>
    intro hall
    exact ih (u 1) (hu ▸ hall 0) (fun n => u (n + 1)) rfl fun n => hall (n + 1)

/-- Ticks without anything between them come to an end. -/
theorem Ceases.ticks {w : World σ ι} (h : Ceases host i between w)
    (hrefl : ∀ u, between u u) : ∃ n, ∀ w', Cadence.ticks host i n w ≠ .ok true w' := by
  induction h with
  | intro w _ ih =>
    cases htick : tick host i w with
    | error fault u =>
      refine ⟨1, fun w' hok => ?_⟩
      obtain ⟨b, v, hb, -⟩ := bind_ok (x := tick host i) hok
      exact absurd (htick.symm.trans hb) nofun
    | ok b u =>
      cases b with
      | false =>
        refine ⟨1, fun w' hok => ?_⟩
        have hstop : Cadence.ticks host i 1 w = .ok false u := bind_of_ok htick
        exact absurd (hstop.symm.trans hok) nofun
      | true =>
        obtain ⟨n, hn⟩ := ih u ⟨u, htick, hrefl u⟩
        refine ⟨n + 1, fun w' hok => hn w' ?_⟩
        have hgo : Cadence.ticks host i (n + 1) w = Cadence.ticks host i n u := bind_of_ok htick
        rw [← hgo, hok]

/-- What a run does between two ticks. -/
def nap (rest : Duration) (sleep : Float → ScriptM σ ι Unit) : ScriptM σ ι Unit := do
  if rest.positive then sleep (← seconds rest)

theorem keeps_nap (hrefl : ∀ u, between u u) {sleep : Float → ScriptM σ ι Unit}
    (hsleep : ∀ x, Keeps between (sleep x)) (rest : Duration) :
    Keeps between (nap rest sleep) := by
  have hseconds : Keeps (fun w w' : World σ ι => w' = w) (seconds rest) := by
    intro w
    unfold seconds
    cases rest.seconds.mapError (fun f => Fault.trouble (.number f)) with
    | ok x => rfl
    | error fault => rfl
  unfold nap
  by_cases hpos : rest.positive = true
  · rw [if_pos hpos]
    exact hseconds.seq hsleep (fun h => h ▸ hrefl _) fun h h' => h ▸ h'
  · rw [if_neg hpos]
    exact fun w => hrefl w

/-- A run without a cap is a tick, and then a nap and the rest of the run. -/
theorem runFrom_succ (rest : Duration) (sleep : Float → ScriptM σ ι Unit) (more ticks : Nat) :
    runFrom host i rest none sleep (more + 1) ticks = (do
      if ← tick host i then
        nap rest sleep
        runFrom host i rest none sleep more (ticks + 1)
      else return some (ticks + 1)) := by
  show (runTick host i none (ticks + 1) >>= _) = _
  rw [runTick, bind_assoc]
  refine bind_congr fun b => ?_
  cases b with
  | false => rfl
  | true =>
    unfold nap
    by_cases hpos : rest.positive = true
    · simp only [hpos, if_true, bind_assoc]
      rfl
    · simp only [if_neg hpos]
      rfl

/-- A run without a cap comes to an end. -/
theorem Ceases.run {w : World σ ι} (h : Ceases host i between w) (hrefl : ∀ u, between u u)
    {sleep : Float → ScriptM σ ι Unit} (hsleep : ∀ x, Keeps between (sleep x)) (rest : Duration)
    (ticks : Nat) : ∃ most, ∀ w', runFrom host i rest none sleep most ticks w ≠ .ok none w' := by
  induction h generalizing ticks with
  | intro w _ ih =>
    cases htick : tick host i w with
    | error fault u =>
      refine ⟨1, fun w' hok => ?_⟩
      rw [runFrom_succ, bind_of_error htick] at hok
      exact absurd hok nofun
    | ok b u =>
      cases b with
      | false =>
        refine ⟨1, fun w' hok => ?_⟩
        rw [runFrom_succ, bind_of_ok htick] at hok
        exact absurd hok nofun
      | true =>
        have hgo : ∀ more, runFrom host i rest none sleep (more + 1) ticks w =
            (nap rest sleep >>= fun _ => runFrom host i rest none sleep more (ticks + 1)) u := by
          intro more
          rw [runFrom_succ, bind_of_ok htick]
          rfl
        cases hnap : nap rest sleep u with
        | error fault v =>
          refine ⟨1, fun w' hok => ?_⟩
          rw [hgo, bind_of_error hnap] at hok
          exact absurd hok nofun
        | ok a v =>
          have hbetween := (keeps_nap hrefl hsleep rest).ok hnap
          obtain ⟨most, hmost⟩ := ih v ⟨u, htick, hbetween⟩ (ticks + 1)
          refine ⟨most + 1, fun w' hok => hmost w' ?_⟩
          rw [← hok, hgo, bind_of_ok hnap]

/-! ## Resuming -/

/-- Lists, each with a number of entries that it does not exceed. -/
abbrev Limits := List (String × Nat)

/-- No list exceeds its limit. -/
def Limits.Hold (L : Limits) (w : World σ ι) : Prop := ∀ a ∈ L, w.listLength a.1 ≤ a.2

/-- Each of the lists is gone through from one position to another, the second one excluded. -/
def Limits.Cover (L : Limits) (T : Tree) (p q : Nat) : Prop :=
  ∀ a ∈ L, ∀ k, p ≤ k → k < q → T.GoesThrough k a.1

theorem Limits.Hold.noLonger {L : Limits} {T : Tree} {p q : Nat} {w w' : World σ ι}
    (h : L.Hold w) (hc : L.Cover T p q) (hpq : p < q) (hw : NoLonger T p w w') : L.Hold w' :=
  fun a ha => Nat.le_trans (hw a.1 (hc a ha p (Nat.le_refl p) hpq)) (h a ha)

theorem Limits.Cover.mono {L : Limits} {T : Tree} {p q p' q' : Nat} (h : L.Cover T p q)
    (hp : p ≤ p') (hq : q' ≤ q) : L.Cover T p' q' :=
  fun a ha k hk hk' => h a ha k (Nat.le_trans hp hk) (Nat.lt_of_lt_of_le hk' hq)

variable (host i between)

/-- The world in which the statement of a tick is executed. -/
structure Announced (T : Tree) (L : Limits) (F : Frames) (t : Statement) (w : World σ ι) : Prop where
  /-- The script is ready at the statement. -/
  ready : Ready T i F (some t) w
  /-- No list exceeds its limit. -/
  limits : L.Hold w
  /-- A command is done, and leaves the script where it is. -/
  command : t.isCommand = true → ∀ b v, executeCommand host i t.site.children w = .ok b v →
    b = true ∧ Unshifted T i w v

/-- From a place, with given frames, ticking ceases: in any world from which everything stays fair
and in which no list exceeds its limit. -/
def ResumesWith (T : Tree) (L : Limits) (F : Frames) (c : Option Statement) : Prop :=
  ∀ w, (∀ u, Relation.ReflTransGen (Proceeds host i between) w u → Fair host i between T u) →
    L.Hold w → Ready T i F c w → Ceases host i between w

/-- It does so whatever the variables are. -/
def Resumes (T : Tree) (L : Limits) (F : Frames) (c : Option Statement) : Prop :=
  ∀ G : Frames, G.marks = F.marks → ResumesWith host i between T L G c

/-- From wherever a part of a program lands, ticking ceases: behind the part with the frames from
before, behind the loop that it leaves, or at the header of the loop that it goes on with. -/
structure Resumable (T : Tree) (L : Limits) (F : Frames) (c : Option Within) (q : Nat) : Prop where
  /-- Behind the part. -/
  next : Resumes host i between T L F (T.statement? q)
  /-- Behind the loop around it. -/
  breakLoop : ∀ d, c = some d →
    Resumes host i between T L (F.close (d.inside + 1)) (T.statement? (d.last + 1))
  /-- At the header of the loop around it. -/
  continueLoop : ∀ d, c = some d →
    Resumes host i between T L (F.close d.inside) (T.statement? d.header)

variable {host i between} {T : Tree} {L : Limits} {F : Frames}

/-- What agrees with an operation ends as the operation does. -/
theorem Agree.ends {β : Type} {P : World σ ι → Prop} {x : ScriptM σ ι Unit} {y : ScriptM σ ι β}
    {Q : World σ ι → Prop} (h : Agree P x (y >>= fun _ => pure ())) (hy : Ends P y fun _ => Q) :
    Ends P x fun _ => Q := by
  intro w a w' hw hok
  rw [h w hw] at hok
  obtain ⟨b, u, hyu, hpure⟩ := bind_ok hok
  cases hpure
  exact hy w b _ hw hyu

namespace Resumes

/-- Without a statement a tick does not let the script go on. -/
theorem nothing : Resumes host i between T L F none := by
  intro G _ w _ _ hw
  constructor
  rintro v ⟨u, htick, -⟩
  have hnone : (World.script { w with active := some i } i).cursor = none := hw.cursor
  rw [tick_of_running hw.activity, step_of_none host i hnone] at htick
  obtain ⟨_, _, _, hstop⟩ := bind_ok htick
  exact absurd hstop nofun

theorem congr {G : Frames} {c : Option Statement} (h : Resumes host i between T L F c)
    (hG : G.marks = F.marks) : Resumes host i between T L G c :=
  fun H hH => h H (hH.trans hG)

/-- Fewer limits are as good as more. -/
theorem limits {L' : Limits} {c : Option Statement} (h : Resumes host i between T L F c)
    (hL : ∀ a ∈ L, a ∈ L') : Resumes host i between T L' F c :=
  fun G hG w hfair hlimits hw => h G hG w hfair (fun a ha => hlimits a (hL a ha)) hw

end Resumes

/-- A line resumes what it leads to. -/
theorem ResumesWith.line (hh : host.Keeps (Steady T i))
    (hbetween : ∀ u v, between u v → Unshifted T i u v) {p q : Nat} {t : Statement}
    (ht : T.statement? p = some t) (hL : L.Cover T p q) (hpq : p < q)
    (hx : Ends (Announced host i T L F t) (executeStatement host i t) fun _ u =>
      ∃ G d, Ready T i G d u ∧ Resumes host i between T L G d) :
    ResumesWith host i between T L F (some t) := by
  have hS := steady_lenient (σ := σ) (ι := ι) T i
  intro w hfair hlimits hw
  have hfw := hfair w .refl
  constructor
  rintro v ⟨u, htick, huv⟩
  have hproceeds : Proceeds host i between w v := ⟨u, htick, huv⟩
  have hw₁ : Ready T i F (some t) { w with active := some i } :=
    hw.idle ⟨rfl, rfl, rfl, rfl, fun _ => rfl⟩
  rw [tick_of_running hw.activity, step_of_some host i hw₁.cursor] at htick
  unfold stepStatement at htick
  obtain ⟨_, w₂, hemit, htick⟩ := bind_ok htick
  obtain ⟨e, w₃, hlog, htick⟩ := bind_ok htick
  obtain ⟨r, w₄, hrun, htick⟩ := bind_ok htick
  have hannounce : announce host i t w = .ok e w₃ := by
    have hset : (modify fun w => { w with active := some i } : ScriptM σ ι Unit) w =
        .ok () { w with active := some i } := rfl
    unfold announce
    rw [bind_of_ok hset, bind_of_ok hemit, hlog]
  have hw₃ : Ready T i F (some t) w₃ :=
    (hw₁.steady ((keeps_emit hS hh _).ok hemit)).steady ((keeps_logStep hS.logged i t).ok hlog)
  have hannounced : Announced host i T L F t w₃ :=
    ⟨hw₃, hlimits.noLonger hL hpq (hfw.announced p t e w₃ ht hw.cursor hannounce),
      fun hc b x => hfw.command p t e w₃ b x ht hw.cursor hc hannounce⟩
  cases r with
  | error fault =>
    obtain ⟨_, _, _, hthrow⟩ := bind_ok htick
    exact absurd hthrow nofun
  | ok alive =>
    obtain ⟨_, w₅, hafter, htick⟩ := bind_ok htick
    have hexecute := attempt_ok hrun
    rw [executeNext_of_cursor host i hw₃.cursor] at hexecute
    obtain ⟨_, w₄', hstatement, hanswer⟩ := bind_ok hexecute
    cases hanswer
    obtain ⟨G, d, hready, hresumes⟩ := hx w₃ () w₄ hannounced hstatement
    have hw₅ : Steady T i w₄ w₅ := (keeps_afterStep hS hh i t e).ok hafter
    -- a tick that lets the script go on does not finish it
    have hu : u = w₅ := by
      cases halive : (w₄.script i).isRunning with
      | true =>
        rw [halive] at htick
        cases htick
        rfl
      | false =>
        rw [halive] at htick
        obtain ⟨_, _, _, hstop⟩ := bind_ok htick
        exact absurd hstop nofun
    subst hu
    obtain ⟨H, hH, hv⟩ := (hready.steady hw₅).unshifted (hbetween _ _ huv)
    refine hresumes H hH v (fun x hx => hfair x (.head hproceeds hx)) ?_ hv
    exact hlimits.noLonger hL hpq (hfw.next p t v ht hw.cursor hproceeds)

namespace Resumable

variable {c : Option Within} {q r : Nat}

theorem congr {G : Frames} (h : Resumable host i between T L F c q) (hG : G.marks = F.marks) :
    Resumable host i between T L G c q :=
  ⟨h.next.congr hG, fun d hd => (h.breakLoop d hd).congr (Frames.marks_close hG _),
    fun d hd => (h.continueLoop d hd).congr (Frames.marks_close hG _)⟩

/-- Inside a choice the loop around it is one frame further away. -/
theorem deeper {t : Statement} (h : Resumable host i between T L F c q)
    (hnext : Resumes host i between T L (F.push t) (T.statement? r)) :
    Resumable host i between T L (F.push t) (c.map Within.deeper) r := by
  refine ⟨hnext, fun d hd => ?_, fun d hd => ?_⟩
  · obtain ⟨d, rfl, rfl⟩ := Option.map_eq_some_iff.mp hd
    exact h.breakLoop d rfl
  · obtain ⟨d, rfl, rfl⟩ := Option.map_eq_some_iff.mp hd
    exact h.continueLoop d rfl

/-- What comes next may come later. -/
theorem elsewhere (h : Resumable host i between T L F c q)
    (hnext : Resumes host i between T L F (T.statement? r)) :
    Resumable host i between T L F c r := ⟨hnext, h.breakLoop, h.continueLoop⟩

end Resumable

/-! ### Lines that lead to one place -/

section

variable (hh : host.Keeps (Steady T i)) (hbetween : ∀ u v, between u v → Unshifted T i u v)
include hh hbetween

/-- A line that does on a ready script what some operation does resumes what the operation leads
to. -/
theorem ResumesWith.agree {β : Type} {p q : Nat} {t : Statement} (ht : T.statement? p = some t)
    (hL : L.Cover T p q) (hpq : p < q) {x : ScriptM σ ι β}
    (hagree : Agree (Ready T i F (some t)) (executeStatement host i t) (x >>= fun _ => pure ()))
    (hx : Ends (Ready T i F (some t)) x fun _ u =>
      ∃ G d, Ready T i G d u ∧ Resumes host i between T L G d) :
    ResumesWith host i between T L F (some t) :=
  .line hh hbetween ht hL hpq
    ((hagree.ends hx).mono (fun _ hw => hw.ready) fun _ _ h => h)

/-- A command that is done leads to the next line. -/
theorem Resumes.command {p q : Nat} {k : Kind} (asks : k.asksCommand = true) {l : Line k}
    (ht : T.statement? p = some (l.at T p)) (hL : L.Cover T p q) (hpq : p < q)
    (hnext : Resumes host i between T L F (T.statement? (p + 1))) :
    Resumes host i between T L F (some (l.at T p)) := by
  intro G hG
  refine .line hh hbetween ht hL hpq ?_
  have hcommand : (l.at T p).isCommand = true := by
    rw [Statement.isCommand_of_head? (l.head? T p), l.kind_head]
    revert asks
    cases k <;> decide
  rw [executeStatement_line, executeHead_command asks l.kind_head]
  intro w a w' hw hok
  obtain ⟨b, u, hask, hok⟩ := bind_ok hok
  obtain ⟨rfl, hunshifted⟩ := hw.command hcommand b u hask
  obtain ⟨H, hH, hu⟩ := hw.ready.unshifted hunshifted
  have hgo : goTo i T (p + 1) u = .ok a w' := by
    rw [← agree_advance ht u hu]
    exact hok
  exact ⟨H, _, Ready.ends_goTo (p + 1) u a w' hu hgo, hnext.congr (hH.trans hG)⟩

/-- The end of a choice closes its frame. -/
theorem Resumes.conclude {p q : Nat} {l : Line .ifEnd} (h : Placed T p [l.node])
    (hL : L.Cover T p q) (hpq : p < q)
    (hnext : Resumes host i between T L F.pop (T.statement? (p + 1))) :
    Resumes host i between T L F (T.statement? p) := by
  rw [h.statement?]
  intro G hG
  refine .agree hh hbetween h.statement? hL hpq (agree_ifEnd h) ?_
  refine .bind Ready.ends_popFrame fun _ => ?_
  exact (Ready.ends_goTo (p + 1)).mono (fun _ hw => hw) fun _ w hw =>
    ⟨_, _, hw, hnext.congr (Frames.marks_pop hG)⟩

/-- After the branch that was run, what is left of the choice is passed over. -/
theorem Tail.resumes_rest {p q s : Nat} (t : Tail) (h : Placed T p t.flatten)
    (hin : (Family.choices.openAt T.kinds p).head? = some s) (hL : L.Cover T p q)
    (hq : t.endAt p < q)
    (hnext : Resumes host i between T L F.pop (T.statement? (t.endAt p + 1))) :
    Resumes host i between T L F (T.statement? p) := by
  have hend := Links.choiceEnd?_tail h hin
  have skip : ∀ {k : Kind} (l : Line k) (ns : List Node), k.isBranch = true →
      Placed T p (l.node :: ns) → p < t.endAt p →
      Resumes host i between T L F (T.statement? p) := by
    intro k l ns hk hl hlt
    have hlast : Resumes host i between T L F (T.statement? (t.endAt p)) :=
      .conclude hh hbetween h.last (hL.mono (Nat.le_of_lt hlt) (Nat.le_refl q)) hq hnext
    rw [hl.statement?]
    intro G hG
    refine .agree hh hbetween hl.statement? hL (Nat.lt_trans hlt hq) (agree_skip hk hl hin hend) ?_
    exact (Ready.ends_goTo _).mono (fun _ hw => hw) fun _ w hw => ⟨_, _, hw, hlast.congr hG⟩
  cases t with
  | close l => exact .conclude hh hbetween h hL hq hnext
  | elseIf l body rest =>
    refine skip l _ rfl h ?_
    have := rest.le_endAt (p + 1 + body.size)
    rw [Tail.endAt]
    omega
  | otherwise l body last =>
    refine skip l _ rfl h ?_
    rw [Tail.endAt]
    omega

end

end

end Cadence
