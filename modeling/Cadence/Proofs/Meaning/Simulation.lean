/-
  SIMULATION — ticking a flattened program is running the program.

  The machine goes from statement to statement; the meaning of a program is told by its structure.
  The two meet after every course: the machine goes on from where the course has landed, with what
  is left of the clock (`Follows`).

  1. **Courses** — one tick meets one line (`Meets.line`).  So the machine follows when a course
     leaves, visits a line or goes on with another (`Follows.leave`, `Follows.visit`,
     `Follows.andThen`), and when a command is asked again and a loop makes its passes, by induction
     on the clock (`Follows.obey`, `Follows.rounds`).

  2. **Where a part lands** — behind itself with the frames from before, at the loop that it leaves
     or goes on with, or nowhere (`Landed`).

  3. **The simulation** — by induction on the structure of the program (`Stmt.follows`,
     `Block.follows`, `Tail.ends_choose`), and `Block.ticks_eq_execute` for a whole program.
-/
import Cadence.Proofs.Meaning.Headers
import Cadence.Proofs.Meaning.Recording

namespace Cadence

open ScriptM

section

variable {σ ι α β : Type} {host : Host σ ι} {i : Nat} {T : Tree} {F : Frames}

/-! ## A line with everything around it -/

/-- Inside of what stands around a statement, the script is ready; and what comes after the
statement leaves the script where it is. -/
theorem around_ok (hh : host.Keeps (Steady T i)) {t : Statement} {x : ScriptM σ ι α}
    {c : Option Statement} {w w' : World σ ι} {a : α} (hw : Ready T i F c w)
    (h : around host i t x w = .ok a w') :
    ∃ u v, Ready T i F c u ∧ x u = .ok a v ∧ Steady T i v w' := by
  have hL := steady_lenient (σ := σ) (ι := ι) T i
  unfold around at h
  obtain ⟨_, w₁, h₁, h⟩ := bind_ok h
  obtain ⟨_, w₂, h₂, h⟩ := bind_ok h
  obtain ⟨e, u, h₃, h⟩ := bind_ok h
  obtain ⟨r, v, h₄, h⟩ := bind_ok h
  cases h₁
  have hw₁ : Ready T i F c { w with active := some i } :=
    hw.idle ⟨rfl, rfl, rfl, rfl, fun _ => rfl⟩
  have hu : Ready T i F c u :=
    (hw₁.steady ((keeps_emit hL hh _).ok h₂)).steady ((keeps_logStep hL.logged i t).ok h₃)
  cases r with
  | error fault =>
    obtain ⟨_, _, _, h⟩ := bind_ok h
    exact absurd h nofun
  | ok b =>
    obtain ⟨_, v', h₅, h⟩ := bind_ok h
    cases h
    exact ⟨u, v, hu, attempt_ok h₄, (keeps_afterStep hL hh i t e).ok h₅⟩

/-- Operations that agree on a ready script agree with everything around them. -/
theorem around_congr (hh : host.Keeps (Steady T i)) {t : Statement} {x : ScriptM σ ι Unit}
    {y : ScriptM σ ι α} {c : Option Statement}
    (hxy : Agree (Ready T i F c) x (y >>= fun _ => pure ())) (z : ScriptM σ ι β) :
    Agree (Ready T i F c) (around host i t x >>= fun _ => z)
      (around host i t y >>= fun _ => z) := by
  have hL := steady_lenient (σ := σ) (ι := ι) T i
  intro w hw
  have hw₁ : Ready T i F c { w with active := some i } :=
    hw.idle ⟨rfl, rfl, rfl, rfl, fun _ => rfl⟩
  unfold around
  simp only [bind_assoc]
  show (emit host (.beforeStatement i t) >>= _) { w with active := some i } =
    (emit host (.beforeStatement i t) >>= _) { w with active := some i }
  refine bind_congr_ok fun _ u hu => ?_
  have hwu : Ready T i F c u := hw₁.steady ((keeps_emit hL hh _).ok hu)
  refine bind_congr_ok fun e v hv => ?_
  have hwv : Ready T i F c v := hwu.steady ((keeps_logStep hL.logged i t).ok hv)
  have hx := hxy v hwv
  -- an attempt sees what became of the operation, and there the two are the same
  rw [bind_apply] at hx
  rw [bind_apply, bind_apply]
  cases hy : y v with
  | error fault v' =>
    rw [hy] at hx
    rw [attempt_of_error hx, attempt_of_error hy]
    simp only [bind_assoc]
    exact bind_congr_ok fun _ _ _ => rfl
  | ok a v' =>
    rw [hy] at hx
    rw [attempt_of_ok hx, attempt_of_ok hy]
    simp only [bind_assoc]
    exact bind_congr_ok fun _ _ _ => rfl

/-- A tick of a ready script is its line with everything around it. -/
theorem onward_line (hh : host.Keeps (Steady T i)) {t : Statement} {x : ScriptM σ ι α}
    (hx : Agree (Ready T i F (some t)) (executeStatement host i t) (x >>= fun _ => pure ()))
    {w : World σ ι} (hw : Ready T i F (some t) w) (n : Nat) :
    onward host i (n + 1) w = (around host i t x >>= fun _ => onward host i n) w := by
  rw [onward_succ hh hw]
  exact around_congr hh hx _ w hw

/-! ## Courses that are followed -/

variable (host i)

/-- After a course: nothing, if the clock has run out, and otherwise the script goes on with what is
left of the clock. -/
def settle : Exit × Nat → ScriptM σ ι Bool
  | (.cut, _) => return true
  | (_, m) => onward host i m

/-- The machine does what a course does and then goes on; and when the course is left, with no more
time than there was, something holds. -/
def Meets (z : ScriptM σ ι Bool) (n : Nat) (w : World σ ι) (y : ScriptM σ ι (Exit × Nat))
    (Q : Exit → World σ ι → Prop) : Prop :=
  z w = (y >>= settle host i) w ∧ ∀ e m w', y w = .ok (e, m) w' → m ≤ n ∧ Q e w'

variable (T)

/-- From a ready script, whatever the clock says, the machine does what a course does. -/
def Follows (F : Frames) (c : Option Statement) (x : Course σ ι) (Q : Exit → World σ ι → Prop) :
    Prop :=
  ∀ n w, Ready T i F c w → Meets host i (onward host i n) n w (x n) Q

variable {host i T}

namespace Meets

variable {Q Q' : Exit → World σ ι → Prop} {z : ScriptM σ ι Bool} {n m : Nat} {w : World σ ι}

theorem weaken {y : ScriptM σ ι (Exit × Nat)} (h : Meets host i z n w y Q) (hn : n ≤ m) :
    Meets host i z m w y Q := by
  refine ⟨h.1, fun e k w' hy => ?_⟩
  obtain ⟨hk, hq⟩ := h.2 e k w' hy
  exact ⟨Nat.le_trans hk hn, hq⟩

/-- A course that is left does nothing more. -/
theorem leave {e : Exit} (hm : m ≤ n) (hq : Q e w) :
    Meets host i (settle host i (e, m)) n w (return (e, m)) Q := by
  refine ⟨rfl, fun e' m' w' hy => ?_⟩
  cases hy
  exact ⟨hm, hq⟩

/-- What follows a course meets the machine where the course is left. -/
theorem bind {y : ScriptM σ ι (Exit × Nat)} {f : Exit × Nat → ScriptM σ ι (Exit × Nat)}
    (h : Meets host i z n w y Q)
    (hf : ∀ e m w', m ≤ n → Q e w' → Meets host i (settle host i (e, m)) n w' (f (e, m)) Q') :
    Meets host i z n w (y >>= f) Q' := by
  obtain ⟨hrun, hland⟩ := h
  constructor
  · rw [hrun, bind_assoc]
    refine bind_congr_ok fun r w' hok => ?_
    obtain ⟨e, m⟩ := r
    obtain ⟨hm, hq⟩ := hland e m w' hok
    exact (hf e m w' hm hq).1
  · intro e m w' hok
    obtain ⟨⟨e₁, m₁⟩, u, hyu, hok⟩ := bind_ok hok
    obtain ⟨hm, hq⟩ := hland e₁ m₁ u hyu
    exact (hf e₁ m₁ u hm hq).2 e m w' hok

/-- One tick meets one line, when the line agrees with the statement and the rest meets the machine
where the line leads. -/
theorem line (hh : host.Keeps (Steady T i)) {t : Statement} {x : ScriptM σ ι α}
    {R : α → World σ ι → Prop} {k : α → ScriptM σ ι (Exit × Nat)}
    (hx : Agree (Ready T i F (some t)) (executeStatement host i t) (x >>= fun _ => pure ()))
    (hR : Ends (Ready T i F (some t)) x R)
    (hsteady : ∀ a v v', Steady T i v v' → R a v → R a v') (hw : Ready T i F (some t) w)
    (hk : ∀ a w', R a w' → Meets host i (onward host i n) n w' (k a) Q) :
    Meets host i (onward host i (n + 1)) (n + 1) w (around host i t x >>= k) Q := by
  have hafter : ∀ a w', around host i t x w = .ok a w' → R a w' := by
    intro a w' hok
    obtain ⟨u, v, hu, hxu, hs⟩ := around_ok hh hw hok
    exact hsteady a v w' hs (hR u a v hu hxu)
  constructor
  · rw [onward_line hh hx hw, bind_assoc]
    exact bind_congr_ok fun a w' hok => (hk a w' (hafter a w' hok)).1
  · intro e m w' hok
    obtain ⟨a, u, hxu, hok⟩ := bind_ok hok
    exact ((hk a u (hafter a u hxu)).weaken (Nat.le_succ n)).2 e m w' hok

/-- With no time left, the machine stops as a course does. -/
theorem cut {t : Statement} (hw : Ready T i F (some t) w) (hcut : ∀ w, Q .cut w) :
    Meets host i (onward host i 0) 0 w (return (.cut, 0)) Q := by
  have hleave : Meets host i (settle host i (.cut, 0)) 0 w (return (.cut, 0)) Q :=
    .leave (Nat.le_refl 0) (hcut w)
  refine ⟨?_, hleave.2⟩
  rw [onward_of_running (by rw [hw.isRunning]; rfl)]
  rfl

end Meets

namespace Follows

variable {c : Option Statement} {Q Q' : Exit → World σ ι → Prop}

theorem leave {e : Exit} (he : e ≠ .cut) (hQ : ∀ w, Ready T i F c w → Q e w) :
    Follows host i T F c (Cadence.leave e) Q := by
  intro n w hw
  have hn : onward host i n = settle host i (e, n) := by
    cases e with
    | cut => exact absurd rfl he
    | _ => rfl
  rw [hn]
  exact .leave (Nat.le_refl n) (hQ w hw)

/-- One course after the other. -/
theorem andThen {x y : Course σ ι} {G : Frames} {d : Option Statement}
    (hx : Follows host i T F c x Q) (hnext : ∀ w, Q .next w → Ready T i G d w)
    (hy : Follows host i T G d y Q') (hother : ∀ e w, e ≠ .next → Q e w → Q' e w) :
    Follows host i T F c (x.andThen y) Q' := by
  intro n w hw
  refine (hx n w hw).bind fun e m w' hm hq => ?_
  cases e with
  | next => exact (hy m w' (hnext w' hq)).weaken hm
  | _ => exact .leave hm (hother _ _ (by decide) hq)

/-- A visit, when the line agrees with the statement and what comes next is followed from where the
line leads. -/
theorem visit (hh : host.Keeps (Steady T i)) {t : Statement} {x : ScriptM σ ι α}
    {k : α → Course σ ι}
    (hx : Agree (Ready T i F (some t)) (executeStatement host i t) (x >>= fun _ => pure ()))
    (hk : Ends (Ready T i F (some t)) x fun a w =>
      ∃ G d, Ready T i G d w ∧ Follows host i T G d (k a) Q)
    (hcut : ∀ w, Q .cut w) :
    Follows host i T F (some t) (Cadence.visit host i t x k) Q := by
  intro n w hw
  cases n with
  | zero => exact .cut hw hcut
  | succ n =>
    refine .line hh hx hk ?_ hw ?_
    · rintro a v v' hs ⟨G, d, hready, hfollows⟩
      exact ⟨G, d, hready.steady hs, hfollows⟩
    · rintro a w' ⟨G, d, hready, hfollows⟩
      exact hfollows n w' hready

/-- A command is asked again until it is done. -/
theorem obey (hh : host.Discreet T i) {k : Kind} (asks : k.asksCommand = true) {l : Line k}
    {p : Nat} (ht : T.statement? p = some (l.at T p)) (hcut : ∀ w, Q .cut w)
    (hQ : ∀ w, Ready T i F (T.statement? (p + 1)) w → Q .next w) :
    Follows host i T F (some (l.at T p)) (Cadence.obey host i T l p) Q := by
  intro n
  induction n with
  | zero =>
    intro w hw
    exact .cut hw hcut
  | succ n ih =>
    intro w hw
    refine .line hh.toKeeps (agree_command hh asks ht) (ends_command hh ht)
      (fun done v v' hs hv => hv.steady hs) hw fun done w' hready => ?_
    cases done with
    | true => exact .leave (Nat.le_refl n) (hQ w' hready)
    | false => exact ih w' hready

/-- The passes of a loop.  Each time the header agrees, the body is followed from where the header
leads, and it comes back to the header, with its frame, or leaves the loop. -/
theorem rounds (hh : host.Keeps (Steady T i)) {t : Statement}
    {header : Option Count → ScriptM σ ι (Option Count)} {body : Course σ ι}
    {E : Option Count → Frames → Prop} {d : Option Statement}
    (hagree : ∀ a G, E a G →
      Agree (Ready T i G (some t)) (executeStatement host i t) (header a >>= fun _ => pure ()))
    (hheader : ∀ a G, E a G → Ends (Ready T i G (some t)) (header a) fun pass w =>
      match pass with
      | some c => ∃ G, E (some c) G ∧ Ready T i G d w
      | none => Q .next w)
    (hsteady : ∀ w w', Steady T i w w' → Q .next w → Q .next w')
    (hbody : ∀ c G, E (some c) G → Follows host i T G d body fun e w =>
      match e with
      | .next | .continueLoop => ∃ G, E (some c) G ∧ Ready T i G (some t) w
      | .breakLoop => Q .next w
      | e => Q e w)
    (hcut : ∀ w, Q .cut w) {a : Option Count} (ha : E a F) :
    Follows host i T F (some t) (Cadence.rounds host i t header body a) Q := by
  intro n
  -- a pass takes at least the tick of its header, so the clock of the next one is smaller
  induction n using Nat.strongRecOn generalizing a F with
  | ind n ih =>
    intro w hw
    cases n with
    | zero =>
      rw [Cadence.rounds]
      exact .cut hw hcut
    | succ n =>
      rw [Cadence.rounds]
      refine .line hh (hagree a F ha) (hheader a F ha) ?_ hw fun pass w' h => ?_
      · intro pass v v' hs hv
        cases pass with
        | none => exact hsteady v v' hs hv
        | some c =>
          obtain ⟨G, hG, hready⟩ := hv
          exact ⟨G, hG, hready.steady hs⟩
      cases pass with
      | none => exact .leave (Nat.le_refl n) h
      | some c =>
        obtain ⟨G, hG, hready⟩ := h
        refine (hbody c G hG n w' hready).bind fun e m v hm hq => ?_
        have again : (∃ G, E (some c) G ∧ Ready T i G (some t) v) →
            Meets host i (onward host i m) n v
              (Cadence.rounds host i t header body (some c) (min m n)) Q := by
          rintro ⟨G', hG', hready'⟩
          have hnext := ih (min m n) (by omega) hG' v hready'
          rw [Nat.min_eq_left hm] at hnext ⊢
          exact hnext.weaken hm
        cases e with
        | next => exact again hq
        | continueLoop => exact again hq
        | breakLoop => exact .leave hm hq
        | stop => exact .leave hm hq
        | cut => exact .leave hm hq

end Follows

/-! ## Where a part lands -/

/-- Where a part of a program lands: behind itself, with the frames from before; behind the loop
that it leaves, or at the header of the loop that it goes on with; or nowhere. -/
def Landed (T : Tree) (i : Nat) (F : Frames) (c : Option Within) (q : Nat) :
    Exit → World σ ι → Prop
  | .cut, _ => True
  | .next, w => Ready T i F (T.statement? q) w
  | .breakLoop, w => ∃ d, c = some d ∧
    Ready T i (F.close (d.inside + 1)) (T.statement? (d.last + 1)) w
  | .continueLoop, w => ∃ d, c = some d ∧
    Ready T i (F.close d.inside) (T.statement? d.header) w
  | .stop, w => ∃ G, Ready T i G none w

/-- Whoever does not go on lands independently of what comes next. -/
theorem Landed.elsewhere {c : Option Within} {q r : Nat} {e : Exit} {w : World σ ι}
    (he : e ≠ .next) (h : Landed T i F c q e w) : Landed T i F c r e w := by
  cases e with
  | next => exact absurd rfl he
  | _ => exact h

/-- Whoever leaves a choice for a loop around it closes the frame of the choice on the way. -/
theorem Landed.outward {t : Statement} {c : Option Within} {q r : Nat} {e : Exit} {w : World σ ι}
    (he : e ≠ .next) (h : Landed T i (F.push t) (c.map Within.deeper) q e w) :
    Landed T i F c r e w := by
  cases e with
  | next => exact absurd rfl he
  | cut => trivial
  | stop => exact h
  | breakLoop =>
    obtain ⟨d, hd, hready⟩ := h
    obtain ⟨d, rfl, rfl⟩ := Option.map_eq_some_iff.mp hd
    exact ⟨d, rfl, hready⟩
  | continueLoop =>
    obtain ⟨d, hd, hready⟩ := h
    obtain ⟨d, rfl, rfl⟩ := Option.map_eq_some_iff.mp hd
    exact ⟨d, rfl, hready⟩

/-! ## What is open inside a part -/

theorem Opened.later {hs : List Nat} {p q : Nat} (h : Opened T hs p F) (hpq : p ≤ q)
    (hq : q ≤ T.kinds.length) : Opened T hs q F :=
  ⟨h.starts, fun m hm => Nat.lt_of_lt_of_le (h.before m hm) hpq, hq⟩

/-- One more frame is open, and it belongs to the statement at the position. -/
theorem Opened.inside {hs : List Nat} {p : Nat} (h : Opened T hs p F) {t : Statement}
    (ht : T.statement? p = some t) {G : Frames} (hout : G.outer = F.toList)
    (hstart : G.top.start = some t) : Opened T (p :: hs) (p + 1) G := by
  refine ⟨?_, fun m hm => ?_, Tree.lt_of_statement? ht⟩
  · rw [List.map_cons, List.cons_append, ← h.starts, ht, ← hstart]
    show G.top.start :: G.outer.map Frame.start = _
    rw [hout]
    rfl
  · rcases List.mem_cons.mp hm with rfl | hm
    · exact Nat.lt_succ_self m
    · exact Nat.lt_succ_of_lt (h.before m hm)

/-- The loop around a position is around another position too, when no loop is opened or closed in
between. -/
theorem Around.shift {hs : List Nat} {p q : Nat} {c : Option Within} (h : Around T hs p c)
    (hpq : Family.loops.openAt T.kinds q = Family.loops.openAt T.kinds p) : Around T hs q c := by
  cases c with
  | none => exact hpq.trans h
  | some d => exact ⟨h.inside, (congrArg List.head? hpq).trans h.inner, h.ends, h.closes⟩

/-- Inside a choice the loop is one frame further away. -/
theorem Around.deeper {hs : List Nat} {p q : Nat} {c : Option Within} (h : Around T hs p c)
    (ho : Opened T hs p F) (hpq : Family.loops.openAt T.kinds q = Family.loops.openAt T.kinds p) :
    Around T (p :: hs) q (c.map Within.deeper) := by
  refine Around.shift (p := p) ?_ hpq
  cases c with
  | none => exact h
  | some d =>
    obtain ⟨above, rest, hsplit, hlen, habove⟩ := h.inside
    have hheader : d.header < p := by
      apply ho.before
      rw [hsplit]
      exact List.mem_append_right above (List.mem_cons_self ..)
    refine ⟨⟨p :: above, rest, ?_, ?_, ?_⟩, h.inner, h.ends, h.closes⟩
    · rw [hsplit, List.cons_append]
      rfl
    · rw [List.length_cons, hlen]
      rfl
    · intro a ha
      rcases List.mem_cons.mp ha with rfl | ha
      · exact hheader
      · exact habove a ha

/-- In the body of a loop, the loop is the one around. -/
theorem Around.body {p : Nat} {sort : Loop} {l : Line sort.start} {body : Block}
    {last : Line sort.finish} (h : Placed T p (Stmt.loop sort l body last).flatten)
    (hs : List Nat) : Around T (p :: hs) (p + 1) (some ⟨p, p + 1 + body.size, 0⟩) := by
  have hopens : Family.loops.opens sort.start = true := by cases sort <;> rfl
  obtain ⟨hends, hcloses⟩ := Links.head?_openAt_loop Family.loops_part h hopens
  refine ⟨⟨[], hs, rfl, rfl, nofun⟩, ?_, hends, hcloses⟩
  rw [Family.Part.openAt_line h, if_pos hopens, List.head?_cons]

/-! ## The simulation -/

section

variable {Q : Exit → World σ ι → Prop}

/-- The end of a choice closes its frame. -/
theorem follows_conclude (hh : host.Keeps (Steady T i)) {p : Nat} {l : Line .ifEnd}
    (h : Placed T p [l.node]) (hcut : ∀ w, Q .cut w)
    (hQ : ∀ w, Ready T i F.pop (T.statement? (p + 1)) w → Q .next w) :
    Follows host i T F (T.statement? p) (conclude host i T l p) Q := by
  rw [h.statement?]
  refine Follows.visit hh (agree_ifEnd h) ?_ hcut
  refine .bind Ready.ends_popFrame fun _ => ?_
  exact (Ready.ends_goTo (p + 1)).mono (fun _ hw => hw) fun _ w hw =>
    ⟨_, _, hw, .leave (by decide) hQ⟩

/-- After the branch that was run, what is left of the choice is passed over. -/
theorem Tail.follows_course (hh : host.Keeps (Steady T i)) {p s : Nat} (t : Tail)
    (h : Placed T p t.flatten) (hin : (Family.choices.openAt T.kinds p).head? = some s)
    (hcut : ∀ w, Q .cut w)
    (hQ : ∀ w, Ready T i F.pop (T.statement? (t.endAt p + 1)) w → Q .next w) :
    Follows host i T F (T.statement? p) (t.course host i T p) Q := by
  have hend := Links.choiceEnd?_tail h hin
  cases t with
  | close l => exact follows_conclude hh h hcut hQ
  | elseIf l body rest =>
    rw [h.statement?]
    refine Follows.visit hh (agree_skip rfl h hin hend) ?_ hcut
    refine (Ready.ends_goTo _).mono (fun _ hw => hw) fun _ w hw => ⟨_, _, hw, ?_⟩
    exact follows_conclude hh h.elseIf.2.last hcut hQ
  | otherwise l body last =>
    rw [h.statement?]
    refine Follows.visit hh (agree_skip rfl h hin hend) ?_ hcut
    refine (Ready.ends_goTo _).mono (fun _ hw => hw) fun _ w hw => ⟨_, _, hw, ?_⟩
    exact follows_conclude hh h.otherwise.2 hcut hQ

/-! ### One statement, when its parts are followed -/

variable {p : Nat} {hs : List Nat} {c : Option Within}

theorem Stmt.follows_stop (hh : host.Keeps (Steady T i)) {l : Line .stop}
    (h : Placed T p (Stmt.stop l).flatten) :
    Follows host i T F (T.statement? p) ((Stmt.stop l).course host i T c p)
      (Landed T i F c (p + (Stmt.stop l).size)) := by
  rw [h.statement?]
  refine Follows.visit hh agree_stop ?_ fun _ => trivial
  exact (Ready.ends_moveTo none).mono (fun _ hw => hw) fun _ w hw =>
    ⟨F, none, hw, .leave (by decide) fun w hw => ⟨F, hw⟩⟩

theorem Stmt.follows_break (hh : host.Keeps (Steady T i)) {l : Line .breakLoop}
    (h : Placed T p (Stmt.breakLoop l).flatten) (ho : Opened T hs p F) (ha : Around T hs p c) :
    Follows host i T F (T.statement? p) ((Stmt.breakLoop l).course host i T c p)
      (Landed T i F c (p + (Stmt.breakLoop l).size)) := by
  rw [h.statement?]
  cases c with
  | none => exact Follows.visit hh (agree_break_outside h ha) .fail fun _ => trivial
  | some d =>
    refine Follows.visit hh (agree_break h ho ha) ?_ fun _ => trivial
    refine .bind (Ready.ends_closeFrames _) fun _ => ?_
    exact (Ready.ends_goTo _).mono (fun _ hw => hw) fun _ w hw =>
      ⟨_, _, hw, .leave (by decide) fun w hw => ⟨d, rfl, hw⟩⟩

theorem Stmt.follows_continue (hh : host.Keeps (Steady T i)) {l : Line .continueLoop}
    (h : Placed T p (Stmt.continueLoop l).flatten) (ho : Opened T hs p F)
    (ha : Around T hs p c) :
    Follows host i T F (T.statement? p) ((Stmt.continueLoop l).course host i T c p)
      (Landed T i F c (p + (Stmt.continueLoop l).size)) := by
  rw [h.statement?]
  cases c with
  | none => exact Follows.visit hh (agree_continue_outside h ha) .fail fun _ => trivial
  | some d =>
    refine Follows.visit hh (agree_continue h ho ha) ?_ fun _ => trivial
    refine .bind (Ready.ends_closeFrames _) fun _ => ?_
    exact (Ready.ends_goTo _).mono (fun _ hw => hw) fun _ w hw =>
      ⟨_, _, hw, .leave (by decide) fun w hw => ⟨d, rfl, hw⟩⟩

/-- A choice, when its first branch is followed and one of the others is chosen as the meaning
says. -/
theorem Stmt.follows_choice (hh : host.Keeps (Steady T i)) {l : Line .ifStart} {body : Block}
    {tail : Tail} (h : Placed T p (Stmt.choice l body tail).flatten)
    (hbody : Follows host i T (F.push (l.at T p)) (T.statement? (p + 1))
      (body.course host i T (c.map Within.deeper) (p + 1))
      (Landed T i (F.push (l.at T p)) (c.map Within.deeper) (p + 1 + body.size)))
    (htail : ∀ Q : Exit → World σ ι → Prop, (∀ w, Q .cut w) →
      (∀ q e w, e ≠ .next →
        Landed T i (F.push (l.at T p)) (c.map Within.deeper) q e w → Q e w) →
      (∀ w, Ready T i F (T.statement? (tail.endAt (p + 1 + body.size) + 1)) w → Q .next w) →
      Ends (Ready T i (F.push (l.at T p)) (some (l.at T p)))
        (tail.choose host i T (c.map Within.deeper) (p + 1 + body.size)) fun x w =>
        ∃ G d, Ready T i G d w ∧ Follows host i T G d x Q) :
    Follows host i T F (T.statement? p) ((Stmt.choice l body tail).course host i T c p)
      (Landed T i F c (p + (Stmt.choice l body tail).size)) := by
  have hsize : tail.endAt (p + 1 + body.size) + 1 = p + (Stmt.choice l body tail).size := by
    rw [Tail.endAt_add_one, Stmt.size_choice]
    omega
  have hin : (Family.choices.openAt T.kinds (p + 1 + body.size)).head? = some p := by
    rw [openAt_choice h, List.head?_cons]
  rw [h.statement?, ← hsize]
  refine Follows.visit hh (agree_if hh h _ _) ?_ fun _ => trivial
  refine .bind (Ready.ends_pushFrame _) fun _ => .bind (Ready.ends_guard hh _) fun b => ?_
  cases b with
  | true =>
    refine .bind (Ready.ends_goTo (p + 1)) fun _ => .pure fun w hw => ⟨_, _, hw, ?_⟩
    refine hbody.andThen (fun _ hw => hw) ?_ fun e w he hl => hl.outward he
    exact tail.follows_course hh h.choice.2 hin (fun _ => trivial) fun _ hw => hw
  | false => exact htail _ (fun _ => trivial) (fun q e w he hl => hl.outward he) fun _ hw => hw

/-- A loop, when its body is followed from every pass. -/
theorem Stmt.follows_loop (hh : host.Keeps (Steady T i)) {sort : Loop} {l : Line sort.start}
    {body : Block} {last : Line sort.finish}
    (h : Placed T p (Stmt.loop sort l body last).flatten) (ho : Opened T hs p F)
    (hbody : ∀ count G, sort.Entered F (l.at T p) (some count) G →
      Follows host i T G (T.statement? (p + 1))
        (body.course host i T (some ⟨p, p + 1 + body.size, 0⟩) (p + 1))
        (Landed T i G (some ⟨p, p + 1 + body.size, 0⟩) (p + 1 + body.size))) :
    Follows host i T F (T.statement? p) ((Stmt.loop sort l body last).course host i T c p)
      (Landed T i F c (p + (Stmt.loop sort l body last).size)) := by
  have ht : T.statement? p = some (l.at T p) := h.statement?
  have hsize : p + 1 + body.size + 1 = p + (Stmt.loop sort l body last).size := by
    rw [Stmt.size_loop]
    omega
  rw [ht, ← hsize]
  refine Follows.rounds hh (E := sort.Entered F (l.at T p)) (d := T.statement? (p + 1))
    (fun a G hG => Loop.agree_header hh h ho hG) (fun a G hG => Loop.ends_header hh hG)
    (fun w w' hs hw => hw.steady hs) ?_ (fun _ => trivial) rfl
  intro count G hG
  refine (hbody count G hG).andThen (fun _ hw => hw) ?_ ?_
  · -- behind the body stands the end of the loop, which leads back to the header
    rw [h.loop.2.statement?]
    refine Follows.visit hh (agree_loopEnd h) ?_ fun _ => trivial
    refine (Ready.ends_goTo p).mono (fun _ hw => hw) fun _ w hw => ⟨_, _, hw, ?_⟩
    refine .leave (by decide) fun w hw => ⟨G, hG, ?_⟩
    rw [← ht]
    exact hw
  · intro e w he hl
    cases e with
    | next => exact absurd rfl he
    | cut => trivial
    | stop => exact hl
    | breakLoop =>
      -- the loop that is left is this one: its frame goes, and those from before stay
      obtain ⟨d, hd, hready⟩ := hl
      cases hd
      rw [← Frames.pop_of_outer hG.1]
      exact hready
    | continueLoop =>
      obtain ⟨d, hd, hready⟩ := hl
      cases hd
      rw [← ht]
      exact ⟨G, hG, hready⟩

end

/-! ### Every statement -/

mutual
/-- **The machine follows every part of a program**, wherever the part stands. -/
theorem Stmt.follows (hh : host.Discreet T i) {p : Nat} {hs : List Nat} {F : Frames}
    {c : Option Within} : (s : Stmt) →
    Placed T p s.flatten → Opened T hs p F → Around T hs p c →
    Follows host i T F (T.statement? p) (s.course host i T c p) (Landed T i F c (p + s.size))
  | .command asks l, h, _, _ => by
    have ht : T.statement? p = some (l.at T p) := h.statement?
    rw [ht]
    exact .obey hh asks ht (fun _ => trivial) fun _ hw => hw
  | .stop l, h, _, _ => Stmt.follows_stop hh.toKeeps h
  | .breakLoop l, h, ho, ha => Stmt.follows_break hh.toKeeps h ho ha
  | .continueLoop l, h, ho, ha => Stmt.follows_continue hh.toKeeps h ho ha
  | .choice l body tail, h, ho, ha => by
    -- the branches stand in the frame of the choice, and in the loop around it, one frame deeper
    have hopen := ho.inside h.statement? (G := F.push (l.at T p)) rfl rfl
    have hplain : Family.loops.openAt T.kinds (p + 1) = Family.loops.openAt T.kinds p := by
      rw [Family.Part.openAt_line h]
      rfl
    have hin : (Family.choices.openAt T.kinds (p + 1 + body.size)).head? = some p := by
      rw [openAt_choice h, List.head?_cons]
    have hbody := Block.openAt_size Family.loops_part body h.choice.1
    refine Stmt.follows_choice hh.toKeeps h
      (Block.follows hh body h.choice.1 hopen (ha.deeper ho hplain)) fun Q hcut hother hQ => ?_
    exact Tail.ends_choose hh tail h.choice.2 hin
      (hopen.later (by omega) (Nat.le_of_add_right_le h.choice.2.length_le))
      (ha.deeper ho (hbody.trans hplain)) hcut hother hQ
  | .loop sort l body last, h, ho, _ =>
    Stmt.follows_loop hh.toKeeps h ho fun _ _ hG =>
      Block.follows hh body h.loop.1 (ho.inside h.statement? hG.1 hG.2.1) (.body h hs)

theorem Block.follows (hh : host.Discreet T i) {p : Nat} {hs : List Nat} {F : Frames}
    {c : Option Within} : (b : Block) →
    Placed T p b.flatten → Opened T hs p F → Around T hs p c →
    Follows host i T F (T.statement? p) (b.course host i T c p) (Landed T i F c (p + b.size))
  | .nil, _, _, _ => .leave (by decide) fun _ hw => hw
  | .cons s rest, h, ho, ha => by
    have hlater : Opened T hs (p + s.size) F :=
      ho.later (Nat.le_add_right p s.size) (Nat.le_of_add_right_le h.block.2.length_le)
    have hshift := Stmt.openAt_size Family.loops_part s h.block.1
    rw [Block.size_cons, ← Nat.add_assoc]
    exact (Stmt.follows hh s h.block.1 ho ha).andThen (fun _ hw => hw)
      (Block.follows hh rest h.block.2 hlater (ha.shift hshift)) fun e w he hl => hl.elsewhere he

/-- The branch that is chosen is followed, and then what is left of the choice. -/
theorem Tail.ends_choose (hh : host.Discreet T i) {p s : Nat} {hs : List Nat} {G : Frames}
    {c : Option Within} {d : Option Statement} {Q : Exit → World σ ι → Prop} : (t : Tail) →
    Placed T p t.flatten → (Family.choices.openAt T.kinds p).head? = some s →
    Opened T hs p G → Around T hs p c → (∀ w, Q .cut w) →
    (∀ q e w, e ≠ .next → Landed T i G c q e w → Q e w) →
    (∀ w, Ready T i G.pop (T.statement? (t.endAt p + 1)) w → Q .next w) →
    Ends (Ready T i G d) (t.choose host i T c p) fun x w =>
      ∃ G d, Ready T i G d w ∧ Follows host i T G d x Q
  | .close l, h, _, _, _, hcut, _, hQ => by
    rw [Tail.choose]
    refine .bind (Ready.ends_goTo p) fun _ => .pure fun w hw => ⟨_, _, hw, ?_⟩
    exact follows_conclude hh.toKeeps h hcut hQ
  | .elseIf l body rest, h, hin, ho, ha, hcut, hother, hQ => by
    have hplain {g : Family} (hg : g.Part) : g.openAt T.kinds (p + 1) = g.openAt T.kinds p :=
      hg.openAt_plain h rfl rfl
    have hbody {g : Family} (hg : g.Part) :
        g.openAt T.kinds (p + 1 + body.size) = g.openAt T.kinds p :=
      (Block.openAt_size hg body h.elseIf.1).trans (hplain hg)
    have hlen := h.elseIf.2.length_le
    have hin' : (Family.choices.openAt T.kinds (p + 1 + body.size)).head? = some s := by
      rw [hbody Family.choices_part, hin]
    rw [Tail.choose]
    refine .bind (Ready.ends_guard hh.toKeeps _) fun b => ?_
    cases b with
    | true =>
      refine .bind (Ready.ends_goTo (p + 1)) fun _ => .pure fun w hw => ⟨_, _, hw, ?_⟩
      exact (Block.follows hh body h.elseIf.1 (ho.later (by omega) (by omega))
        (ha.shift (hplain Family.loops_part))).andThen (fun _ hw => hw)
        (rest.follows_course hh.toKeeps h.elseIf.2 hin' hcut hQ) fun e w he hl => hother _ e w he hl
    | false =>
      exact Tail.ends_choose hh rest h.elseIf.2 hin' (ho.later (by omega) (by omega))
        (ha.shift (hbody Family.loops_part)) hcut hother hQ
  | .otherwise l body last, h, _, ho, ha, hcut, hother, hQ => by
    have hlen := h.otherwise.2.length_le
    rw [Tail.choose]
    refine .bind (Ready.ends_goTo (p + 1)) fun _ => .pure fun w hw => ⟨_, _, hw, ?_⟩
    exact (Block.follows hh body h.otherwise.1 (ho.later (by omega) (by omega))
      (ha.shift (Family.loops_part.openAt_plain h rfl rfl))).andThen (fun _ hw => hw)
      (follows_conclude hh.toKeeps h.otherwise.2 hcut hQ) fun e w he hl => hother _ e w he hl
end

/-! ## Whole programs -/

/-- A script at the start of its tree: it runs, in the outermost frame alone. -/
structure Script.AtStart (s : Script ι) : Prop where
  /-- Its links are those of the tree. -/
  links : s.links = Links.ofKinds s.tree.kinds
  /-- The cursor is on the first statement, if there is one. -/
  cursor : s.cursor = s.tree.statement? 0
  /-- There is one frame. -/
  outer : s.frames.outer = []
  /-- No statement opened it. -/
  start : s.frames.top.start = none
  /-- It runs. -/
  activity : s.activity = .running

/-- A new script is at the start of its tree. -/
theorem Script.atStart_start (name : String) (root : Node) :
    (Script.start name root : Script ι).AtStart := ⟨rfl, rfl, rfl, rfl, rfl⟩

theorem Script.AtStart.ready {w : World σ ι} (h : (w.script i).AtStart)
    (hi : i < w.scripts.size) (ht : Tame (w.script i).tree w) :
    Ready (w.script i).tree i (w.script i).frames ((w.script i).tree.statement? 0) w :=
  ⟨hi, rfl, rfl, h.links, h.cursor, rfl, h.activity, ht⟩

/-- A program that is all of a tree stands at its start. -/
theorem Placed.whole {nodes : List Node} (hb : T.root.children = nodes) : Placed T 0 nodes :=
  ⟨[], [], by rw [hb]; simp, rfl⟩

/-- At the start of a tree only the outermost frame is open. -/
theorem Opened.outermost (hout : F.outer = []) (hstart : F.top.start = none) :
    Opened T [] 0 F := by
  refine ⟨?_, nofun, Nat.zero_le _⟩
  show F.top.start :: F.outer.map Frame.start = _
  rw [hstart, hout]
  rfl

/-- A program that is all of a tree is followed to the end of the tree. -/
theorem Block.follows_whole (hh : host.Discreet T i) {b : Block}
    (hb : T.root.children = b.flatten) (hout : F.outer = []) (hstart : F.top.start = none) :
    Follows host i T F (T.statement? 0) (b.course host i T none 0) (Landed T i F none b.size) := by
  have haround : Around T [] 0 none := rfl
  have h := Block.follows hh b (.whole hb) (.outermost hout hstart) haround
  rw [Nat.zero_add] at h
  exact h

/-- After the last statement of a program there is none. -/
theorem Block.statement?_size {b : Block} (hb : T.root.children = b.flatten) :
    T.statement? b.size = none := by
  cases h : T.statement? b.size with
  | none => rfl
  | some t =>
    have hlt := Tree.lt_of_statement? h
    rw [Tree.kinds, List.length_map, hb] at hlt
    exact absurd hlt (Nat.lt_irrefl _)

/-- At its start a script is ticked as its program is executed. -/
theorem Block.ticks_eq (hh : host.Discreet T i) {b : Block} (hb : T.root.children = b.flatten)
    (hout : F.outer = []) (hstart : F.top.start = none) {w : World σ ι}
    (hw : Ready T i F (T.statement? 0) w) (n : Nat) :
    ticks host i (n + 1) w = b.execute host i T (n + 1) w := by
  obtain ⟨hrun, hland⟩ := Block.follows_whole hh hb hout hstart (n + 1) w hw
  have hstep : ticks host i (n + 1) w = onward host i (n + 1) w := by
    cases hc : T.statement? 0 with
    | some t =>
      rw [hc] at hw
      rw [onward_of_running (by rw [hw.isRunning]; rfl)]
    | none =>
      -- an empty script is finished by its first tick
      rw [hc] at hw
      rw [onward_of_ended (by rw [hw.isRunning]; rfl)]
      have htick : tick host i w = (do
          finish host i
          return false : ScriptM σ ι Bool) w := by
        have hnone : (World.script { w with active := some i } i).cursor = none := hw.cursor
        rw [tick_of_running hw.activity, step_of_none host i hnone]
        rfl
      show (tick host i >>= fun go => if go then ticks host i n else return false) w = _
      rw [bind_apply, htick, ← bind_apply, bind_assoc]
      rfl
  rw [hstep, hrun]
  unfold Block.execute
  refine bind_congr_ok fun r w' hok => ?_
  obtain ⟨e, m⟩ := r
  have hq := (hland e m w' hok).2
  cases e with
  | cut => rfl
  | next =>
    -- behind the last statement there is none, so the next tick finishes the script
    have hready : Ready T i F none w' := by
      rw [← Block.statement?_size hb]
      exact hq
    exact onward_of_ended (by rw [hready.isRunning]; rfl) m
  | stop =>
    obtain ⟨G, hready⟩ := hq
    exact onward_of_ended (by rw [hready.isRunning]; rfl) m
  -- around a whole program there is no loop to be left
  | breakLoop =>
    obtain ⟨d, hd, -⟩ := hq
    exact absurd hd nofun
  | continueLoop =>
    obtain ⟨d, hd, -⟩ := hq
    exact absurd hd nofun

/-- **TICKING A FLATTENED PROGRAM IS RUNNING THE PROGRAM.**  A script at the start of a tree whose
statements are those of a structured program, and a host of which nothing moves the script, opens
or closes its scopes or suspends it:

1. Any number of ticks has the same result as the meaning of the program within as many visits: the
   same world, the same answer, and the same failure if it fails.
2. The same handlers are called in the same order, with the same words and arguments, and each sees
   the same variables.
3. Unless the clock runs out, or it fails, the program ends behind its last statement, with only the
   frame from the beginning, or by a stop. -/
theorem Block.ticks_eq_execute (host : Host σ ι) (i : Nat) (b : Block) (w : World σ ι)
    (hi : i < w.scripts.size) (hb : (w.script i).root.children = b.flatten)
    (hs : (w.script i).AtStart) (hh : host.Discreet (w.script i).tree i)
    (ht : Tame (w.script i).tree w) (n : Nat) :
    ticks host i (n + 1) w = b.execute host i (w.script i).tree (n + 1) w ∧
    calls (ticks (host.recording i) i (n + 1)) w =
      calls (b.execute (host.recording i) i (w.script i).tree (n + 1)) w ∧
    ∀ e m w', b.course host i (w.script i).tree none 0 (n + 1) w = .ok (e, m) w' →
      e = .cut ∨
      (e = .next ∧ (w'.script i).cursor = none ∧ (w'.script i).frames = (w.script i).frames) ∨
      (e = .stop ∧ (w'.script i).cursor = none) := by
  refine ⟨?_, ?_, ?_⟩
  · exact Block.ticks_eq hh hb hs.outer hs.start (hs.ready hi ht) n
  · -- a host under record is as discreet as without, so the first part is about it too
    have hready : Ready (w.script i).tree i (w.script i).frames ((w.script i).tree.statement? 0)
        w.recording := ⟨hi, rfl, rfl, hs.links, hs.cursor, rfl, hs.activity, ht⟩
    unfold calls ScriptM.after
    rw [Block.ticks_eq hh.recording hb hs.outer hs.start hready n]
  · intro e m w' hok
    have hq := ((Block.follows_whole hh hb hs.outer hs.start (n + 1) w
      (hs.ready hi ht)).2 e m w' hok).2
    cases e with
    | cut => exact .inl rfl
    | next =>
      have hready : Ready (w.script i).tree i (w.script i).frames none w' := by
        rw [← Block.statement?_size (T := (w.script i).tree) hb]
        exact hq
      exact .inr (.inl ⟨rfl, hready.cursor, hready.frames⟩)
    | stop =>
      obtain ⟨G, hready⟩ := hq
      exact .inr (.inr ⟨rfl, hready.cursor⟩)
    | breakLoop =>
      obtain ⟨d, hd, -⟩ := hq
      exact absurd hd nofun
    | continueLoop =>
      obtain ⟨d, hd, -⟩ := hq
      exact absurd hd nofun

end

/-- A statement with its first token and the others. -/
def Line.of (word : Node) (rest : List Node) : Line word.kind where
  node := { kind := .statement, children := word :: rest }
  word
  rest
  statement := rfl
  children := rfl
  kind := rfl

/-- A program that says something for each element of a list. -/
def sayEach : Block :=
  .cons
    (.loop .listed
      (.of { kind := .forEachStart
             children := [{ kind := .operand, lexeme := some "v" },
               { kind := .operand, lexeme := some "words" }] } [])
      (.cons (.command (k := .command) rfl (.of { kind := .command, lexeme := some "say" } [])) .nil)
      (.of { kind := .forEnd } []))
    .nil

/-- A host whose handlers agree to everything and do nothing. -/
def assentingHost : Host Unit Unit where
  command _ _ _ _ _ := return .bool true
  expression _ _ _ _ := return .bool true
  computedAlias _ _ := return .null
  listener _ _ := return
  rule _ _ := return
  callback _ := return .bool true
  write _ := return

/-- A world in which the program is about to say two words. -/
def sayingWorld : World Unit Unit where
  host := ()
  scripts := #[.start "each" { kind := .script, children := sayEach.flatten }]
  registry := { commands := Table.empty.insert "say" (.host ()) }
  lists := Table.empty.insert "words"
    [⟨0, .root { kind := .string, lexeme := some "left" }⟩,
      ⟨0, .root { kind := .string, lexeme := some "right" }⟩]

theorem Block.ticks_eq_execute_each :
    (0 < sayingWorld.scripts.size ∧ (sayingWorld.script 0).AtStart ∧
      assentingHost.Discreet (sayingWorld.script 0).tree 0 ∧
      Tame (sayingWorld.script 0).tree sayingWorld) ∧
    ticks assentingHost 0 8 sayingWorld =
      sayEach.execute assentingHost 0 (sayingWorld.script 0).tree 8 sayingWorld := by
  have hsize : 0 < sayingWorld.scripts.size := by decide
  have hstart : (sayingWorld.script 0).AtStart := Script.atStart_start _ _
  have hhost : assentingHost.Discreet (sayingWorld.script 0).tree 0 := by
    have hL := steady_lenient (σ := Unit) (ι := Unit) (sayingWorld.script 0).tree 0
    exact ⟨⟨fun _ _ _ _ => .pure hL _, fun _ _ => .pure hL _, fun _ _ => .pure hL _,
      fun _ _ => .pure hL _, fun _ => .pure hL _⟩, fun _ _ _ _ _ => .pure hL _⟩
  have htame : Tame (sayingWorld.script 0).tree sayingWorld := by
    intro p t word c _ _ hg
    -- the host's own command is the only one
    have hget : sayingWorld.registry.commands.get? word =
        if "say" = word then some (.host ()) else none := by
      show ((Table.empty : Table (Handler Bundled.Command Unit)).insert "say" (.host ())).get? word =
        _
      rw [Table.get?_insert, Table.get?_empty]
    rw [hget] at hg
    split at hg
    · exact absurd hg nofun
    · exact absurd hg nofun
  exact ⟨⟨hsize, hstart, hhost, htame⟩,
    (Block.ticks_eq_execute assentingHost 0 sayEach sayingWorld hsize rfl hstart hhost htame 7).1⟩

/-- The program says one word after the other. -/
example : (calls (ticks (assentingHost.recording 0) 0 8) sayingWorld).map
    (fun c => (c.word, (Scope.lookup "v" c.seen).bind Argument.lexeme)) =
      [("say", some "left"), ("say", some "right")] := by
  decide +kernel

end Cadence
