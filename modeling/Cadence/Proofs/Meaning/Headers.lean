/-
  HEADERS — the three sorts of loops, and their ends.

  The machine knows by its innermost frame whether a loop was entered, and keeps the count of the
  passes there; the meaning of a loop is told how many passes there were.  The two fit together as
  long as the frame of the loop is on top and has the count in it (`Loop.Entered`).

  1. **One header** — each sort of header does what the meaning asks (`agree_while`, `agree_for`,
     `agree_forEach`), and leaves the frame of the loop on top (`Loop.Asked`).

  2. **Any header** — `Loop.agree_header` and `Loop.ends_header` are about all three sorts, and so
     is `agree_loopEnd` about the way back.
-/
import Cadence.Proofs.Meaning.Lines

namespace Cadence

open ScriptM

section

variable {σ ι α : Type} {host : Host σ ι} {i : Nat} {T : Tree} {F : Frames} {c : Option Statement}
  {p : Nat}

/-! ## Frames and counts of loops -/

/-- The frames at a header: those around the loop when it is entered, and later one more, which
belongs to the loop and counts its passes. -/
def Loop.Entered (sort : Loop) (F : Frames) (t : Statement) : Option Count → Frames → Prop
  | none, G => G = F
  | some c, G => G.outer = F.toList ∧ G.top.start = some t ∧
    (sort ≠ .guarded → G.top.loop = some c)

/-- The header sees by the innermost frame whether the loop was entered. -/
theorem Loop.Entered.openedBy {sort : Loop} {hs : List Nat} (ho : Opened T hs p F) {t : Statement}
    (ht : T.statement? p = some t) {a : Option Count} {G : Frames} (h : sort.Entered F t a G) :
    G.top.openedBy t = a.isSome := by
  cases a with
  | some c =>
    rw [Frames.openedBy_of_start h.2.1]
    exact (Tree.same_iff ht ht).mpr rfl
  | none =>
    obtain rfl : G = F := h
    have hst := ho.starts
    cases hs with
    | nil => exact Frames.openedBy_of_start_none (List.cons.inj hst).1
    | cons m rest =>
      -- the innermost frame was opened before the header
      have hm : m < p := ho.before m (List.mem_cons_self ..)
      obtain ⟨u, hu⟩ := Tree.exists_statement? (Nat.lt_of_lt_of_le hm ho.within)
      have htop : G.top.start = some u := (List.cons.inj hst).1.trans hu
      rw [Frames.openedBy_of_start htop, Option.isSome_none, Bool.eq_false_iff]
      intro hsame
      have : m = p := (Tree.same_iff hu ht).mp hsame
      omega

/-- Whoever asks whether a statement's frame is innermost knows the answer. -/
theorem agree_standsIn {G : Frames} {t : Statement} {b : Bool} (hb : G.top.openedBy t = b)
    {f : Bool → ScriptM σ ι α} {y : ScriptM σ ι α} (h : Agree (Ready T i G c) (f b) y) :
    Agree (Ready T i G c) (standsIn i t >>= f) y := by
  intro w hw
  show f ((w.script i).frames.top.openedBy t) w = _
  rw [hw.frames, hb]
  exact h w hw

/-- Whoever reads the count of the innermost frame knows it. -/
theorem agree_count {G : Frames} {n : Option Count} (hn : G.top.loop = n)
    {f : Script ι → ScriptM σ ι α} {x y : ScriptM σ ι α}
    (hf : ∀ s : Script ι, s.frames.top.loop = n → f s = x) (h : Agree (Ready T i G c) x y) :
    Agree (Ready T i G c) (script i >>= f) y := by
  intro w hw
  show f (w.script i) w = _
  rw [hf _ (by rw [hw.frames, hn])]
  exact h w hw

/-- Counting one more pass is putting down the next count. -/
theorem agree_countPass {G : Frames} {n : Count} (hn : G.top.loop = some n) :
    Agree (Ready (σ := σ) (ι := ι) T i G c) (countPass i) (setCount i n.again) :=
  agree_count hn (fun s hs => by rw [hs]; rfl) (.refl _)

/-- A loop is left from its header. -/
theorem agree_exitLoop {G : Frames} {t : Statement} (ht : T.statement? p = some t) {last : Nat}
    (hl : (p, last) ∈ (Links.ofKinds T.kinds).loopEnds) {u : Statement}
    (hu : T.statement? last = some u) (head : Site) :
    Agree (Ready (σ := σ) (ι := ι) T i G (some t)) (exitLoop i t head)
      (do
        modifyScript i Script.popFrame
        goTo i T (last + 1)) := by
  intro w hw
  have hlink : (w.script i).loopEnd? t = some u := by
    unfold Script.loopEnd?
    rw [hw.has.linked? ht, hw.links, Links.loopEnd?_eq_some_iff.mpr hl]
    exact hu
  unfold exitLoop
  rw [script_bind, hlink]
  exact Agree.bind Ready.ends_popFrame (fun _ => agree_moveTo_advance hu) w hw

/-- The machine follows its header as the meaning does. -/
theorem agree_follow {G : Frames} {t : Statement} (ht : T.statement? p = some t) {last : Nat}
    (hl : (p, last) ∈ (Links.ofKinds T.kinds).loopEnds) {u : Statement}
    (hu : T.statement? last = some u) (head : Site) (pass : Option Count) :
    Agree (Ready (σ := σ) (ι := ι) T i G (some t))
      (if pass.isSome then advance i else exitLoop i t head)
      (follow i T p last pass >>= fun _ => pure ()) := by
  cases pass with
  | some c => exact agree_advance ht
  | none => exact agree_exitLoop ht hl hu head

/-! ## One header -/

theorem executeHead_while {t : Statement} {head : Site} (hk : head.kind = .whileStart) :
    executeHead host i t head = executeWhile host i t head := by
  unfold executeHead
  rw [hk]

theorem executeHead_for {t : Statement} {head : Site} (hk : head.kind = .forStart) :
    executeHead host i t head = executeFor i t head := by
  unfold executeHead
  rw [hk]

theorem executeHead_forEach {t : Statement} {head : Site} (hk : head.kind = .forEachStart) :
    executeHead host i t head = executeForEach i t head := by
  unfold executeHead
  rw [hk]

section

variable {hs : List Nat} {t : Statement} {last : Nat} {u : Statement} {a : Option Count}
  {G : Frames}

/-- The header of a guarded loop. -/
theorem agree_while (hh : host.Keeps (Steady T i)) (ho : Opened T hs p F)
    (ht : T.statement? p = some t) (hl : (p, last) ∈ (Links.ofKinds T.kinds).loopEnds)
    (hu : T.statement? last = some u) (hG : Loop.guarded.Entered F t a G) (head : Site) :
    Agree (Ready T i G (some t)) (executeWhile host i t head)
      ((Loop.guarded.ask host i t head a >>= follow i T p last) >>= fun _ => pure ()) := by
  have finish : ∀ G, Agree (Ready T i G (some t))
      (do
        if ← evaluateGuard host i head then advance i
        else exitLoop i t head)
      (((do
        if ← evaluateGuard host i head then return some {} else return none) >>=
          follow i T p last) >>= fun _ => pure ()) := by
    intro G
    simp only [bind_assoc]
    refine .bind (Ready.ends_guard hh head) fun b => ?_
    cases b with
    | true => exact agree_follow ht hl hu head (some {})
    | false => exact agree_follow ht hl hu head none
  unfold executeWhile
  refine agree_standsIn (hG.openedBy ho ht) ?_
  cases a with
  | none =>
    rw [Loop.ask]
    simp only [bind_assoc] at finish ⊢
    exact .bind (Ready.ends_pushFrame t) fun _ => finish _
  | some c => exact finish _

/-- With its count put down, a counted loop goes on as the meaning says. -/
theorem agree_followCount (ht : T.statement? p = some t)
    (hl : (p, last) ∈ (Links.ofKinds T.kinds).loopEnds) (hu : T.statement? last = some u)
    (head : Site) (G : Frames) (count : Count) :
    Agree (Ready (σ := σ) (ι := ι) T i G (some t))
      (setCount i count >>= fun _ => followCount i t head)
      ((askCount i count >>= follow i T p last) >>= fun _ => pure ()) := by
  unfold followCount askCount
  simp only [bind_assoc]
  refine .bind (Ready.ends_mapTop _) fun _ => ?_
  refine agree_count (n := some count)
    (x := if count.continues then advance i else exitLoop i t head) rfl
    (fun s hs => by rw [hs]) ?_
  rw [pure_bind]
  cases count.continues with
  | true => exact agree_follow ht hl hu head (some count)
  | false => exact agree_follow ht hl hu head none

/-- The header of a counted loop. -/
theorem agree_for (ho : Opened T hs p F) (ht : T.statement? p = some t)
    (hl : (p, last) ∈ (Links.ofKinds T.kinds).loopEnds) (hu : T.statement? last = some u)
    (hG : Loop.counted.Entered F t a G) (head : Site) :
    Agree (Ready T i G (some t)) (executeFor i t head)
      ((Loop.counted.ask host i t head a >>= follow i T p last) >>= fun _ => pure ()) := by
  have go := agree_followCount (σ := σ) (ι := ι) (i := i) ht hl hu head
  unfold executeFor Loop.ask
  cases head.firstChild? with
  | none => exact .refl _
  | some bound =>
    simp only
    by_cases hk : bound.kind ≠ .integer
    · rw [if_pos hk, if_pos hk]
      exact .refl _
    · rw [if_neg hk, if_neg hk]
      refine agree_standsIn (hG.openedBy ho ht) ?_
      -- entering the loop and counting one more pass both end with a count that is put down
      cases a with
      | none =>
        simp only [bind_assoc] at go ⊢
        refine .bind (Ready.ends_pushFrame t) fun _ => ?_
        refine .bind (Ready.ends_reading _) fun n => ?_
        exact go _ { bound := some n }
      | some c =>
        have hcount : G.top.loop = some c := hG.2.2 (by decide)
        exact .trans (.bind_left (agree_countPass hcount) _) (go G c.again)

/-- With its count put down, a loop over a list goes on as the meaning says. -/
theorem agree_followElement (ht : T.statement? p = some t)
    (hl : (p, last) ∈ (Links.ofKinds T.kinds).loopEnds) (hu : T.statement? last = some u)
    (head : Site) (name : String) (list : Site) (listName : String) (G : Frames) (count : Count) :
    Agree (Ready (σ := σ) (ι := ι) T i G (some t))
      (setCount i count >>= fun _ => followElement i t head name list listName)
      ((askElement i name list listName count >>= follow i T p last) >>= fun _ => pure ()) := by
  unfold followElement askElement
  simp only [bind_assoc]
  refine .bind (Ready.ends_mapTop _) fun _ => ?_
  refine agree_count (n := some count) rfl (fun s hs => by rw [hs]) ?_
  refine .bind (Ready.ends_listElement list listName _) fun element => ?_
  cases element with
  | some v =>
    rw [bind_assoc]
    exact .bind (Ready.ends_mapTop _) fun _ => agree_follow ht hl hu head (some count)
  | none =>
    rw [bind_assoc]
    exact .bind (Ready.ends_mapTop _) fun _ => agree_follow ht hl hu head none

/-- The header of a loop over a list. -/
theorem agree_forEach (ho : Opened T hs p F) (ht : T.statement? p = some t)
    (hl : (p, last) ∈ (Links.ofKinds T.kinds).loopEnds) (hu : T.statement? last = some u)
    (hG : Loop.listed.Entered F t a G) (head : Site) :
    Agree (Ready T i G (some t)) (executeForEach i t head)
      ((Loop.listed.ask host i t head a >>= follow i T p last) >>= fun _ => pure ()) := by
  unfold executeForEach Loop.ask
  dsimp only
  -- a variable and a list, or both fail
  generalize (head.children.map fun c => (c, c.lexeme)) = tokens
  rcases tokens with _ | ⟨⟨var, _ | name⟩, _ | ⟨⟨list, _ | listName⟩, rest⟩⟩
  case cons.some.cons.some =>
    have go := agree_followElement (σ := σ) (ι := ι) (i := i) ht hl hu head name list listName
    refine agree_standsIn (hG.openedBy ho ht) ?_
    cases a with
    | none =>
      simp only [bind_assoc] at go ⊢
      exact .bind (Ready.ends_pushFrame t) fun _ => go _ {}
    | some c =>
      have hcount : G.top.loop = some c := hG.2.2 (by decide)
      exact .trans (.bind_left (agree_countPass hcount) _) (go G c.again)
  all_goals exact .refl _

/-- A header leaves the frame of its loop on top, and in it the count of the pass that is next. -/
def Loop.Asked (sort : Loop) (T : Tree) (i : Nat) (F : Frames) (t : Statement)
    (pass : Option Count) (w : World σ ι) : Prop :=
  ∃ G, Ready T i G (some t) w ∧ G.outer = F.toList ∧
    ∀ c, pass = some c → sort.Entered F t (some c) G

theorem ends_askWhile (hh : host.Keeps (Steady T i)) (hG : Loop.guarded.Entered F t a G)
    (head : Site) :
    Ends (Ready T i G (some t)) (Loop.guarded.ask host i t head a)
      (Loop.guarded.Asked T i F t) := by
  have finish : ∀ G : Frames, G.outer = F.toList → G.top.start = some t →
      Ends (Ready T i G (some t))
        (do
          if ← evaluateGuard host i head then return some {} else return none)
        (Loop.guarded.Asked T i F t) := by
    intro G hout hstart
    refine .bind (Ready.ends_guard hh head) fun b => ?_
    have hasked : ∀ pass (w : World σ ι), Ready T i G (some t) w →
        Loop.guarded.Asked T i F t pass w :=
      fun pass w hw => ⟨G, hw, hout, fun c _ => ⟨hout, hstart, fun h => absurd rfl h⟩⟩
    cases b with
    | true => exact .pure (hasked _)
    | false => exact .pure (hasked _)
  cases a with
  | none =>
    obtain rfl : G = F := hG
    rw [Loop.ask]
    exact .bind (Ready.ends_pushFrame t) fun _ => finish _ rfl rfl
  | some c => exact finish G hG.1 hG.2.1

theorem ends_askCount (hout : G.outer = F.toList) (hstart : G.top.start = some t)
    (count : Count) :
    Ends (Ready (σ := σ) (ι := ι) T i G (some t)) (askCount i count)
      (Loop.counted.Asked T i F t) := by
  refine .bind (Ready.ends_mapTop _) fun _ => .pure fun w hw => ⟨_, hw, hout, fun c hc => ?_⟩
  have hcount : count = c := by
    split at hc
    · exact Option.some.inj hc
    · exact absurd hc (by simp)
  exact ⟨hout, hstart, fun _ => congrArg some hcount⟩

theorem ends_askFor (hG : Loop.counted.Entered F t a G) (head : Site) :
    Ends (Ready T i G (some t)) (Loop.counted.ask host i t head a)
      (Loop.counted.Asked T i F t) := by
  unfold Loop.ask
  cases head.firstChild? with
  | none => exact .fail
  | some bound =>
    refine .ite (fun _ => .fail) fun _ => ?_
    cases a with
    | none =>
      obtain rfl : G = F := hG
      simp only [bind_assoc]
      refine .bind (Ready.ends_pushFrame t) fun _ => .bind (Ready.ends_reading _) fun n => ?_
      exact ends_askCount rfl rfl { bound := some n }
    | some c => exact ends_askCount hG.1 hG.2.1 c.again

theorem ends_askElement (hout : G.outer = F.toList) (hstart : G.top.start = some t)
    (name : String) (list : Site) (listName : String) (count : Count) :
    Ends (Ready (σ := σ) (ι := ι) T i G (some t)) (askElement i name list listName count)
      (Loop.listed.Asked T i F t) := by
  refine .bind (Ready.ends_mapTop _) fun _ => ?_
  refine .bind (Ready.ends_listElement list listName _) fun element => ?_
  cases element with
  | some v =>
    refine .bind (Ready.ends_mapTop _) fun _ => .pure fun w hw => ⟨_, hw, hout, fun c hc => ?_⟩
    exact ⟨hout, hstart, fun _ => hc⟩
  | none =>
    exact .bind (Ready.ends_mapTop _) fun _ => .pure fun w hw => ⟨_, hw, hout, nofun⟩

theorem ends_askForEach (hG : Loop.listed.Entered F t a G) (head : Site) :
    Ends (Ready T i G (some t)) (Loop.listed.ask host i t head a)
      (Loop.listed.Asked T i F t) := by
  unfold Loop.ask
  dsimp only
  generalize (head.children.map fun c => (c, c.lexeme)) = tokens
  rcases tokens with _ | ⟨⟨var, _ | name⟩, _ | ⟨⟨list, _ | listName⟩, rest⟩⟩
  case cons.some.cons.some =>
    cases a with
    | none =>
      obtain rfl : G = F := hG
      have h := ends_askElement (σ := σ) (ι := ι) (T := T) (i := i) (F := G) (t := t)
        (G := G.push t) rfl rfl name list listName {}
      simp only [bind_assoc]
      exact .bind (Ready.ends_pushFrame t) fun _ => h
    | some c => exact ends_askElement hG.1 hG.2.1 name list listName c.again
  all_goals exact .fail

end

/-! ## Any header -/

/-- **A header** does what the meaning says, whichever sort of loop it opens. -/
theorem Loop.agree_header (hh : host.Keeps (Steady T i)) {sort : Loop} {l : Line sort.start}
    {body : Block} {last : Line sort.finish}
    (h : Placed T p (Stmt.loop sort l body last).flatten) {hs : List Nat} (ho : Opened T hs p F)
    {a : Option Count} {G : Frames} (hG : sort.Entered F (l.at T p) a G) :
    Agree (Ready T i G (some (l.at T p))) (executeStatement host i (l.at T p))
      (sort.header host i T l p (p + 1 + body.size) a >>= fun _ => pure ()) := by
  have ht : T.statement? p = some (l.at T p) := h.statement?
  have hl := Links.mem_loopEnds_loop h
  have hu := h.loop.2.statement?
  rw [executeStatement_line]
  cases sort with
  | guarded =>
    rw [executeHead_while l.kind_head]
    exact agree_while hh ho ht hl hu hG _
  | counted =>
    rw [executeHead_for l.kind_head]
    exact agree_for ho ht hl hu hG _
  | listed =>
    rw [executeHead_forEach l.kind_head]
    exact agree_forEach ho ht hl hu hG _

/-- After its header a loop is in its body, in its own frame, or behind its end, with the frames
from before. -/
theorem Loop.ends_header (hh : host.Keeps (Steady T i)) {sort : Loop} {l : Line sort.start}
    {last : Nat} {a : Option Count} {G : Frames} (hG : sort.Entered F (l.at T p) a G) :
    Ends (Ready T i G (some (l.at T p))) (sort.header host i T l p last a) fun pass w =>
      match pass with
      | some c => ∃ G, sort.Entered F (l.at T p) (some c) G ∧ Ready T i G (T.statement? (p + 1)) w
      | none => Ready T i F (T.statement? (last + 1)) w := by
  have hask : Ends (Ready T i G (some (l.at T p)))
      (sort.ask host i (l.at T p) (l.head T p) a) (sort.Asked T i F (l.at T p)) := by
    cases sort with
    | guarded => exact ends_askWhile hh hG _
    | counted => exact ends_askFor hG _
    | listed => exact ends_askForEach hG _
  refine .bind hask fun pass w r w' hw hok => ?_
  obtain ⟨G', hready, hout, hentered⟩ := hw
  cases pass with
  | some c =>
    obtain ⟨_, v, hgo, hr⟩ := bind_ok (x := goTo i T (p + 1)) hok
    cases hr
    exact ⟨G', hentered c rfl, Ready.ends_goTo (p + 1) _ _ _ hready hgo⟩
  | none =>
    have hleave : Ends (Ready (σ := σ) (ι := ι) T i G' (some (l.at T p)))
        (follow i T p last none) fun pass w =>
          pass = none ∧ Ready T i G'.pop (T.statement? (last + 1)) w :=
      .bind Ready.ends_popFrame fun _ => .bind (Ready.ends_goTo (last + 1)) fun _ =>
        .pure fun w hw => ⟨rfl, hw⟩
    obtain ⟨hr, hready'⟩ := hleave w r w' hready hok
    rw [Frames.pop_of_outer hout] at hready'
    rw [hr]
    exact hready'

theorem executeHead_loopEnd {sort : Loop} {t : Statement} {head : Site}
    (hk : head.kind = sort.finish) : executeHead host i t head = executeLoopEnd i t head := by
  unfold executeHead
  rw [hk]
  cases sort with
  | guarded => rfl
  | counted => rfl
  | listed => rfl

/-- The end of a loop leads back to its header. -/
theorem agree_loopEnd {sort : Loop} {l : Line sort.start} {body : Block}
    {last : Line sort.finish} (h : Placed T p (Stmt.loop sort l body last).flatten) :
    Agree (Ready T i F (some (last.at T (p + 1 + body.size))))
      (executeStatement host i (last.at T (p + 1 + body.size)))
      (goTo i T p >>= fun _ => pure ()) := by
  have ht : T.statement? p = some (l.at T p) := h.statement?
  rw [executeStatement_line, executeHead_loopEnd last.kind_head]
  intro w hw
  have hlink : (w.script i).loopHeader? (last.at T (p + 1 + body.size)) = some (l.at T p) := by
    unfold Script.loopHeader?
    rw [hw.has.linked? h.loop.2.statement?, hw.links,
      Links.loopHeader?_eq_some_iff.mpr (Links.mem_loopEnds_loop h)]
    exact ht
  unfold executeLoopEnd
  rw [script_bind, hlink, goTo, ht]
  rfl

end

end Cadence
