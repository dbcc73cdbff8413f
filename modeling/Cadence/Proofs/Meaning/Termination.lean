/-
  TERMINATION — a program without guarded loops comes to its end.

  A counted loop fixes its bound when it is entered, and a loop over a list ends at the end of the
  list; so if commands are done when they are asked, and nobody makes a list longer that is being
  gone through, a program without guarded loops has only so many ticks.  The cursor goes backwards
  all the time, and an inner loop starts from zero on every pass of an outer one.  So nothing is
  counted over the whole program; the proof goes by its structure.

  1. **Limits** — a pass of a loop has a number below the bound, or below the number of entries
     (`Loop.ask_some`).  Both are known when the loop is entered (`Loop.exists_limits`).

  2. **The crux** — a loop resumes what is behind it (`Resumes.loop`): by induction on the passes
     that are left, its body resumes the header, with one pass less.

  3. **The result** — `Block.ticks_cease`, by induction on the structure of the program.
-/
import Cadence.Proofs.Meaning.Ceasing

namespace Cadence

open ScriptM

/-! ## Programs without guarded loops -/

mutual
/-- No loop of a part is guarded. -/
def Stmt.unguarded : Stmt → Bool
  | .choice _ body tail => body.unguarded && tail.unguarded
  | .loop sort _ body _ => sort ≠ .guarded && body.unguarded
  | _ => true

/-- No loop of a block is guarded. -/
def Block.unguarded : Block → Bool
  | .nil => true
  | .cons s rest => s.unguarded && rest.unguarded

/-- No loop of a tail is guarded. -/
def Tail.unguarded : Tail → Bool
  | .close _ => true
  | .elseIf _ body rest => body.unguarded && rest.unguarded
  | .otherwise _ body _ => body.unguarded
end

section

variable {σ ι : Type} {host : Host σ ι} {i : Nat} {between : World σ ι → World σ ι → Prop}
  {T : Tree} {L : Limits} {F : Frames}

/-! ## Limits -/

/-- A count that goes on has not reached its bound. -/
theorem Count.lt_of_continues {c : Count} (h : c.continues = true) :
    c.index < (c.bound.getD 0).toNat := by
  obtain ⟨n, hn, hlt⟩ := continues_iff.mp h
  rw [hn, Option.getD_some]
  omega

/-- Only an entry that is there is found. -/
theorem lt_of_listElement {list : Site} {listName : String} {index : Nat} {a : Argument}
    {w w' : World σ ι} (h : listElement list listName index w = .ok (some a) w') :
    index < w.listLength listName := by
  cases hl : w.lists.get? listName with
  | none =>
    unfold listElement mapFault at h
    rw [reading_apply] at h
    unfold World.listValue World.requireList at h
    rw [hl] at h
    exact absurd h nofun
  | some items =>
    rw [listElement_of_some hl] at h
    simp only [EStateM.Result.ok.injEq] at h
    unfold World.listLength
    rw [hl]
    exact (List.getElem?_eq_some_iff.mp h.1).1

/-- The next pass of a counted loop comes before its bound. -/
theorem askCount_some {count c : Count} {w w' : World σ ι}
    (h : askCount i count w = .ok (some c) w') :
    c = count ∧ c.index < (c.bound.getD 0).toNat := by
  obtain ⟨_, u, _, h⟩ := bind_ok h
  cases hc : count.continues with
  | false =>
    rw [hc] at h
    exact absurd h nofun
  | true =>
    rw [hc] at h
    cases h
    exact ⟨rfl, Count.lt_of_continues hc⟩

/-- The next pass of a loop over a list comes before the end of the list. -/
theorem askElement_some {name : String} {list : Site} {listName : String} {count c : Count}
    {w w' : World σ ι} (h : askElement i name list listName count w = .ok (some c) w') :
    c = count ∧ c.index < w.listLength listName := by
  obtain ⟨_, u, hset, h⟩ := bind_ok h
  cases hset
  obtain ⟨element, v, helement, h⟩ := bind_ok h
  cases element with
  | none =>
    obtain ⟨_, _, _, h⟩ := bind_ok h
    exact absurd h nofun
  | some a =>
    obtain ⟨_, _, _, h⟩ := bind_ok h
    cases h
    have hlt : _ < World.listLength (w.modifyScript i _) listName := lt_of_listElement helement
    exact ⟨rfl, hlt⟩

/-- A loop has a limit for its passes, and this pass comes before it. -/
def Loop.Allows (t : Statement) (w : World σ ι) (c : Count) : Loop → Prop
  | .guarded => False
  | .counted => c.index < (c.bound.getD 0).toNat
  | .listed => ∃ name, t.list? = some name ∧ c.index < w.listLength name

/-- **The passes of a loop are limited**, unless it is guarded.  And a pass after others has the
next number and the same bound. -/
theorem Loop.ask_some {sort : Loop} {t : Statement} {head : Site} {a : Option Count} {c : Count}
    {w w' : World σ ι} (hhead : t.head? = some head) (hkind : head.kind = sort.start)
    (hsort : sort ≠ .guarded) (h : sort.ask host i t head a w = .ok (some c) w') :
    (∀ c', a = some c' → c = c'.again) ∧ sort.Allows t w c := by
  have first : ∀ c', (none : Option Count) = some c' → c = c'.again := by
    intro c' hc'
    cases hc'
  cases sort with
  | guarded => exact absurd rfl hsort
  | counted =>
    unfold Loop.ask at h
    cases hb : head.firstChild? with
    | none =>
      rw [hb] at h
      cases h
    | some bound =>
      rw [hb] at h
      simp only at h
      by_cases hk : bound.kind ≠ .integer
      · rw [if_pos hk] at h
        cases h
      · rw [if_neg hk] at h
        cases a with
        | none =>
          obtain ⟨count, u, _, h⟩ := bind_ok h
          obtain ⟨rfl, hlt⟩ := askCount_some h
          exact ⟨first, hlt⟩
        | some before =>
          obtain ⟨rfl, hlt⟩ := askCount_some h
          exact ⟨fun c' hc' => congrArg Count.again (Option.some.inj hc'), hlt⟩
  | listed =>
    have hstart : head.kind = .forEachStart := hkind
    have hlist : t.list? = head.children[1]?.bind Site.lexeme := by
      rw [Statement.list?, hhead, Option.bind_some, if_pos hstart]
    unfold Loop.ask at h
    dsimp only at h
    -- a variable and a list, or the header fails
    generalize hcs : (head.children.map fun c => (c, c.lexeme)) = tokens at h
    rcases tokens with _ | ⟨⟨var, _ | name⟩, _ | ⟨⟨list, _ | listName⟩, rest⟩⟩
    case cons.some.cons.some =>
      have hsecond : (head.children.map fun c => (c, c.lexeme))[1]? =
          some (list, some listName) := by
        rw [hcs]
        rfl
      rw [List.getElem?_map, Option.map_eq_some_iff] at hsecond
      obtain ⟨node, hnode, hpair⟩ := hsecond
      have hname : t.list? = some listName := by
        rw [hlist, hnode]
        exact congrArg Prod.snd hpair
      cases a with
      | none =>
        obtain ⟨count, u, hpush, h⟩ := bind_ok h
        cases hpush
        obtain ⟨rfl, hlt⟩ := askElement_some h
        exact ⟨first, listName, hname, hlt⟩
      | some before =>
        obtain ⟨rfl, hlt⟩ := askElement_some h
        exact ⟨fun c' hc' => congrArg Count.again (Option.some.inj hc'), listName, hname, hlt⟩
    all_goals cases h

/-- For a loop that is about to be entered there are limits under which each of its passes has a
number below some bound, which stays the same from pass to pass. -/
theorem Loop.exists_limits {p : Nat} {sort : Loop} {l : Line sort.start} {body : Block}
    {last : Line sort.finish} (hsort : sort ≠ .guarded)
    (h : Placed T p (Stmt.loop sort l body last).flatten)
    (hL : L.Cover T p (p + 1 + body.size + 1)) {w : World σ ι} (hw : L.Hold w) :
    ∃ (L' : Limits) (bound : Count → Nat), (∀ a ∈ L, a ∈ L') ∧
      L'.Cover T p (p + 1 + body.size + 1) ∧ L'.Hold w ∧ (∀ c, bound c.again = bound c) ∧
      ∀ (u : World σ ι) c, L'.Hold u → sort.Allows (l.at T p) u c → c.index < bound c := by
  cases sort with
  | guarded => exact absurd rfl hsort
  | counted =>
    exact ⟨L, fun c => (c.bound.getD 0).toNat, fun _ ha => ha, hL, hw, fun _ => rfl,
      fun _ _ _ hc => hc⟩
  | listed =>
    cases hname : (l.at T p).list? with
    | none =>
      refine ⟨L, fun _ => 0, fun _ ha => ha, hL, hw, fun _ => rfl, ?_⟩
      rintro u c - ⟨name, hsome, -⟩
      exact absurd (hname.symm.trans hsome) nofun
    | some name =>
      -- the list has so many entries now, and it will not get longer
      refine ⟨(name, w.listLength name) :: L, fun _ => w.listLength name,
        fun a ha => List.mem_cons_of_mem _ ha, ?_, ?_, fun _ => rfl, ?_⟩
      · intro a ha k hk hk'
        rcases List.mem_cons.mp ha with rfl | ha
        · exact ⟨p, p + 1 + body.size, l.at T p, Links.mem_loopEnds_loop h, hk, by omega,
            h.statement?, hname⟩
        · exact hL a ha k hk hk'
      · intro a ha
        rcases List.mem_cons.mp ha with rfl | ha
        · exact Nat.le_refl _
        · exact hw a ha
      · rintro u c hu ⟨name', hsome, hlt⟩
        obtain rfl : name = name' := Option.some.inj (hname.symm.trans hsome)
        exact Nat.lt_of_lt_of_le hlt (hu _ (List.mem_cons_self ..))

theorem follow_ok {p last : Nat} {pass r : Option Count} {w w' : World σ ι}
    (h : follow i T p last pass w = .ok r w') : r = pass := by
  cases pass with
  | none =>
    obtain ⟨_, _, _, h⟩ := bind_ok h
    obtain ⟨_, _, _, h⟩ := bind_ok h
    cases h
    rfl
  | some c =>
    obtain ⟨_, _, _, h⟩ := bind_ok h
    cases h
    rfl

/-! ## Loops -/

section

variable (hh : host.Keeps (Steady T i)) (hbetween : ∀ u v, between u v → Unshifted T i u v)
  {p q : Nat} {hs : List Nat}
include hh hbetween

/-- A header resumes its body, when there is another pass, and what is behind the loop. -/
theorem Resumes.header {sort : Loop} {l : Line sort.start} {body : Block}
    {last : Line sort.finish} (hsort : sort ≠ .guarded)
    (h : Placed T p (Stmt.loop sort l body last).flatten) (ho : Opened T hs p F)
    (hL : L.Cover T p q) (hpq : p < q)
    (hbehind : Resumes host i between T L F (T.statement? (p + 1 + body.size + 1)))
    {a : Option Count} {G : Frames} (hG : sort.EnteredLike F (l.at T p) a G)
    (hpass : ∀ c G', sort.EnteredLike F (l.at T p) (some c) G' →
      (∀ c', a = some c' → c = c'.again) →
      (∃ u : World σ ι, L.Hold u ∧ sort.Allows (l.at T p) u c) →
      Resumes host i between T L G' (T.statement? (p + 1))) :
    Resumes host i between T L G (some (l.at T p)) := by
  intro H hH
  obtain ⟨F', hF', hG⟩ := hG.congr hH
  refine .line hh hbetween h.statement? hL hpq ?_
  intro u x v hu hok
  rw [Loop.agree_header hh h (ho.congr hF') hG u hu.ready] at hok
  obtain ⟨pass, _, hheader, hpure⟩ := bind_ok hok
  cases hpure
  have hends := Loop.ends_header hh hG u pass v hu.ready hheader
  obtain ⟨pass', w, hask, hfollow⟩ := bind_ok hheader
  obtain rfl := follow_ok hfollow
  cases pass with
  | none => exact ⟨F', _, hends, hbehind.congr hF'⟩
  | some c =>
    obtain ⟨G', hG', hready⟩ := hends
    obtain ⟨hnext, hallows⟩ := Loop.ask_some (l.head? T p) l.kind_head hsort hask
    exact ⟨G', _, hready, hpass c G' ⟨F', hF', hG'⟩ hnext ⟨u, hu.limits, hallows⟩⟩

/-- **A loop** resumes what is behind it, if its body resumes wherever it lands: by induction on the
passes that are left. -/
theorem Resumes.loop {sort : Loop} {l : Line sort.start} {body : Block}
    {last : Line sort.finish} (hsort : sort ≠ .guarded)
    (h : Placed T p (Stmt.loop sort l body last).flatten) (ho : Opened T hs p F)
    (hL : L.Cover T p (p + 1 + body.size + 1))
    (hbehind : Resumes host i between T L F (T.statement? (p + 1 + body.size + 1)))
    (hbody : ∀ L' c G, L'.Cover T p (p + 1 + body.size + 1) →
      sort.EnteredLike F (l.at T p) (some c) G →
      Resumable host i between T L' G (some ⟨p, p + 1 + body.size, 0⟩) (p + 1 + body.size) →
      Resumes host i between T L' G (T.statement? (p + 1))) :
    Resumes host i between T L F (T.statement? p) := by
  intro G hG w hfair hlimits hw
  obtain ⟨L', bound, hsub, hcover, hhold, hsame, hbound⟩ :=
    Loop.exists_limits hsort h hL hlimits
  have hbehind' : Resumes host i between T L' F (T.statement? (p + 1 + body.size + 1)) :=
    hbehind.limits hsub
  have ht : T.statement? p = some (l.at T p) := h.statement?
  have pass : ∀ k c G, sort.EnteredLike F (l.at T p) (some c) G → c.index < bound c →
      bound c - c.index ≤ k → Resumes host i between T L' G (T.statement? (p + 1)) := by
    intro k
    induction k with
    | zero =>
      intro c G _ hlt hk
      omega
    | succ k ih =>
      intro c G hG hlt hk
      have again : Resumes host i between T L' G (T.statement? p) := by
        rw [ht]
        refine .header hh hbetween hsort h ho hcover (by omega) hbehind' hG ?_
        rintro c' G' hG' hnext ⟨u, hu, hallows⟩
        have hlt' := hbound u c' hu hallows
        obtain rfl : c' = c.again := hnext c rfl
        refine ih c.again G' hG' hlt' ?_
        rw [hsame]
        show bound c - (c.index + 1) ≤ k
        omega
      refine hbody L' c G hcover hG ⟨?_, ?_, ?_⟩
      · -- behind the body stands the end of the loop, which leads back to the header
        rw [h.loop.2.statement?]
        intro H hH
        refine .agree hh hbetween h.loop.2.statement? (hcover.mono (by omega) (Nat.le_refl _))
          (Nat.lt_succ_self _) (agree_loopEnd h) ?_
        exact (Ready.ends_goTo p).mono (fun _ hw => hw) fun _ w hw =>
          ⟨_, _, hw, again.congr hH⟩
      · -- the loop that is left is this one: its frame goes, and those from before stay
        rintro d hd
        cases hd
        obtain ⟨F', hF', hG⟩ := hG
        have hclose : G.close 1 = F' := Frames.pop_of_outer hG.1
        rw [hclose]
        exact hbehind'.congr hF'
      · rintro d hd
        cases hd
        exact again
  have hentry : Resumes host i between T L' F (T.statement? p) := by
    rw [ht]
    have hG : sort.EnteredLike F (l.at T p) none F := ⟨F, rfl, rfl⟩
    refine .header hh hbetween hsort h ho hcover (by omega) hbehind' hG ?_
    rintro c G hG - ⟨u, hu, hallows⟩
    exact pass _ c G hG (hbound u c hu hallows) (Nat.le_refl _)
  exact hentry G hG w hfair hhold hw

end

/-! ## Every part -/

mutual
/-- **Every part of a program** resumes where it lands, if no loop of it is guarded. -/
theorem Stmt.resumes (hh : host.Keeps (Steady T i))
    (hbetween : ∀ u v, between u v → Unshifted T i u v) {c : Option Within} {L : Limits}
    {F : Frames} {p : Nat} {hs : List Nat} :
    (s : Stmt) → s.unguarded = true → Placed T p s.flatten → Opened T hs p F → Around T hs p c →
    L.Cover T p (p + s.size) → Resumable host i between T L F c (p + s.size) →
    Resumes host i between T L F (T.statement? p)
  | .command asks l, _, h, _, _, hL, hK => by
    have ht : T.statement? p = some (l.at T p) := h.statement?
    rw [ht]
    exact .command hh hbetween asks ht hL (Nat.lt_succ_self p) hK.next
  | .stop l, _, h, _, _, hL, _ => by
    rw [h.statement?]
    intro G hG
    refine .agree hh hbetween h.statement? hL (Nat.lt_succ_self p) agree_stop ?_
    exact (Ready.ends_moveTo none).mono (fun _ hw => hw) fun _ w hw => ⟨G, none, hw, .nothing⟩
  | .breakLoop l, _, h, ho, ha, hL, hK => by
    rw [h.statement?]
    intro G hG
    replace ho := ho.congr hG
    replace hK := hK.congr hG
    cases c with
    | none =>
      exact .agree hh hbetween h.statement? hL (Nat.lt_succ_self p)
        (agree_break_outside h ha) .fail
    | some d =>
      refine .agree hh hbetween h.statement? hL (Nat.lt_succ_self p) (agree_break h ho ha) ?_
      refine .bind (Ready.ends_closeFrames _) fun _ => ?_
      exact (Ready.ends_goTo _).mono (fun _ hw => hw) fun _ w hw =>
        ⟨_, _, hw, hK.breakLoop d rfl⟩
  | .continueLoop l, _, h, ho, ha, hL, hK => by
    rw [h.statement?]
    intro G hG
    replace ho := ho.congr hG
    replace hK := hK.congr hG
    cases c with
    | none =>
      exact .agree hh hbetween h.statement? hL (Nat.lt_succ_self p)
        (agree_continue_outside h ha) .fail
    | some d =>
      refine .agree hh hbetween h.statement? hL (Nat.lt_succ_self p) (agree_continue h ho ha) ?_
      refine .bind (Ready.ends_closeFrames _) fun _ => ?_
      exact (Ready.ends_goTo _).mono (fun _ hw => hw) fun _ w hw =>
        ⟨_, _, hw, hK.continueLoop d rfl⟩
  | .choice l body tail, hu, h, ho, ha, hL, hK => by
    rw [Stmt.unguarded, Bool.and_eq_true] at hu
    have hend := tail.endAt_add_one (p + 1 + body.size)
    have hle := tail.le_endAt (p + 1 + body.size)
    rw [Stmt.size_choice] at hL hK
    rw [h.statement?]
    intro G hG
    replace ho := ho.congr hG
    replace hK := hK.congr hG
    -- the branches stand in the frame of the choice, and in the loop around it, one frame deeper
    have hopen := ho.inside h.statement? (G := G.push (l.at T p)) rfl rfl
    have hplain : Family.loops.openAt T.kinds (p + 1) = Family.loops.openAt T.kinds p := by
      rw [Family.Part.openAt_line h]
      rfl
    have hin : (Family.choices.openAt T.kinds (p + 1 + body.size)).head? = some p := by
      rw [openAt_choice h, List.head?_cons]
    have hloop := Block.openAt_size Family.loops_part body h.choice.1
    have hbehind : Resumes host i between T L (G.push (l.at T p)).pop
        (T.statement? (tail.endAt (p + 1 + body.size) + 1)) := by
      have hq : tail.endAt (p + 1 + body.size) + 1 = p + (1 + body.size + tail.size) := by omega
      rw [hq]
      exact hK.next
    refine .agree hh hbetween h.statement? hL (by omega) (agree_if hh h none (leave .next)) ?_
    refine .bind (Ready.ends_pushFrame _) fun _ => .bind (Ready.ends_guard hh _) fun b => ?_
    cases b with
    | true =>
      refine .bind (Ready.ends_goTo (p + 1)) fun _ => .pure fun w hw => ⟨_, _, hw, ?_⟩
      refine Block.resumes hh hbetween body hu.1 h.choice.1 hopen (ha.deeper ho hplain)
        (hL.mono (by omega) (by omega)) (hK.deeper ?_)
      exact tail.resumes_rest hh hbetween h.choice.2 hin (hL.mono (by omega) (Nat.le_refl _))
        (by omega) hbehind
    | false =>
      exact Tail.resumes_choose hh hbetween tail hu.2 h.choice.2 hin
        (hopen.later (by omega) (Nat.le_of_add_right_le h.choice.2.length_le))
        (ha.deeper ho (hloop.trans hplain)) (hL.mono (by omega) (by omega))
        (fun r hr => hK.deeper hr) hbehind
  | .loop sort l body last, hu, h, ho, _, hL, hK => by
    rw [Stmt.unguarded, Bool.and_eq_true, decide_eq_true_eq] at hu
    have hsize : p + (Stmt.loop sort l body last).size = p + 1 + body.size + 1 := by
      rw [Stmt.size_loop]
      omega
    rw [hsize] at hL hK
    refine .loop hh hbetween hu.1 h ho hL hK.next fun L' count G hL' hG hK' => ?_
    obtain ⟨F', hF', hG⟩ := hG
    exact Block.resumes hh hbetween body hu.2 h.loop.1
      ((ho.congr hF').inside h.statement? hG.1 hG.2.1) (.body h hs)
      (hL'.mono (by omega) (by omega)) hK'

theorem Block.resumes (hh : host.Keeps (Steady T i))
    (hbetween : ∀ u v, between u v → Unshifted T i u v) {c : Option Within} {L : Limits}
    {F : Frames} {p : Nat} {hs : List Nat} :
    (b : Block) → b.unguarded = true → Placed T p b.flatten → Opened T hs p F → Around T hs p c →
    L.Cover T p (p + b.size) → Resumable host i between T L F c (p + b.size) →
    Resumes host i between T L F (T.statement? p)
  | .nil, _, _, _, _, _, hK => hK.next
  | .cons s rest, hu, h, ho, ha, hL, hK => by
    rw [Block.unguarded, Bool.and_eq_true] at hu
    rw [Block.size_cons, ← Nat.add_assoc] at hL hK
    have hlater : Opened T hs (p + s.size) F :=
      ho.later (Nat.le_add_right p s.size) (Nat.le_of_add_right_le h.block.2.length_le)
    have hrest := Block.resumes hh hbetween rest hu.2 h.block.2 hlater
      (ha.shift (Stmt.openAt_size Family.loops_part s h.block.1))
      (hL.mono (Nat.le_add_right p s.size) (Nat.le_refl _)) hK
    exact Stmt.resumes hh hbetween s hu.1 h.block.1 ho ha
      (hL.mono (Nat.le_refl p) (Nat.le_add_right _ _)) (hK.elsewhere hrest)

/-- The branch that is chosen is resumed, and then what is left of the choice. -/
theorem Tail.resumes_choose (hh : host.Keeps (Steady T i))
    (hbetween : ∀ u v, between u v → Unshifted T i u v) {c : Option Within} {L : Limits}
    {G : Frames} {p s : Nat} {hs : List Nat} {d : Option Statement} : (t : Tail) → t.unguarded = true →
    Placed T p t.flatten → (Family.choices.openAt T.kinds p).head? = some s →
    Opened T hs p G → Around T hs p c → L.Cover T p (t.endAt p + 1) →
    (∀ r, Resumes host i between T L G (T.statement? r) → Resumable host i between T L G c r) →
    Resumes host i between T L G.pop (T.statement? (t.endAt p + 1)) →
    Ends (Ready T i G d) (t.choose host i T none p) fun _ w =>
      ∃ G d, Ready T i G d w ∧ Resumes host i between T L G d
  | .close l, _, h, _, _, _, hL, _, hbehind => by
    rw [Tail.choose]
    refine .bind (Ready.ends_goTo p) fun _ => .pure fun w hw => ⟨_, _, hw, ?_⟩
    exact .conclude hh hbetween h hL (Nat.lt_succ_self p) hbehind
  | .elseIf l body rest, hu, h, hin, ho, ha, hL, hK, hbehind => by
    rw [Tail.unguarded, Bool.and_eq_true] at hu
    rw [Tail.endAt] at hL hbehind
    have hle := rest.le_endAt (p + 1 + body.size)
    have hplain {g : Family} (hg : g.Part) : g.openAt T.kinds (p + 1) = g.openAt T.kinds p :=
      hg.openAt_plain h rfl rfl
    have hbody {g : Family} (hg : g.Part) :
        g.openAt T.kinds (p + 1 + body.size) = g.openAt T.kinds p :=
      (Block.openAt_size hg body h.elseIf.1).trans (hplain hg)
    have hlen := h.elseIf.2.length_le
    have hin' : (Family.choices.openAt T.kinds (p + 1 + body.size)).head? = some s := by
      rw [hbody Family.choices_part, hin]
    have hL' : L.Cover T (p + 1 + body.size) (rest.endAt (p + 1 + body.size) + 1) :=
      hL.mono (by omega) (Nat.le_refl _)
    rw [Tail.choose]
    refine .bind (Ready.ends_guard hh _) fun b => ?_
    cases b with
    | true =>
      refine .bind (Ready.ends_goTo (p + 1)) fun _ => .pure fun w hw => ⟨_, _, hw, ?_⟩
      refine Block.resumes hh hbetween body hu.1 h.elseIf.1 (ho.later (by omega) (by omega))
        (ha.shift (hplain Family.loops_part)) (hL.mono (by omega) (by omega)) (hK _ ?_)
      exact rest.resumes_rest hh hbetween h.elseIf.2 hin' hL' (Nat.lt_succ_self _) hbehind
    | false =>
      exact Tail.resumes_choose hh hbetween rest hu.2 h.elseIf.2 hin'
        (ho.later (by omega) (by omega)) (ha.shift (hbody Family.loops_part)) hL' hK hbehind
  | .otherwise l body last, hu, h, _, ho, ha, hL, hK, hbehind => by
    rw [Tail.unguarded] at hu
    rw [Tail.endAt] at hL hbehind
    have hlen := h.otherwise.2.length_le
    rw [Tail.choose]
    refine .bind (Ready.ends_goTo (p + 1)) fun _ => .pure fun w hw => ⟨_, _, hw, ?_⟩
    refine Block.resumes hh hbetween body hu h.otherwise.1 (ho.later (by omega) (by omega))
      (ha.shift (Family.loops_part.openAt_plain h rfl rfl)) (hL.mono (by omega) (by omega)) (hK _ ?_)
    exact .conclude hh hbetween h.otherwise.2 (hL.mono (by omega) (Nat.le_refl _))
      (Nat.lt_succ_self _) hbehind
end

/-- **A PROGRAM WITHOUT GUARDED LOOPS COMES TO ITS END.**  A script at the start of a tree whose
statements are those of a structured program without guarded loops.  Guards, listeners and rules
leave the script where it is, and so does what happens between the ticks, though it may change the
variables; and in every world that ticking leads to, the command that is asked is done and leaves
the script where it is, and no list gets longer that a loop around the statement goes through.
Then:

1. No chain of ticks that let the script go on is without end.
2. Ticks one after the other come to one that ends the script or fails.
3. A run without a cap, with any sleep between its ticks, ends or fails. -/
theorem Block.ticks_cease (host : Host σ ι) (i : Nat) (between : World σ ι → World σ ι → Prop)
    (b : Block) (w : World σ ι) (hi : i < w.scripts.size)
    (hb : (w.script i).root.children = b.flatten) (hu : b.unguarded = true)
    (hs : (w.script i).AtStart) (ht : Tame (w.script i).tree w)
    (hh : host.Keeps (Steady (w.script i).tree i)) (hrefl : ∀ u, between u u)
    (hbetween : ∀ u v, between u v → Unshifted (w.script i).tree i u v)
    (hfair : ∀ u, Relation.ReflTransGen (Proceeds host i between) w u →
      Fair host i between (w.script i).tree u)
    (sleep : Float → ScriptM σ ι Unit) (hsleep : ∀ x, Keeps between (sleep x)) :
    (∀ u : Nat → World σ ι, u 0 = w → ¬ ∀ n, Proceeds host i between (u n) (u (n + 1))) ∧
    (∃ n, ∀ w', ticks host i n w ≠ .ok true w') ∧
    ∀ rest, ∃ most, ∀ w', run host i rest none sleep most w ≠ .ok none w' := by
  have hend : (w.script i).tree.statement? (0 + b.size) = none := by
    rw [Nat.zero_add]
    exact Block.statement?_size hb
  have haround : Around (w.script i).tree [] 0 none := rfl
  have hbehind : Resumable host i between (w.script i).tree [] (w.script i).frames none
      (0 + b.size) := by
    refine ⟨?_, nofun, nofun⟩
    rw [hend]
    exact .nothing
  have hceases : Ceases host i between w :=
    Block.resumes hh hbetween b hu (.whole hb) (.outermost hs.outer hs.start) haround
      (fun _ ha => absurd ha List.not_mem_nil) hbehind _ rfl w hfair
      (fun _ ha => absurd ha List.not_mem_nil) (hs.ready hi ht)
  exact ⟨hceases.not_forever, hceases.ticks hrefl, fun rest => hceases.run hrefl hsleep rest 0⟩

end

theorem asksCommand_command : Kind.asksCommand .command = true := rfl

/-- A program that goes twice through a list, and drops an entry of it on each pass. -/
def dropEach : Block :=
  .cons
    (.loop .counted
      (.of { kind := .forStart, children := [{ kind := .integer, lexeme := some "2" }] } [])
      (.cons
        (.loop .listed
          (.of { kind := .forEachStart
                 children := [{ kind := .operand, lexeme := some "v" },
                   { kind := .operand, lexeme := some "words" }] } [])
          (.cons (.command asksCommand_command (.of { kind := .command, lexeme := some "drop" } []))
            .nil)
          (.of { kind := .forEnd } []))
        .nil)
      (.of { kind := .forEnd } []))
    .nil

/-- A host with one command, which drops the last entry of the list. -/
def droppingHost : Host Unit Unit where
  command _ _ _ _ _ := do
    modify fun w => { w with lists := w.lists.update "words" List.dropLast }
    return .bool true
  expression _ _ _ _ := return .bool true
  computedAlias _ _ := return .null
  listener _ _ := return
  rule _ _ := return
  callback _ := return .bool true
  write _ := return

/-- The program on a list of three entries, after a number of ticks. -/
def droppingWorld : Nat → World Unit Unit
  | 0 =>
    { host := ()
      scripts := #[.start "drop" { kind := .script, children := dropEach.flatten }]
      registry := { commands := Table.empty.insert "drop" (.host ()) }
      lists := Table.empty.insert "words"
        [⟨0, .root { kind := .string, lexeme := some "left" }⟩,
          ⟨0, .root { kind := .string, lexeme := some "right" }⟩,
          ⟨0, .root { kind := .string, lexeme := some "up" }⟩] }
  | n + 1 => (tick droppingHost 0).after (droppingWorld n)

/-- The tree of the program. -/
abbrev droppingTree : Tree := ((droppingWorld 0).script 0).tree

/-- The host's own command is the only one. -/
theorem droppingWorld_commands (word : String) :
    (droppingWorld 0).registry.commands.get? word =
      if "drop" = word then some (.host ()) else none := by
  show ((Table.empty : Table (Handler Bundled.Command Unit)).insert "drop" (.host ())).get? word = _
  rw [Table.get?_insert, Table.get?_empty]

/-- The script runs, and nobody has registered anything new. -/
theorem droppingWorld_kept (n : Nat) (hn : n < 16) :
    ((droppingWorld n).script 0).activity = .running ∧
      (droppingWorld n).registry = (droppingWorld 0).registry := by
  have hrun : ∀ n < 16, ((droppingWorld n).script 0).activity = .running := by decide +kernel
  refine ⟨hrun n hn, ?_⟩
  induction n with
  | zero => rfl
  | succ n ih =>
    let R : World Unit Unit → World Unit Unit → Prop := fun w w' => w'.registry = w.registry
    have hL : Lenient R := { trans := fun h h' => h'.trans h, idle := fun h => h.registry }
    have hR : Drives R 0 := { hL with place := fun _ _ _ => rfl, settle := fun _ => rfl }
    have hb : Bundled.Keeps R :=
      ⟨keeps_pause hR.toTolerant fun _ _ _ => rfl, keeps_timeout hR.toTolerant fun _ _ _ => rfl,
        fun _ => keeps_gotoLine hR.toTolerant fun _ _ _ _ => rfl, fun w => by
          unfold World.modifyActive
          cases w.active <;> rfl⟩
    have hh : droppingHost.Keeps R :=
      ⟨fun _ _ _ _ => .pure hL _, fun _ _ => .pure hL _, fun _ _ => .pure hL _,
        fun _ _ => .pure hL _, fun _ => .pure hL _⟩
    have hstep : R _ ((step droppingHost 0).after { droppingWorld n with active := some 0 }) :=
      keeps_step hR.conducts hh hb
        (fun _ _ _ _ _ => .bind hL (.modify fun _ => rfl) fun _ => .pure hL _) _
    rw [← after_congr (tick_of_running (hrun n (by omega)))] at hstep
    exact hstep.trans (ih (by omega))

/-- Ticking leads to fifteen more worlds, and the tick after those ends the script. -/
theorem droppingWorld_reached {u : World Unit Unit}
    (h : Relation.ReflTransGen (Proceeds droppingHost 0 (· = ·)) (droppingWorld 0) u) :
    ∃ n < 16, u = droppingWorld n := by
  induction h with
  | refl => exact ⟨0, by decide, rfl⟩
  | tail _ hstep ih =>
    obtain ⟨n, hn, rfl⟩ := ih
    obtain ⟨v, htick, rfl⟩ := hstep
    have hlast : (match tick droppingHost 0 (droppingWorld 15) with
        | .ok b _ => b
        | .error _ _ => false) = false := by decide +kernel
    refine ⟨n + 1, ?_, (after_of_ok htick).symm⟩
    rcases Nat.lt_or_ge (n + 1) 16 with h | h
    · exact h
    · obtain rfl : n = 15 := by omega
      rw [htick] at hlast
      exact absurd hlast nofun

/-- In these worlds the command drops an entry of the list, and nothing else touches a list. -/
theorem droppingWorld_fair {n : Nat} (hn : n < 16) :
    Fair droppingHost 0 (· = ·) droppingTree (droppingWorld n) := by
  obtain ⟨hrun, hregistry⟩ := droppingWorld_kept n hn
  have hname : ∀ p name, droppingTree.GoesThrough p name → name = "words" := by
    rintro p name ⟨header, last, t, -, -, -, ht, hlist⟩
    have hall : ∀ k < 5, ((droppingTree.statement? k).bind Statement.list?).all (· = "words") := by
      decide +kernel
    have := hall header (Tree.lt_of_statement? ht)
    rw [ht, Option.bind_some, hlist] at this
    exact of_decide_eq_true this
  have hannounce : ∀ t e u, announce droppingHost 0 t (droppingWorld n) = .ok e u →
      u.lists = (droppingWorld n).lists ∧ u.registry = (droppingWorld 0).registry := by
    intro t e u h
    obtain ⟨_, v, hset, h⟩ := bind_ok h
    cases hset
    have hnone : (droppingWorld n).registry.listenersOf "before_statement" = [] :=
      (congrArg (Registry.listenersOf · "before_statement") hregistry).trans rfl
    have hsilent : emit droppingHost (.beforeStatement 0 t)
        { droppingWorld n with active := some 0 } =
          .ok () { droppingWorld n with active := some 0 } := emit_of_silent hnone
    rw [bind_of_ok hsilent] at h
    cases h
    exact ⟨rfl, hregistry⟩
  have hshorter : ∀ n < 16,
      (droppingWorld (n + 1)).listLength "words" ≤ (droppingWorld n).listLength "words" := by
    decide +kernel
  refine ⟨fun p t e u _ _ h name _ => ?_, fun p t e u b v _ _ _ h hc => ?_, fun p t v _ _ h => ?_⟩
  · have hlists := (hannounce t e u h).1
    unfold World.listLength
    exact Nat.le_of_eq (by rw [hlists])
  · rcases executeCommand_cases droppingHost 0 t.site.children u with
      ⟨fault, hf⟩ | ⟨site, word, rest, handler, args, _, hg, _, hcall⟩
    · exact absurd (hf.symm.trans hc) nofun
    · rw [(hannounce t e u h).2] at hg
      rw [droppingWorld_commands] at hg
      split at hg
      · cases hg
        rw [hcall] at hc
        cases hc
        have hidle : Idle u { u with lists := u.lists.update "words" List.dropLast } :=
          ⟨rfl, rfl, rfl, rfl, fun _ => rfl⟩
        exact ⟨rfl, (steady_of_idle droppingTree 0 hidle).unshifted⟩
      · exact absurd hg nofun
  · obtain ⟨u, htick, rfl⟩ := h
    intro name hthrough
    obtain rfl := hname p name hthrough
    have hnext : u = droppingWorld (n + 1) := (after_of_ok htick).symm
    rw [hnext]
    exact hshorter n hn

theorem Block.ticks_cease_dropping :
    (∀ u : Nat → World Unit Unit, u 0 = droppingWorld 0 →
      ¬ ∀ n, Proceeds droppingHost 0 (· = ·) (u n) (u (n + 1))) ∧
    (∃ n, ∀ w', ticks droppingHost 0 n (droppingWorld 0) ≠ .ok true w') ∧
    ∀ rest, ∃ most, ∀ w',
      run droppingHost 0 rest none (fun _ => return) most (droppingWorld 0) ≠ .ok none w' := by
  have hL := steady_lenient (σ := Unit) (ι := Unit) droppingTree 0
  have hhost : droppingHost.Keeps (Steady droppingTree 0) :=
    ⟨fun _ _ _ _ => .pure hL _, fun _ _ => .pure hL _, fun _ _ => .pure hL _,
      fun _ _ => .pure hL _, fun _ => .pure hL _⟩
  have htame : Tame droppingTree (droppingWorld 0) := by
    intro p t word c _ _ hg
    rw [droppingWorld_commands] at hg
    split at hg
    · exact absurd hg nofun
    · exact absurd hg nofun
  refine Block.ticks_cease droppingHost 0 (· = ·) dropEach (droppingWorld 0) (by decide) rfl
    (by decide) (Script.atStart_start _ _) htame hhost (fun _ => rfl) ?_ ?_ (fun _ => return)
    fun _ _ => rfl
  · rintro u v rfl
    exact (steady_of_idle _ 0 (.refl u)).unshifted
  · intro u hu
    obtain ⟨n, hn, rfl⟩ := droppingWorld_reached hu
    exact droppingWorld_fair hn

end Cadence
