/-
  NOTIFYING — in which order the listeners of an event are called.

  1. **Arranged** — the order of calling holds every registration once, the higher priority first,
     and equals in the order of registration.  These three conditions leave no choice
     (`Arranged.unique`), so it does not matter how the order comes about: to put a listener in its
     place is to append it and to sort anew (`place_eq_arrange`), and to do so after each
     registration is to sort once at the end (`arranged_listenAll`).

  2. **Calls** — an emission goes over the listeners as they STAND (`Calls`), for as many calls as it
     takes (`Emits`).  A program has patience for some number of calls only, but for any emission that
     ends there is patience enough (`emits_iff`).

  3. **Order** — a listener that registers another ahead of itself is moved one place on, and is
     called again (`Calls.again`).  As long as nobody does so (`Modest`), the calls made are at any
     time the first of the listeners (`Calls.in_order`).

  The headline (`calls_arranged`) puts all together: an emission calls the registrations in their
  order, those made in its course included, each once, and stops at the first that fails.
-/
import Mathlib.Data.List.Basic
import Cadence.Proofs.Running.Raising

namespace Cadence

open ScriptM

section

variable {σ ι : Type}

/-! ## The order -/

/-- The listeners `out` are the registrations `ls` in the order in which they are called. -/
structure Arranged (ls out : List (Listener ι)) : Prop where
  /-- Every registration is there, once. -/
  perm : out.Perm ls
  /-- Higher priorities stand first. -/
  descending : out.Pairwise fun l m => m.priority ≤ l.priority
  /-- Registrations of one priority stand in the order in which they were made. -/
  stable : ∀ p : Int, out.filter (fun l => l.priority = p) = ls.filter (fun l => l.priority = p)

/-- Registrations, sorted once: by descending priority, equals as they are. -/
def arrange (ls : List (Listener ι)) : List (Listener ι) :=
  ls.mergeSort fun l m => m.priority ≤ l.priority

namespace Arranged

variable {ls out : List (Listener ι)}

theorem nil : Arranged ([] : List (Listener ι)) [] := ⟨.refl _, .nil, fun _ => rfl⟩

/-- What is in order is its own arrangement. -/
theorem of_descending (h : out.Pairwise fun l m => m.priority ≤ l.priority) : Arranged out out :=
  ⟨.refl _, h, fun _ => rfl⟩

theorem length_eq (h : Arranged ls out) : out.length = ls.length := h.perm.length_eq

/-- No two lists are arrangements of the same registrations. -/
theorem unique {out' : List (Listener ι)} (h : Arranged ls out) (h' : Arranged ls out') :
    out = out' := by
  -- both begin with the first of those of the highest priority, and so on
  induction out generalizing ls out' with
  | nil => exact (List.length_eq_zero_iff.mp (h'.length_eq.trans h.length_eq.symm)).symm
  | cons l out ih =>
    cases out' with
    | nil => exact absurd (h.length_eq.trans h'.length_eq.symm) (by simp)
    | cons l' out' =>
      obtain ⟨hl, hout⟩ := List.pairwise_cons.mp h.descending
      obtain ⟨hl', hout'⟩ := List.pairwise_cons.mp h'.descending
      have hsame : ∀ p : Int, (l :: out).filter (fun m => m.priority = p) =
          (l' :: out').filter (fun m => m.priority = p) :=
        fun p => (h.stable p).trans (h'.stable p).symm
      have hpriority : l.priority = l'.priority := by
        have hin : l ∈ l' :: out' := (h.perm.trans h'.perm.symm).subset List.mem_cons_self
        have hin' : l' ∈ l :: out := (h'.perm.trans h.perm.symm).subset List.mem_cons_self
        have hle : l.priority ≤ l'.priority := by
          obtain rfl | hlater := List.mem_cons.mp hin
          · exact Int.le_refl _
          · exact hl' l hlater
        have hge : l'.priority ≤ l.priority := by
          obtain rfl | hlater := List.mem_cons.mp hin'
          · exact Int.le_refl _
          · exact hl l' hlater
        omega
      have hhead : l = l' := by
        have hfirst := hsame l.priority
        rw [List.filter_cons_of_pos (by simp), List.filter_cons_of_pos (by simp [hpriority])] at hfirst
        exact (List.cons.inj hfirst).1
      subst hhead
      have htail : Arranged out' out := by
        refine ⟨(h.perm.trans h'.perm.symm).cons_inv, hout, fun p => ?_⟩
        have hp := hsame p
        by_cases hlp : l.priority = p
        · rw [List.filter_cons_of_pos (by simpa using hlp),
            List.filter_cons_of_pos (by simpa using hlp)] at hp
          exact (List.cons.inj hp).2
        · rwa [List.filter_cons_of_neg (by simpa using hlp),
            List.filter_cons_of_neg (by simpa using hlp)] at hp
      rw [ih htail (.of_descending hout')]

end Arranged

/-- Sorting arranges. -/
theorem arranged_arrange (ls : List (Listener ι)) : Arranged ls (arrange ls) := by
  have htrans : ∀ a b c : Listener ι, decide (b.priority ≤ a.priority) = true →
      decide (c.priority ≤ b.priority) = true → decide (c.priority ≤ a.priority) = true := by
    intro a b c hab hbc
    rw [decide_eq_true_eq] at *
    omega
  have htotal : ∀ a b : Listener ι,
      (decide (b.priority ≤ a.priority) || decide (a.priority ≤ b.priority)) = true := by
    intro a b
    rw [Bool.or_eq_true, decide_eq_true_eq, decide_eq_true_eq]
    omega
  have hperm : (arrange ls).Perm ls := List.mergeSort_perm ls _
  refine ⟨hperm, ?_, fun p => ?_⟩
  · exact (List.pairwise_mergeSort htrans htotal ls).imp fun h => of_decide_eq_true h
  · -- those of one priority are in order, so sorting keeps them as a part of the list
    have hequal : (ls.filter fun l => l.priority = p).Pairwise
        fun l m => decide (m.priority ≤ l.priority) = true := by
      refine List.pairwise_of_forall_mem_list fun l hl m hm => ?_
      have hlp : l.priority = p := by simpa using (List.mem_filter.mp hl).2
      have hmp : m.priority = p := by simpa using (List.mem_filter.mp hm).2
      rw [decide_eq_true_eq]
      omega
    have hpart : (ls.filter fun l => l.priority = p).Sublist (arrange ls) :=
      List.sublist_mergeSort htrans htotal hequal List.filter_sublist
    have hkept := hpart.filter fun l => decide (l.priority = p)
    simp only [List.filter_filter, Bool.and_self] at hkept
    exact (hkept.eq_of_length (hperm.filter _).length_eq.symm).symm

/-! ## Registering -/

namespace Registry

/-- Puts listeners in their places, one after the other. -/
def placeAll (late ls : List (Listener ι)) : List (Listener ι) :=
  late.foldl (fun ls l => place l ls) ls

theorem perm_place (l : Listener ι) (ls : List (Listener ι)) : (place l ls).Perm (ls ++ [l]) := by
  induction ls with
  | nil => exact .refl _
  | cons m rest ih =>
    unfold place
    split
    · exact ih.cons m
    · exact (List.perm_append_singleton l (m :: rest)).symm

/-- A listener goes behind the higher ones and before the lower ones. -/
theorem descending_place (l : Listener ι) {ls : List (Listener ι)}
    (h : ls.Pairwise fun l m => m.priority ≤ l.priority) :
    (place l ls).Pairwise fun l m => m.priority ≤ l.priority := by
  induction ls with
  | nil => exact List.pairwise_singleton _ _
  | cons m rest ih =>
    obtain ⟨hm, hrest⟩ := List.pairwise_cons.mp h
    unfold place
    split
    · rename_i hlm
      refine List.pairwise_cons.mpr ⟨fun n hn => ?_, ih hrest⟩
      obtain hin | hnl := List.mem_append.mp ((perm_place l rest).subset hn)
      · exact hm n hin
      · rw [List.mem_singleton.mp hnl]
        exact hlm
    · rename_i hlm
      refine List.pairwise_cons.mpr ⟨fun n hn => ?_, h⟩
      obtain rfl | hin := List.mem_cons.mp hn
      · omega
      · have := hm n hin
        omega

/-- Among those of its own priority it goes last, and it moves none of the others. -/
theorem filter_place (l : Listener ι) {ls : List (Listener ι)}
    (h : ls.Pairwise fun l m => m.priority ≤ l.priority) (p : Int) :
    (place l ls).filter (fun m => m.priority = p) =
      ls.filter (fun m => m.priority = p) ++ [l].filter (fun m => m.priority = p) := by
  induction ls with
  | nil => rfl
  | cons m rest ih =>
    obtain ⟨hm, hrest⟩ := List.pairwise_cons.mp h
    unfold place
    split
    · rw [List.filter_cons, List.filter_cons, ih hrest]
      split
      · rfl
      · rfl
    · rename_i hlm
      by_cases hp : l.priority = p
      · -- those that are left are of lower priority
        have hnone : (m :: rest).filter (fun n => n.priority = p) = [] := by
          refine List.filter_eq_nil_iff.mpr fun n hn => ?_
          have hnm : n.priority ≤ m.priority := by
            obtain rfl | hin := List.mem_cons.mp hn
            · exact Int.le_refl _
            · exact hm n hin
          rw [decide_eq_true_eq]
          omega
        rw [List.filter_cons_of_pos (by simpa using hp), hnone,
          List.filter_cons_of_pos (by simpa using hp)]
        rfl
      · rw [List.filter_cons_of_neg (by simpa using hp),
          List.filter_cons_of_neg (a := l) (by simpa using hp)]
        exact (List.append_nil _).symm

/-- It moves nobody whose priority is not below its own. -/
theorem take_place {l m : Listener ι} {ls : List (Listener ι)} {k : Nat}
    (hsorted : ls.Pairwise fun l m => m.priority ≤ l.priority) (hm : ls[k]? = some m)
    (hl : l.priority ≤ m.priority) : (place l ls).take (k + 1) = ls.take (k + 1) := by
  induction ls generalizing k with
  | nil => cases hm
  | cons n rest ih =>
    obtain ⟨hn, hrest⟩ := List.pairwise_cons.mp hsorted
    have hle : l.priority ≤ n.priority := by
      cases k with
      | zero =>
        cases hm
        exact hl
      | succ k => exact Int.le_trans hl (hn m (List.mem_of_getElem? hm))
    rw [place, if_pos hle, List.take_succ_cons, List.take_succ_cons]
    cases k with
    | zero => rfl
    | succ k => rw [ih hrest hm]

/-- Who is registered ahead of a listener moves it on by one place, and stands where it stood or
before. -/
theorem place_ahead {l m : Listener ι} {ls : List (Listener ι)} {k : Nat}
    (hsorted : ls.Pairwise fun l m => m.priority ≤ l.priority) (hl : ls[k]? = some l)
    (hahead : l.priority < m.priority) :
    (place m ls)[k + 1]? = some l ∧ ∃ j ≤ k, (place m ls)[j]? = some m := by
  induction ls generalizing k with
  | nil => cases hl
  | cons n rest ih =>
    obtain ⟨-, hrest⟩ := List.pairwise_cons.mp hsorted
    unfold place
    split
    · rename_i hbehind
      cases k with
      | zero =>
        cases hl
        omega
      | succ k =>
        obtain ⟨hmoved, j, hj, hm⟩ := ih hrest hl
        exact ⟨hmoved, j + 1, Nat.succ_le_succ hj, hm⟩
    · exact ⟨hl, 0, Nat.zero_le k, rfl⟩

end Registry

/-- **A further registration** goes to its place. -/
theorem Arranged.place {ls out : List (Listener ι)} (h : Arranged ls out) (l : Listener ι) :
    Arranged (ls ++ [l]) (Registry.place l out) where
  perm := (Registry.perm_place l out).trans (h.perm.append_right [l])
  descending := Registry.descending_place l h.descending
  stable p := by rw [Registry.filter_place l h.descending, h.stable p, List.filter_append]

/-- **What is registered behind a listener** goes to its place, and moves neither this listener nor
those before it. -/
theorem Arranged.placeAll {late ls out : List (Listener ι)} (h : Arranged ls out) {k : Nat}
    {m : Listener ι} (hm : out[k]? = some m) (hlate : ∀ l ∈ late, l.priority ≤ m.priority) :
    Arranged (ls ++ late) (Registry.placeAll late out) ∧
    (Registry.placeAll late out).take (k + 1) = out.take (k + 1) := by
  induction late generalizing ls out with
  | nil =>
    rw [List.append_nil]
    exact ⟨h, rfl⟩
  | cons l rest ih =>
    have htake := Registry.take_place h.descending hm (hlate l List.mem_cons_self)
    have hm' : (Registry.place l out)[k]? = some m := by
      rw [← List.getElem?_take_of_lt (Nat.lt_succ_self k), htake,
        List.getElem?_take_of_lt (Nat.lt_succ_self k), hm]
    obtain ⟨harranged, hrest⟩ :=
      ih (h.place l) hm' fun n hn => hlate n (List.mem_cons_of_mem l hn)
    rw [List.append_assoc] at harranged
    exact ⟨harranged, hrest.trans htake⟩

/-- To put a listener in its place is to append it and to sort anew. -/
theorem Registry.place_eq_arrange {l : Listener ι} {out : List (Listener ι)}
    (h : out.Pairwise fun l m => m.priority ≤ l.priority) : place l out = arrange (out ++ [l]) :=
  ((Arranged.of_descending h).place l).unique (arranged_arrange _)

/-- The registrations for an event among registrations for any events. -/
def registeredFor (event : String) (rs : List (String × Listener ι)) : List (Listener ι) :=
  (rs.filter fun r => r.1 = event).map Prod.snd

namespace Registry

/-- Registers listeners, one after the other. -/
def listenAll (r : Registry ι) (rs : List (String × Listener ι)) : Registry ι :=
  rs.foldl (fun r l => r.listen l.1 l.2) r

/-- A registration is for its event only. -/
theorem listenersOf_listen (r : Registry ι) (event other : String) (l : Listener ι) :
    (r.listen event l).listenersOf other =
      if event = other then place l (r.listenersOf other) else r.listenersOf other := by
  unfold listen listenersOf
  rw [Table.get?_insert]
  by_cases h : event = other
  · rw [if_pos h, if_pos h, h]
    rfl
  · rw [if_neg h, if_neg h]

/-- **Registrations, one after the other, are called in their order.** -/
theorem arranged_listenAll {r : Registry ι} {event : String} {ls : List (Listener ι)}
    (h : Arranged ls (r.listenersOf event)) (rs : List (String × Listener ι)) :
    Arranged (ls ++ registeredFor event rs) ((r.listenAll rs).listenersOf event) := by
  induction rs generalizing r ls with
  | nil =>
    rw [show registeredFor event ([] : List (String × Listener ι)) = [] from rfl, List.append_nil]
    exact h
  | cons l rest ih =>
    by_cases hl : l.1 = event
    · have hstep : Arranged (ls ++ [l.2]) ((r.listen l.1 l.2).listenersOf event) := by
        rw [listenersOf_listen, if_pos hl]
        exact h.place l.2
      have hrest := ih hstep
      rw [List.append_assoc] at hrest
      have hcons : registeredFor event (l :: rest) = l.2 :: registeredFor event rest := by
        simp [registeredFor, hl]
      rw [hcons]
      exact hrest
    · have hstep : Arranged ls ((r.listen l.1 l.2).listenersOf event) := by
        rw [listenersOf_listen, if_neg hl]
        exact h
      have hcons : registeredFor event (l :: rest) = registeredFor event rest := by
        simp [registeredFor, hl]
      rw [hcons]
      exact ih hstep

/-- In a registry that had no listeners they stand as if they were sorted once. -/
theorem listenersOf_listenAll {r : Registry ι} (hr : r.listeners = .empty)
    (rs : List (String × Listener ι)) (event : String) :
    (r.listenAll rs).listenersOf event = arrange (registeredFor event rs) := by
  have hnone : r.listenersOf event = [] := by
    unfold listenersOf
    rw [hr]
    rfl
  have hnil : Arranged [] (r.listenersOf event) := hnone ▸ .nil
  exact (arranged_listenAll hnil rs).unique (arranged_arrange _)

end Registry

/-! ## Emissions -/

/-- From `w` to `w'` some listeners were registered for an event, none of them at a priority above
`p`. -/
def Enlisted (event : String) (p : Int) (late : List (Listener ι)) (w w' : World σ ι) : Prop :=
  (∀ l ∈ late, l.priority ≤ p) ∧
  w'.registry.listenersOf event = Registry.placeAll late (w.registry.listenersOf event)

variable {host : Host σ ι} {e : Event} {w u v : World σ ι}

/-- The calls that an emission has made so far, and the world that they have led to: each went to
the listener that stood next when its turn came, and none has failed. -/
inductive Calls (host : Host σ ι) (e : Event) (w : World σ ι) :
    List (Listener ι) → World σ ι → Prop
  /-- At first there is none. -/
  | start : Calls host e w [] w
  /-- The next listener is called. -/
  | next {called : List (Listener ι)} {l : Listener ι} {u v : World σ ι}
      (before : Calls host e w called u)
      (turn : (u.registry.listenersOf e.name)[called.length]? = some l)
      (call : host.listener l.token e u = .ok () v) : Calls host e w (called ++ [l]) v

/-- How an emission ends that is over after some calls.  It makes as many calls as it takes: there is
no bound, and an emission whose listeners register ever more listeners never ends. -/
inductive Emits (host : Host σ ι) (e : Event) (w : World σ ι) :
    List (Listener ι) → EStateM.Result Fault (World σ ι) Unit → Prop
  /-- No listener is left. -/
  | all {called : List (Listener ι)} {v : World σ ι} (calls : Calls host e w called v)
      (last : (v.registry.listenersOf e.name)[called.length]? = none) :
      Emits host e w called (.ok () v)
  /-- The next listener fails; what it reports is an error of the emission. -/
  | fails {called : List (Listener ι)} {l : Listener ι} {v v' : World σ ι} {raw : Fault}
      (calls : Calls host e w called v)
      (turn : (v.registry.listenersOf e.name)[called.length]? = some l)
      (call : host.listener l.token e v = .error raw v') :
      Emits host e w called (.error (.script (e.reported raw)) v')

/-- A host that is patient for some number of further calls. -/
def Host.patient (host : Host σ ι) (n : Nat) : Host σ ι := { host with patience := n }

/-- What an emission has come to after some number of calls is the only thing that it can have come
to. -/
theorem Calls.unique {called called' : List (Listener ι)} (h : Calls host e w called u)
    (h' : Calls host e w called' v) (hlength : called.length = called'.length) :
    called = called' ∧ u = v := by
  induction h generalizing called' v with
  | start =>
    cases h' with
    | start => exact ⟨rfl, rfl⟩
    | next => simp at hlength
  | next before turn call ih =>
    cases h' with
    | start => simp at hlength
    | next before' turn' call' =>
      simp only [List.length_append, List.length_singleton, Nat.add_right_cancel_iff] at hlength
      obtain ⟨rfl, rfl⟩ := ih before' hlength
      cases turn.symm.trans turn'
      cases call.symm.trans call'
      exact ⟨rfl, rfl⟩

/-- Who has made many calls has gone on from fewer, with a call that went well. -/
theorem Calls.passed {called : List (Listener ι)} (h : Calls host e w called v) {k : Nat}
    (hk : k < called.length) :
    ∃ fewer u l x, Calls host e w fewer u ∧ fewer.length = k ∧
      (u.registry.listenersOf e.name)[k]? = some l ∧ host.listener l.token e u = .ok () x := by
  induction h with
  | start => cases hk
  | @next called l u v before turn call ih =>
    rw [List.length_append, List.length_singleton] at hk
    obtain hlt | rfl := Nat.lt_or_eq_of_le (Nat.le_of_lt_succ hk)
    · exact ih hlt
    · exact ⟨called, u, l, v, before, rfl, turn, call⟩

/-- **Who registers another listener ahead of itself** is called again next, and the new one stands
at a place that has been passed. -/
theorem Calls.again {called : List (Listener ι)} {l m : Listener ι}
    (hsorted : (u.registry.listenersOf e.name).Pairwise fun l m => m.priority ≤ l.priority)
    (h : Calls host e w called u) (turn : (u.registry.listenersOf e.name)[called.length]? = some l)
    (call : host.listener l.token e u = .ok () v)
    (hv : v.registry.listenersOf e.name = (u.registry.listen e.name m).listenersOf e.name)
    (hahead : l.priority < m.priority) :
    Calls host e w (called ++ [l]) v ∧
      (v.registry.listenersOf e.name)[(called ++ [l]).length]? = some l ∧
      ∃ j < (called ++ [l]).length, (v.registry.listenersOf e.name)[j]? = some m := by
  obtain ⟨hmoved, j, hj, hm⟩ := Registry.place_ahead hsorted turn hahead
  rw [hv, Registry.listenersOf_listen, if_pos rfl, List.length_append, List.length_singleton]
  exact ⟨h.next turn call, hmoved, j, Nat.lt_succ_of_le hj, hm⟩

/-- An emission that is over makes no further call. -/
theorem Emits.length_le {called called' : List (Listener ι)}
    {r : EStateM.Result Fault (World σ ι) Unit} (h : Emits host e w called r)
    (h' : Calls host e w called' v) : called'.length ≤ called.length := by
  refine Nat.le_of_not_lt fun hlt => ?_
  obtain ⟨fewer, u, l, x, hfewer, hlength, hturn, hcall⟩ := h'.passed hlt
  cases h with
  | all calls last =>
    obtain ⟨rfl, rfl⟩ := hfewer.unique calls hlength
    cases last.symm.trans hturn
  | fails calls turn call =>
    obtain ⟨rfl, rfl⟩ := hfewer.unique calls hlength
    cases turn.symm.trans hturn
    cases call.symm.trans hcall

/-- An emission ends in one way at most. -/
theorem Emits.unique {called called' : List (Listener ι)}
    {r r' : EStateM.Result Fault (World σ ι) Unit} (h : Emits host e w called r)
    (h' : Emits host e w called' r') : called = called' ∧ r = r' := by
  have hcalls : ∀ {called r}, Emits host e w called r → ∃ v, Calls host e w called v := by
    rintro called r (⟨calls, -⟩ | ⟨calls, -, -⟩)
    · exact ⟨_, calls⟩
    · exact ⟨_, calls⟩
  obtain ⟨u, hu⟩ := hcalls h
  obtain ⟨v, hv⟩ := hcalls h'
  have hlength := Nat.le_antisymm (h'.length_le hu) (h.length_le hv)
  cases h with
  | all calls last =>
    cases h' with
    | all calls' last' =>
      obtain ⟨rfl, rfl⟩ := calls.unique calls' hlength
      exact ⟨rfl, rfl⟩
    | fails calls' turn' call' =>
      obtain ⟨rfl, rfl⟩ := calls.unique calls' hlength
      cases last.symm.trans turn'
  | fails calls turn call =>
    cases h' with
    | all calls' last' =>
      obtain ⟨rfl, rfl⟩ := calls.unique calls' hlength
      cases turn.symm.trans last'
    | fails calls' turn' call' =>
      obtain ⟨rfl, rfl⟩ := calls.unique calls' hlength
      cases turn.symm.trans turn'
      cases call.symm.trans call'
      exact ⟨rfl, rfl⟩

/-! ## Patience -/

/-- How an emission goes on after some calls: it makes further ones until there is no listener left,
or no call, or one fails. -/
theorem Calls.goOn {called : List (Listener ι)} (calls : Nat) (h : Calls host e w called u) :
    ∃ called' v, Calls host e w called' v ∧
      ((notifyFrom host e calls called.length u = .ok () v ∧
          ((v.registry.listenersOf e.name)[called'.length]? = none ∨
            called'.length = called.length + calls)) ∨
        ∃ l raw v', (v.registry.listenersOf e.name)[called'.length]? = some l ∧
          host.listener l.token e v = .error raw v' ∧
          notifyFrom host e calls called.length u = .error raw v') := by
  induction calls generalizing called u with
  | zero => exact ⟨called, u, h, .inl ⟨rfl, .inr rfl⟩⟩
  | succ calls ih =>
    unfold notifyFrom
    rw [get_bind]
    cases hl : (u.registry.listenersOf e.name)[called.length]? with
    | none => exact ⟨called, u, h, .inl ⟨rfl, .inl hl⟩⟩
    | some l =>
      cases hcall : host.listener l.token e u with
      | error raw v' => exact ⟨called, u, h, .inr ⟨l, raw, v', hl, hcall, bind_of_error hcall⟩⟩
      | ok _ x =>
        obtain ⟨called', v, hcalls, hend⟩ := ih (h.next hl hcall)
        have hlength : (called ++ [l]).length + calls = called.length + (calls + 1) := by
          rw [List.length_append, List.length_singleton]
          omega
        have hgo : (do host.listener l.token e; notifyFrom host e calls (called.length + 1)) u =
            notifyFrom host e calls (called ++ [l]).length x := by
          rw [bind_of_ok hcall, List.length_append, List.length_singleton]
        rw [hlength, ← hgo] at hend
        exact ⟨called', v, hcalls, hend⟩

/-- Patience is not asked for before the calls begin. -/
theorem notifyFrom_patient (host : Host σ ι) (e : Event) (n calls position : Nat) :
    notifyFrom (host.patient n) e calls position = notifyFrom host e calls position := by
  induction calls generalizing position with
  | zero => rfl
  | succ calls ih =>
    unfold notifyFrom
    rw [ih]
    rfl

/-- **What a patient host makes of an emission**: it comes to its end, or the calls have come to the
number that the host is patient for. -/
theorem emit_patient (host : Host σ ι) (e : Event) (w : World σ ι) (n : Nat) :
    (∃ called, Emits host e w called (emit (host.patient n) e w)) ∨
      ∃ called v, Calls host e w called v ∧ emit (host.patient n) e w = .ok () v ∧
        called.length = (w.registry.listenersOf e.name).length + n ∧
        called.length < (v.registry.listenersOf e.name).length := by
  have hnone : Calls host e w [] w := .start
  obtain ⟨called, v, hcalls, hend⟩ := hnone.goOn ((w.registry.listenersOf e.name).length + n)
  rw [← notifyFrom_patient host e n, List.length_nil] at hend
  obtain ⟨hok, hlast⟩ | ⟨l, raw, v', hturn, hcall, herror⟩ := hend
  · have hemit : emit (host.patient n) e w = .ok () v := by
      unfold emit
      rw [get_bind, mapFault, show notifyFrom (host.patient n) e
        (_ + (host.patient n).patience) 0 w = .ok () v from hok]
    cases hturn : (v.registry.listenersOf e.name)[called.length]? with
    | none => exact .inl ⟨called, hemit ▸ .all hcalls hturn⟩
    | some l =>
      rw [hturn, Nat.zero_add] at hlast
      exact .inr ⟨called, v, hcalls, hemit, hlast.resolve_left (Option.some_ne_none l),
        (List.getElem?_eq_some_iff.mp hturn).1⟩
  · have hemit : emit (host.patient n) e w = .error (.script (e.reported raw)) v' := by
      unfold emit
      rw [get_bind, mapFault, show notifyFrom (host.patient n) e
        (_ + (host.patient n).patience) 0 w = .error raw v' from herror]
      cases raw with
      | script error => rfl
      | trouble why => rfl
    exact .inl ⟨called, hemit ▸ .fails hcalls hturn hcall⟩

/-- **An emission ends as it does for every host that is patient enough**; if no patience is enough, it
never ends. -/
theorem emits_iff {r : EStateM.Result Fault (World σ ι) Unit} :
    (∃ called, Emits host e w called r) ↔
      ∃ enough, ∀ n, enough ≤ n → emit (host.patient n) e w = r := by
  constructor
  · rintro ⟨called, h⟩
    refine ⟨called.length + 1, fun n hn => ?_⟩
    obtain ⟨called', h'⟩ | ⟨called', v, hcalls, -, hlength, -⟩ := emit_patient host e w n
    · exact (h'.unique h).2
    · have := h.length_le hcalls
      omega
  · rintro ⟨enough, hr⟩
    -- who was patient for more calls than there are listeners in the end did not give up
    cases r with
    | error fault v =>
      obtain ⟨called, h⟩ | ⟨_, _, -, hok, -⟩ := emit_patient host e w enough
      · exact ⟨called, hr enough (Nat.le_refl _) ▸ h⟩
      · cases (hr enough (Nat.le_refl _)).symm.trans hok
    | ok _ v =>
      have hle := Nat.le_add_right enough (v.registry.listenersOf e.name).length
      obtain ⟨called, h⟩ | ⟨called, v', -, hok, hlength, hlt⟩ :=
        emit_patient host e w (enough + (v.registry.listenersOf e.name).length)
      · exact ⟨called, hr _ hle ▸ h⟩
      · cases (hr _ hle).symm.trans hok
        omega

/-! ## The order of calls -/

/-- In the course of an emission no listener registers another one ahead of itself. -/
def Modest (host : Host σ ι) (e : Event) (w : World σ ι) : Prop :=
  ∀ called l u v, Calls host e w called u →
    (u.registry.listenersOf e.name)[called.length]? = some l →
    host.listener l.token e u = .ok () v → ∃ late, Enlisted e.name l.priority late u v

/-- **The calls made are at any time the first of the listeners**, among which are by now those that
were registered in the course of the emission. -/
theorem Calls.in_order {ls called : List (Listener ι)} (ho : Modest host e w)
    (hls : Arranged ls (w.registry.listenersOf e.name)) (h : Calls host e w called v) :
    ∃ late, v.registry.listenersOf e.name = arrange (ls ++ late) ∧
      called = (arrange (ls ++ late)).take called.length := by
  have harranged : ∃ late, Arranged (ls ++ late) (v.registry.listenersOf e.name) ∧
      (v.registry.listenersOf e.name).take called.length = called := by
    induction h with
    | start => exact ⟨[], (List.append_nil ls).symm ▸ hls, rfl⟩
    | @next called l u v before turn call ih =>
      obtain ⟨late, hlate, hcalled⟩ := ih
      obtain ⟨more, hmore, heq⟩ := ho called l u v before turn call
      obtain ⟨harranged, htake⟩ := hlate.placeAll turn hmore
      rw [← heq] at harranged htake
      refine ⟨late ++ more, by rwa [← List.append_assoc], ?_⟩
      rw [List.length_append, List.length_singleton, htake, List.take_add_one, hcalled, turn]
      rfl
  obtain ⟨late, hlate, htake⟩ := harranged
  have hstand := hlate.unique (arranged_arrange _)
  exact ⟨late, hstand, hstand ▸ htake.symm⟩

/-- **An emission that is over has called all in their order**, or those before one that failed. -/
theorem Emits.in_order {ls called : List (Listener ι)}
    {result : EStateM.Result Fault (World σ ι) Unit} (ho : Modest host e w)
    (hls : Arranged ls (w.registry.listenersOf e.name)) (h : Emits host e w called result) :
    ∃ late v, Calls host e w called v ∧ v.registry.listenersOf e.name = arrange (ls ++ late) ∧
      ((called = arrange (ls ++ late) ∧ result = .ok () v) ∨
        ∃ l raw v', called ++ [l] <+: arrange (ls ++ late) ∧
          host.listener l.token e v = .error raw v' ∧
          result = .error (.script (e.reported raw)) v') := by
  cases h with
  | @all v calls last =>
    obtain ⟨late, hstand, htake⟩ := calls.in_order ho hls
    refine ⟨late, v, calls, hstand, .inl ⟨?_, rfl⟩⟩
    rwa [List.take_of_length_le] at htake
    rw [← hstand]
    exact List.getElem?_eq_none_iff.mp last
  | @fails l v v' raw calls turn call =>
    obtain ⟨late, hstand, htake⟩ := calls.in_order ho hls
    refine ⟨late, v, calls, hstand, .inr ⟨l, raw, v', ?_, call, rfl⟩⟩
    rw [hstand] at turn
    have hnext : called ++ [l] = (arrange (ls ++ late)).take (called.length + 1) := by
      rw [List.take_add_one, ← htake, turn]
      rfl
    rw [hnext]
    exact List.take_prefix _ _

/-- A patient host sees an emission to its end, unless more listeners are registered in its course
than the host is patient for. -/
theorem emit_of_modest {ls : List (Listener ι)} (ho : Modest host e w)
    (hls : Arranged ls (w.registry.listenersOf e.name)) (n : Nat) :
    (∃ called, Emits host e w called (emit (host.patient n) e w)) ∨
      ∃ called v late, Calls host e w called v ∧ n < late.length ∧
        v.registry.listenersOf e.name = arrange (ls ++ late) := by
  obtain h | ⟨called, v, hcalls, -, hlength, hlt⟩ := emit_patient host e w n
  · exact .inl h
  · -- all that were registered before the emission have been called, and `n` besides
    obtain ⟨late, hstand, -⟩ := hcalls.in_order ho hls
    refine .inr ⟨called, v, late, hcalls, ?_, hstand⟩
    rw [hlength, hls.length_eq, hstand, (arranged_arrange _).length_eq, List.length_append] at hlt
    omega

/-- **An event is told to its listeners in their order.**  Registrations for any events, one after
the other, are called as if those for the event were sorted once: each of them once, by descending
priority, and equals in the order of registration.  Registrations for other events make no
difference, nor does it if they come in two batches.

An emission in which no listener registers another one ahead of itself calls the registrations in
this order, those made in its course included.  At any time the calls made are the first in the order;
it is over when all have been called, or when one fails, with what this one reports.  This is what
comes of it, whatever number of calls the host is patient for, unless more listeners than that are
registered in its course.

A listener that registers another one ahead of itself is moved on by one place, where the next call
goes, and the new one stands at a place that has been passed. -/
theorem calls_arranged {r : Registry ι} (hr : r.listeners = .empty)
    (rs : List (String × Listener ι)) :
    -- the order
    (∀ ls : List (Listener ι), Arranged ls (arrange ls)) ∧
    (∀ event, (r.listenAll rs).listenersOf event = arrange (registeredFor event rs)) ∧
    (∀ event l, ((r.listenAll rs).listen event l).listenersOf event =
      arrange ((r.listenAll rs).listenersOf event ++ [l])) ∧
    -- registrations for other events
    (∀ event rs', registeredFor event rs' = registeredFor event rs →
      (r.listenAll rs').listenersOf event = (r.listenAll rs).listenersOf event) ∧
    -- two batches
    (∀ event rs', ((r.listenAll rs).listenAll rs').listenersOf event =
      arrange (registeredFor event (rs ++ rs'))) ∧
    -- an emission
    (∀ (host : Host σ ι) (e : Event) (w : World σ ι), w.registry = r.listenAll rs →
      Modest host e w →
      (∀ called v, Calls host e w called v →
        ∃ late, v.registry.listenersOf e.name = arrange (registeredFor e.name rs ++ late) ∧
          called = (arrange (registeredFor e.name rs ++ late)).take called.length) ∧
      (∀ called result, Emits host e w called result → ∃ late v, Calls host e w called v ∧
        v.registry.listenersOf e.name = arrange (registeredFor e.name rs ++ late) ∧
        ((called = arrange (registeredFor e.name rs ++ late) ∧ result = .ok () v) ∨
          ∃ l raw v', called ++ [l] <+: arrange (registeredFor e.name rs ++ late) ∧
            host.listener l.token e v = .error raw v' ∧
            result = .error (.script (e.reported raw)) v')) ∧
      ∀ n, (∃ called, Emits host e w called (emit (host.patient n) e w)) ∨
        ∃ called v late, Calls host e w called v ∧ n < late.length ∧
          v.registry.listenersOf e.name = arrange (registeredFor e.name rs ++ late)) ∧
    -- how an emission ends
    (∀ (host : Host σ ι) (e : Event) (w : World σ ι) result,
      (∃ called, Emits host e w called result) ↔
        ∃ enough, ∀ n, enough ≤ n → emit (host.patient n) e w = result) ∧
    -- a registration ahead
    ∀ (host : Host σ ι) (e : Event) (w u v : World σ ι) called ls l m,
      Calls host e w called u → u.registry.listenersOf e.name = arrange ls →
      (u.registry.listenersOf e.name)[called.length]? = some l →
      host.listener l.token e u = .ok () v →
      v.registry.listenersOf e.name = (u.registry.listen e.name m).listenersOf e.name →
      l.priority < m.priority →
      Calls host e w (called ++ [l]) v ∧
        (v.registry.listenersOf e.name)[(called ++ [l]).length]? = some l ∧
        ∃ j < (called ++ [l]).length, (v.registry.listenersOf e.name)[j]? = some m := by
  have horder := Registry.listenersOf_listenAll hr
  have hsorted : ∀ ls : List (Listener ι), (arrange ls).Pairwise fun l m =>
      m.priority ≤ l.priority := fun ls => (arranged_arrange ls).descending
  refine ⟨arranged_arrange, horder rs, fun event l => ?_, fun event rs' hsame => ?_,
    fun event rs' => ?_, fun host e w hw hmodest => ?_, fun host e w result => emits_iff,
    fun host e w u v called ls l m hcalls hu hturn hcall hv hahead =>
      hcalls.again (hu ▸ hsorted ls) hturn hcall hv hahead⟩
  · rw [Registry.listenersOf_listen, if_pos rfl, horder, Registry.place_eq_arrange (hsorted _)]
  · rw [horder, horder, hsame]
  · rw [← horder, Registry.listenAll, Registry.listenAll, Registry.listenAll, List.foldl_append]
  · have hstart : Arranged (registeredFor e.name rs) (w.registry.listenersOf e.name) := by
      rw [hw, horder]
      exact arranged_arrange _
    exact ⟨fun called v h => h.in_order hmodest hstart,
      fun called result h => h.in_order hmodest hstart, emit_of_modest hmodest hstart⟩

end

/-- A host that notes whom it has called.  The first listener that it calls registers one more, at the
given priority, and the one that is called `grumpy` fails. -/
def growingHost (priority : Int) : Host (List String) String where
  command _ _ _ _ _ := return .bool true
  expression _ _ _ _ := return .bool true
  computedAlias _ _ := return .null
  listener token e := do
    modify fun w =>
      { w with
        host := w.host ++ [token]
        registry :=
          if w.host = [] then w.registry.listen e.name ⟨priority, "late"⟩ else w.registry }
    if token = "grumpy" then throw (.trouble (.reported "RuntimeError" "oops"))
  rule _ _ := return
  callback _ := return .bool true
  write _ := return

/-- Registrations for two events. -/
def evening : List (String × Listener String) :=
  [("script_end", ⟨0, "plain"⟩), ("on_error", ⟨5, "elsewhere"⟩), ("script_end", ⟨7, "early"⟩),
    ("script_end", ⟨0, "grumpy"⟩), ("script_end", ⟨-1, "tired"⟩)]

/-- A world in which they have been made. -/
def eveningWorld : World (List String) String where
  host := []
  registry := ({} : Registry String).listenAll evening

/-- Only the first call registers anything. -/
theorem registry_of_growingHost {priority : Int} {token : String} {e : Event}
    {u v : World (List String) String}
    (h : (growingHost priority).listener token e u = .ok () v) :
    v.host = u.host ++ [token] ∧
    v.registry =
      if u.host = [] then u.registry.listen e.name ⟨priority, "late"⟩ else u.registry := by
  by_cases ht : token = "grumpy"
  · subst ht
    cases h
  · simp only [growingHost, if_neg ht] at h
    cases h
    exact ⟨rfl, rfl⟩

/-- A listener that is registered at priority 3 by the first, which has priority 7, is behind it. -/
theorem modest_growingHost : Modest (growingHost 3) (.scriptEnd 0) eveningWorld := by
  have hfirst : ∀ called u, Calls (growingHost 3) (.scriptEnd 0) eveningWorld called u →
      called = [] ∧ u = eveningWorld ∨ u.host ≠ [] := by
    intro called u h
    cases h with
    | start => exact .inl ⟨rfl, rfl⟩
    | next _ _ call =>
      rw [(registry_of_growingHost call).1]
      exact .inr (List.append_ne_nil_of_right_ne_nil _ (List.cons_ne_nil _ _))
  intro called l u v hcalls hturn hcall
  obtain ⟨-, hregistry⟩ := registry_of_growingHost hcall
  obtain ⟨rfl, rfl⟩ | hnoted := hfirst called u hcalls
  · cases hturn
    refine ⟨[⟨3, "late"⟩], fun m hm => ?_, ?_⟩
    · rw [List.mem_singleton.mp hm]
      decide
    · rw [hregistry]
      rfl
  · rw [if_neg hnoted] at hregistry
    refine ⟨[], fun m hm => absurd hm List.not_mem_nil, ?_⟩
    rw [hregistry]
    rfl

/-- The first listener registers another one behind itself, which is called in its turn; the last but
one fails, so that the last is not called. -/
theorem calls_arranged_evening :
    Modest (growingHost 3) (.scriptEnd 0) eveningWorld ∧
    (eveningWorld.registry.listenersOf "script_end").map Listener.token =
      ["early", "plain", "grumpy", "tired"] ∧
    ((emit (growingHost 3) (.scriptEnd 0)).after eveningWorld).host =
      ["early", "late", "plain", "grumpy"] ∧
    ∃ late v l raw v',
      [⟨7, "early"⟩, ⟨3, "late"⟩, ⟨0, "plain"⟩, l] <+:
        arrange (registeredFor "script_end" evening ++ late) ∧
      (growingHost 3).listener l.token (.scriptEnd 0) v = .error raw v' ∧
      ∃ enough, ∀ n, enough ≤ n → emit ((growingHost 3).patient n) (.scriptEnd 0) eveningWorld =
        .error (.script (Event.reported (.scriptEnd 0) raw)) v' := by
  obtain ⟨-, -, -, -, -, hemission, hends, -⟩ :=
    calls_arranged (σ := List String) (r := ({} : Registry String)) rfl evening
  obtain ⟨-, hover, -⟩ :=
    hemission (growingHost 3) (.scriptEnd 0) eveningWorld rfl modest_growingHost
  obtain ⟨fault, w', hfails⟩ : ∃ fault w', Emits (growingHost 3) (.scriptEnd 0) eveningWorld
      [⟨7, "early"⟩, ⟨3, "late"⟩, ⟨0, "plain"⟩] (.error fault w') :=
    ⟨_, _, .fails (.next (.next (.next .start rfl rfl) rfl rfl) rfl rfl) rfl rfl⟩
  obtain ⟨late, v, -, -, ⟨-, hok⟩ | ⟨l, raw, v', hinitial, hcall, herror⟩⟩ := hover _ _ hfails
  · cases hok
  · exact ⟨modest_growingHost, by decide, by decide +kernel, late, v, l, raw, v', hinitial, hcall,
      (hends _ _ _ _).mp ⟨_, herror ▸ hfails⟩⟩

/-- **A listener that registers another one ahead of itself is called twice.**  At priority 9 the new
listener stands before the first, which has priority 7 and thus comes next again; the new one is not
called. -/
theorem called_twice_of_hasty :
    (arrange (registeredFor "script_end" evening)).map Listener.token =
      ["early", "plain", "grumpy", "tired"] ∧
    (∃ v, Calls (growingHost 9) (.scriptEnd 0) eveningWorld
      [⟨7, "early"⟩, ⟨7, "early"⟩, ⟨0, "plain"⟩] v) ∧
    ((emit (growingHost 9) (.scriptEnd 0)).after eveningWorld).host =
      ["early", "early", "plain", "grumpy"] := by
  refine ⟨?_, ⟨_, .next (.next (.next .start rfl rfl) rfl rfl) rfl rfl⟩, by decide +kernel⟩
  rw [← Registry.listenersOf_listenAll (r := ({} : Registry String)) rfl]
  decide

end Cadence
