/-
  The CHAIN of frames, told by positions.

  Every frame but the outermost was opened by a statement, so a chain of frames is told by the
  positions of these statements (`Framed`).  Here is what the operations on frames do to the
  positions: opening puts one in front, closing takes the first away, and unwinding to a statement
  cuts off what stands before its position.  A statement is known again by its position, and by
  nothing else, so it matters that no position occurs twice in front of the one that is looked for.

  The statements belong to a tree that stays loaded (`Tree`); the links of a script lead from
  positions to positions of it.
-/
import Cadence.Proofs.Nesting.WellNested
import Cadence.Script.Basic

namespace Cadence

/-! ## The statements of a tree -/

/-- A tree, with the number of its loading. -/
structure Tree where
  /-- The tree. -/
  root : Node
  /-- The number of the loading. -/
  load : Nat

namespace Tree

variable (T : Tree)

/-- The kinds of the first tokens of the statements. -/
def kinds : List (Option Kind) := T.root.children.map Script.headKind

/-- The statement at a position. -/
def statement? (k : Nat) : Option Statement :=
  ((Site.root T.root).child? k).map fun site => { load := T.load, site }

variable {T}

theorem statement?_eq_some {k : Nat} {t : Statement} :
    T.statement? k = some t ↔
      ∃ n, T.root.children[k]? = some n ∧ t = ⟨T.load, ⟨n, [(T.root, k)]⟩⟩ := by
  unfold statement? Site.child?
  rw [Option.map_map, Option.map_eq_some_iff]
  constructor
  · rintro ⟨n, hn, rfl⟩
    exact ⟨n, hn, rfl⟩
  · rintro ⟨n, hn, rfl⟩
    exact ⟨n, hn, rfl⟩

theorem lt_of_statement? {k : Nat} {t : Statement} (h : T.statement? k = some t) :
    k < T.kinds.length := by
  obtain ⟨n, hn, -⟩ := statement?_eq_some.mp h
  obtain ⟨hk, -⟩ := List.getElem?_eq_some_iff.mp hn
  rw [kinds, List.length_map]
  exact hk

theorem exists_statement? {k : Nat} (h : k < T.kinds.length) : ∃ t, T.statement? k = some t := by
  rw [kinds, List.length_map] at h
  exact ⟨_, statement?_eq_some.mpr ⟨_, List.getElem?_eq_getElem h, rfl⟩⟩

/-- After the statement at a position comes the statement at the next. -/
theorem bind_next? (k : Nat) : (T.statement? k).bind Statement.next? = T.statement? (k + 1) := by
  cases h : T.statement? k with
  | some t =>
    obtain ⟨n, hn, rfl⟩ := statement?_eq_some.mp h
    rfl
  | none =>
    have hk : T.root.children.length ≤ k := by
      rcases Nat.lt_or_ge k T.kinds.length with hlt | hge
      · obtain ⟨t, ht⟩ := exists_statement? hlt
        rw [h] at ht
        exact absurd ht (by simp)
      · rw [kinds, List.length_map] at hge
        exact hge
    symm
    unfold statement? Site.child?
    rw [show (Site.root T.root).node.children[k + 1]? = none from
      List.getElem?_eq_none (by show T.root.children.length ≤ k + 1; omega)]
    rfl

theorem next?_of_statement? {k : Nat} {t : Statement} (h : T.statement? k = some t) :
    t.next? = T.statement? (k + 1) := by
  rw [← bind_next?, h]
  rfl

/-- The kind of the first token of a statement is the kind at its position. -/
theorem kind_of_statement? {k : Nat} {t : Statement} (h : T.statement? k = some t) :
    T.kinds[k]?.join = t.head?.map Site.kind := by
  obtain ⟨n, hn, rfl⟩ := statement?_eq_some.mp h
  rw [kinds, List.getElem?_map, hn]
  show Script.headKind n = ((Site.child? ⟨n, [(T.root, k)]⟩ 0).map Site.kind)
  unfold Script.headKind Site.child?
  rw [Option.map_map, List.head?_eq_getElem?]
  rfl

theorem holds_of_head? {k : Nat} {t : Statement} {head : Site} (h : T.statement? k = some t)
    (hh : t.head? = some head) (p : Kind → Bool) : holds p T.kinds k = p head.kind := by
  unfold holds
  rw [kind_of_statement? h, hh]
  rfl

/-- From any statement the first statement is found. -/
theorem first_of_statement? {k : Nat} {t : Statement} (h : T.statement? k = some t) :
    ((t.site.parent?.bind Site.firstChild?).map fun site => { t with site }) =
      T.statement? 0 := by
  obtain ⟨n, hn, rfl⟩ := statement?_eq_some.mp h
  rfl

/-- Statements of one tree are the same when their positions are. -/
theorem same_iff {j k : Nat} {a b : Statement} (ha : T.statement? j = some a)
    (hb : T.statement? k = some b) : a.same b = true ↔ j = k := by
  obtain ⟨n, -, rfl⟩ := statement?_eq_some.mp ha
  obtain ⟨m, -, rfl⟩ := statement?_eq_some.mp hb
  simp [Statement.same, Site.index?]

end Tree

/-! ## Frames by the positions of their starts -/

/-- The statements that opened the frames, innermost first. -/
def Frames.starts (c : Frames) : List (Option Statement) := c.toList.map Frame.start

namespace Frames

theorem starts_push (c : Frames) (t : Statement) : (c.push t).starts = some t :: c.starts := rfl

theorem starts_mapTop (c : Frames) {f : Frame → Frame} (hf : ∀ x, (f x).start = x.start) :
    (c.mapTop f).starts = c.starts := by
  show (f c.top).start :: c.outer.map Frame.start = c.top.start :: c.outer.map Frame.start
  rw [hf]

theorem starts_pop {c : Frames} {a b : Option Statement} {rest : List (Option Statement)}
    (h : c.starts = a :: b :: rest) : c.pop.starts = b :: rest := by
  obtain ⟨top, outer⟩ := c
  cases outer with
  | nil => exact absurd h (by simp [starts, toList])
  | cons f fs =>
    have h : top.start :: f.start :: fs.map Frame.start = a :: b :: rest := h
    exact (List.cons.inj h).2

/-- Behind a frame are those around it. -/
theorem pop_of_outer {c d : Frames} (h : d.outer = c.toList) : d.pop = c := by
  obtain ⟨top, outer⟩ := d
  obtain rfl : outer = c.toList := h
  rfl

theorem openedBy_of_start {f : Frame} {a t : Statement} (h : f.start = some a) :
    f.openedBy t = a.same t := by
  rw [Frame.openedBy, h]

theorem openedBy_of_start_none {f : Frame} {t : Statement} (h : f.start = none) :
    f.openedBy t = false := by
  rw [Frame.openedBy, h]

/-- A statement that opens a frame is in its own. -/
theorem openedBy_push (c : Frames) (t : Statement) : (c.push t).top.openedBy t = true := by
  show t.same t = true
  unfold Statement.same
  rw [decide_eq_true rfl, decide_eq_true rfl]
  rfl

/-- Closes some of the frames. -/
def close : Nat → Frames → Frames
  | 0, c => c
  | n + 1, c => close n c.pop

/-- The frames from the nearest one that a statement opened: those above it are closed. -/
theorem from?_starts {T : Tree} {h : Nat} {t : Statement} (ht : T.statement? h = some t)
    {rest : List (Option Statement)} :
    ∀ (above : List Nat) (top : Frame) (outer : List Frame),
      (∀ m ∈ above, h < m ∧ m < T.kinds.length) →
      (Frames.mk top outer).starts = above.map T.statement? ++ some t :: rest →
      from? t top outer = some (close above.length ⟨top, outer⟩) ∧
        (close above.length ⟨top, outer⟩).starts = some t :: rest := by
  intro above
  induction above with
  | nil =>
    intro top outer _ hs
    have htop : top.start = some t := (List.cons.inj hs).1
    have hopen : top.openedBy t = true := by
      rw [openedBy_of_start htop]
      exact (Tree.same_iff ht ht).mpr rfl
    refine ⟨?_, hs⟩
    cases outer with
    | nil => rw [from?, if_pos hopen]; rfl
    | cons f fs => rw [from?, if_pos hopen]; rfl
  | cons m above ih =>
    intro top outer hlt hs
    obtain ⟨hhm, hm⟩ := hlt m (List.mem_cons_self ..)
    obtain ⟨a, ha⟩ := Tree.exists_statement? hm
    have htop : top.start = some a := by
      rw [← ha]
      exact (List.cons.inj hs).1
    have hopen : top.openedBy t = false := by
      rw [openedBy_of_start htop, Bool.eq_false_iff]
      intro hsame
      -- two positions have the same statement only if they are one
      have : m = h := (Tree.same_iff ha ht).mp hsame
      omega
    cases outer with
    | nil =>
      -- the frame that is looked for is still to come
      have hl := congrArg List.length hs
      simp [starts, toList] at hl
    | cons f fs =>
      have hs' : (Frames.mk f fs).starts = above.map T.statement? ++ some t :: rest :=
        (List.cons.inj hs).2
      rw [from?, if_neg (by simp [hopen])]
      exact ih f fs (fun m hm => hlt m (List.mem_cons_of_mem _ hm)) hs'

end Frames

/-- A script has a tree loaded. -/
structure Script.Has {ι : Type} (T : Tree) (s : Script ι) : Prop where
  /-- The tree is loaded. -/
  root : s.root = T.root
  /-- It is this loading of the tree. -/
  load : s.load = T.load

namespace Script.Has

variable {ι : Type} {T : Tree} {s : Script ι}

theorem statementAt? (h : s.Has T) (k : Nat) : s.statementAt? k = T.statement? k := by
  unfold Script.statementAt? Tree.statement?
  rw [h.root, h.load]

theorem position? (h : s.Has T) {k : Nat} {t : Statement} (ht : T.statement? k = some t) :
    s.position? t = some k := by
  obtain ⟨n, -, rfl⟩ := Tree.statement?_eq_some.mp ht
  unfold Script.position?
  rw [h.load, if_pos rfl]
  rfl

/-- Where a link leads from a statement. -/
theorem linked? (h : s.Has T) {k : Nat} {t : Statement} (ht : T.statement? k = some t)
    (link : Nat → Option Nat) : s.linked? t link = (link k).bind T.statement? := by
  have hs : s.statementAt? = T.statement? := funext h.statementAt?
  unfold Script.linked?
  rw [h.position? ht, Option.bind_some, hs]

end Script.Has

/-- A script in the middle of its tree: its frames were opened at some positions, its cursor is on
some statement, and whether it waits is bounded. -/
structure Framed {ι : Type} (T : Tree) (hs : List Nat) (c : Option Statement) (waits : Bool)
    (s : Script ι) : Prop where
  /-- The tree is loaded. -/
  root : s.root = T.root
  /-- It is this loading of the tree. -/
  load : s.load = T.load
  /-- The links are those of the tree. -/
  links : s.links = Links.ofKinds T.kinds
  /-- The frames were opened at the positions, innermost first; the outermost by no statement. -/
  starts : s.frames.starts = hs.map T.statement? ++ [none]
  /-- The cursor. -/
  cursor : s.cursor = c
  /-- It waits only if it may. -/
  wait : s.activity = .timingOut → waits = true

namespace Framed

variable {ι : Type} {T : Tree} {hs : List Nat} {c : Option Statement} {waits : Bool} {s : Script ι}

theorem has (h : Framed T hs c waits s) : s.Has T := ⟨h.root, h.load⟩

/-- Where a link leads. -/
theorem linked? (h : Framed T hs c waits s) {k : Nat} {t u : Statement}
    (ht : T.statement? k = some t) {link : Nat → Option Nat} (hl : s.linked? t link = some u) :
    ∃ e, link k = some e ∧ T.statement? e = some u := by
  rw [h.has.linked? ht] at hl
  exact Option.bind_eq_some_iff.mp hl

/-- Is a frame on top that the statement at a position opened? -/
theorem openedBy (h : Framed T hs c waits s) (hlt : ∀ m ∈ hs, m < T.kinds.length) {k : Nat}
    {t : Statement} (ht : T.statement? k = some t) :
    s.frames.top.openedBy t = true ↔ hs.head? = some k := by
  have hst := h.starts
  cases hs with
  | nil =>
    have htop : s.frames.top.start = none := (List.cons.inj hst).1
    rw [Frames.openedBy_of_start_none htop]
    simp
  | cons m rest =>
    obtain ⟨a, ha⟩ := Tree.exists_statement? (hlt m (List.mem_cons_self ..))
    have htop : s.frames.top.start = some a := by
      rw [← ha]
      exact (List.cons.inj hst).1
    rw [Frames.openedBy_of_start htop, Tree.same_iff ha ht, List.head?_cons, Option.some_inj]

theorem push (h : Framed T hs c waits s) {k : Nat} {t : Statement} (ht : T.statement? k = some t) :
    Framed T (k :: hs) c waits (s.pushFrame t) :=
  ⟨h.root, h.load, h.links, by
    show (s.frames.push t).starts = _
    rw [Frames.starts_push, h.starts, List.map_cons, ht, List.cons_append], h.cursor, h.wait⟩

theorem pop {k : Nat} (h : Framed T (k :: hs) c waits s) : Framed T hs c waits s.popFrame := by
  refine ⟨h.root, h.load, h.links, ?_, h.cursor, h.wait⟩
  show s.frames.pop.starts = _
  have hst := h.starts
  cases hs with
  | nil => exact Frames.starts_pop (a := T.statement? k) hst
  | cons m rest => exact Frames.starts_pop (a := T.statement? k) hst

theorem mapTop (h : Framed T hs c waits s) {f : Frame → Frame} (hf : ∀ x, (f x).start = x.start) :
    Framed T hs c waits (s.mapTop f) :=
  ⟨h.root, h.load, h.links, (Frames.starts_mapTop _ hf).trans h.starts, h.cursor, h.wait⟩

/-- What stands in front of a position is cut off. -/
theorem unwind {above : List Nat} {m : Nat} (h : Framed T (above ++ m :: hs) c waits s)
    (habove : ∀ a ∈ above, m < a ∧ a < T.kinds.length) {t : Statement}
    (ht : T.statement? m = some t) (inclusive : Bool) :
    Framed T (if inclusive then hs else m :: hs) c waits
      { s with frames := s.frames.unwind t inclusive } := by
  have hst : s.frames.starts =
      above.map T.statement? ++ some t :: (hs.map T.statement? ++ [none]) := by
    rw [h.starts, List.map_append, List.map_cons, ht, List.append_assoc, List.cons_append]
  obtain ⟨hd, hds⟩ := Frames.from?_starts ht above s.frames.top s.frames.outer habove hst
  refine ⟨h.root, h.load, h.links, ?_, h.cursor, h.wait⟩
  show (s.frames.unwind t inclusive).starts = _
  unfold Frames.unwind
  rw [hd]
  cases inclusive with
  | false =>
    show (Frames.close above.length s.frames).starts = (m :: hs).map T.statement? ++ [none]
    rw [hds, List.map_cons, ht, List.cons_append]
  | true =>
    show (Frames.close above.length s.frames).pop.starts = hs.map T.statement? ++ [none]
    cases hs with
    | nil => exact Frames.starts_pop hds
    | cons _ _ => exact Frames.starts_pop hds

/-- In the outermost frame alone. -/
theorem bottom (h : Framed T hs c waits s) :
    Framed T [] c waits { s with frames := s.frames.bottom } := by
  refine ⟨h.root, h.load, h.links, ?_, h.cursor, h.wait⟩
  have hst := h.starts
  have hlast : (s.frames.outer.getLastD s.frames.top).start = none := by
    have : s.frames.starts.getLast? = some none := by
      rw [hst, List.getLast?_append]
      rfl
    have hm : (s.frames.toList.getLast?).map Frame.start = some none := by
      rw [← List.getLast?_map]
      exact this
    cases ho : s.frames.outer with
    | nil =>
      rw [Frames.toList, ho] at hm
      exact Option.some.inj hm
    | cons f fs =>
      rw [Frames.toList, ho] at hm
      simpa [List.getLast?_cons] using hm
  show [(s.frames.outer.getLastD s.frames.top).start] = [none]
  rw [hlast]

theorem moveTo (h : Framed T hs c waits s) (d : Option Statement) :
    Framed T hs d waits { s with cursor := d } :=
  ⟨h.root, h.load, h.links, h.starts, rfl, h.wait⟩

theorem clearTimeout (h : Framed T hs c waits s) : Framed T hs c false s.clearTimeout := by
  unfold Script.clearTimeout
  split
  · exact ⟨h.root, h.load, h.links, h.starts, h.cursor, fun ha => absurd ha (by simp)⟩
  · rename_i ha
    exact ⟨h.root, h.load, h.links, h.starts, h.cursor, fun hw => absurd hw ha⟩

theorem unpause (h : Framed T hs c waits s) : Framed T hs c waits s.unpause := by
  unfold Script.unpause
  split
  · exact ⟨h.root, h.load, h.links, h.starts, h.cursor, fun ha => absurd ha (by simp)⟩
  · exact h

/-- Using up a callback changes nothing here. -/
theorem consume (h : Framed T hs c waits s) :
    Framed T hs c waits ({ s with callback := none } : Script ι) :=
  ⟨h.root, h.load, h.links, h.starts, h.cursor, h.wait⟩

/-- Going on leads to the next statement, and ends a wait. -/
theorem advance (h : Framed T hs c waits s) :
    Framed T hs (c.bind Statement.next?) false s.advance := by
  have hc := h.clearTimeout
  have hm := hc.moveTo (s.clearTimeout.cursor.bind Statement.next?)
  rw [hc.cursor] at hm
  have he : s.advance = { s.clearTimeout with cursor := c.bind Statement.next? } := by
    show { s.clearTimeout with cursor := s.clearTimeout.cursor.bind Statement.next? } = _
    rw [hc.cursor]
  rw [he]
  exact hm

end Framed

end Cadence
