/-
  NAVIGATING a tree: by its children, and by links.

  A tree can be gone through in two ways.  The WALK follows its shape, each node before its children
  and these from left to right.  The way BY LINKS knows one place at a time: it goes down to the
  first child where there is one, and else to the next neighbour of the place or of the nearest one
  above, until it would leave the node that it began with (`Navigation.Visits`).

  1. **Links** — what leads on is determined (`Visits.unique`), so nobody is met twice: who is met
     again would lead on for ever (`Visits.nodup`).

  2. **Laws** — the links are noted with each child when it is put behind its siblings: the parent,
     and the position among its children (`Navigation.Laws`).  Nothing else is asked of them.

  3. **Agreement** — under these laws the links agree with the tree: parents, positions and
     neighbours, and the way by links is the walk (`Laws.agrees`).

  4. **Mirrors** — two ways to go through the same tree match in everything as soon as the children
     match (`Laws.mirrors`): the laws leave no choice for the rest.

  5. **Sites** — the sites of a tree obey the laws (`Site.laws`).
-/
import Mathlib.Data.List.Basic
import Cadence.Tree.Site

namespace Cadence

/-- The ways to go through a tree whose places are of type `α`. -/
structure Navigation (α : Type) where
  /-- The children of a place, in order. -/
  children : α → List α
  /-- The place above. -/
  parent? : α → Option α
  /-- The position among the children of the parent. -/
  index? : α → Option Nat
  /-- The first child. -/
  firstChild? : α → Option α
  /-- The next place under the same parent. -/
  next? : α → Option α
  /-- The place before under the same parent. -/
  prev? : α → Option α
  /-- The places at and below a place. -/
  walk : α → List α

namespace Navigation

variable {α : Type} {nav : Navigation α} {start a b : α} {r : Option α} {l : List α}

/-! ## The way by links -/

/-- Where the way by links goes on when it has been through everything below a place: to the next
place, or else to the next of the nearest place above, but never beyond `start`. -/
inductive Behind (nav : Navigation α) (start : α) : α → Option α → Prop
  /-- Behind the first place there is nothing. -/
  | start : Behind nav start start none
  /-- The next place, if there is one. -/
  | next {a b : α} (away : a ≠ start) (link : nav.next? a = some b) : Behind nav start a (some b)
  /-- Else what is behind the place above. -/
  | up {a p : α} {r : Option α} (away : a ≠ start) (last : nav.next? a = none)
      (link : nav.parent? a = some p) (above : Behind nav start p r) : Behind nav start a r

/-- The places that the way by links meets from a place on. -/
inductive Visits (nav : Navigation α) (start : α) : α → List α → Prop
  /-- It goes down where it can. -/
  | down {a c : α} {l : List α} (link : nav.firstChild? a = some c) (rest : Visits nav start c l) :
      Visits nav start a (a :: l)
  /-- Else it goes on behind. -/
  | on {a b : α} {l : List α} (leaf : nav.firstChild? a = none)
      (behind : nav.Behind start a (some b)) (rest : Visits nav start b l) :
      Visits nav start a (a :: l)
  /-- Where there is nothing, it ends. -/
  | done {a : α} (leaf : nav.firstChild? a = none) (behind : nav.Behind start a none) :
      Visits nav start a [a]

theorem Behind.unique {r' : Option α} (h : nav.Behind start a r) (h' : nav.Behind start a r') :
    r = r' := by
  induction h with
  | start =>
    cases h' with
    | start => rfl
    | next away => exact absurd rfl away
    | up away => exact absurd rfl away
  | next away link =>
    cases h' with
    | start => exact absurd rfl away
    | next _ link' => exact link.symm.trans link'
    | up _ last => exact nomatch link.symm.trans last
  | up away last link _ ih =>
    cases h' with
    | start => exact absurd rfl away
    | next _ link' => exact nomatch link'.symm.trans last
    | up _ _ link' above' =>
      cases link.symm.trans link'
      exact ih above'

/-- The links leave no choice. -/
theorem Visits.unique {l' : List α} (h : nav.Visits start a l) (h' : nav.Visits start a l') :
    l = l' := by
  induction h generalizing l' with
  | down link _ ih =>
    cases h' with
    | down link' rest' =>
      cases link.symm.trans link'
      rw [ih rest']
    | on leaf => exact nomatch link.symm.trans leaf
    | done leaf => exact nomatch link.symm.trans leaf
  | on leaf behind _ ih =>
    cases h' with
    | down link' => exact nomatch link'.symm.trans leaf
    | on _ behind' rest' =>
      cases behind.unique behind'
      rw [ih rest']
    | done _ behind' => exact nomatch behind.unique behind'
  | done leaf behind =>
    cases h' with
    | down link' => exact nomatch link'.symm.trans leaf
    | on _ behind' => exact nomatch behind.unique behind'
    | done => rfl

/-- From each place that is met the way is no longer than from the first. -/
theorem Visits.from_mem (h : nav.Visits start a l) (hb : b ∈ l) :
    ∃ l', nav.Visits start b l' ∧ l'.length ≤ l.length := by
  induction h with
  | down link rest ih =>
    obtain rfl | hin := List.mem_cons.mp hb
    · exact ⟨_, .down link rest, Nat.le_refl _⟩
    · obtain ⟨l', hl', hle⟩ := ih hin
      exact ⟨l', hl', Nat.le_succ_of_le hle⟩
  | on leaf behind rest ih =>
    obtain rfl | hin := List.mem_cons.mp hb
    · exact ⟨_, .on leaf behind rest, Nat.le_refl _⟩
    · obtain ⟨l', hl', hle⟩ := ih hin
      exact ⟨l', hl', Nat.le_succ_of_le hle⟩
  | done leaf behind =>
    obtain rfl := List.mem_singleton.mp hb
    exact ⟨_, .done leaf behind, Nat.le_refl _⟩

/-- **Nobody is met twice**: the way would be as long from the second time on as from the first. -/
theorem Visits.nodup (h : nav.Visits start a l) : l.Nodup := by
  have hnew : ∀ {a l}, nav.Visits start a (a :: l) →
      (∀ c ∈ l, ∃ l', nav.Visits start c l' ∧ l'.length ≤ l.length) → a ∉ l := by
    intro a l h hlater hin
    obtain ⟨l', hl', hle⟩ := hlater a hin
    rw [hl'.unique h, List.length_cons] at hle
    omega
  induction h with
  | down link rest ih =>
    exact List.nodup_cons.mpr ⟨hnew (.down link rest) fun _ hc => rest.from_mem hc, ih⟩
  | on leaf behind rest ih =>
    exact List.nodup_cons.mpr ⟨hnew (.on leaf behind rest) fun _ hc => rest.from_mem hc, ih⟩
  | done => exact List.nodup_cons.mpr ⟨List.not_mem_nil, .nil⟩

/-! ## Laws and agreement -/

/-- What is noted when each child is put behind its siblings.  A place is above its children, as a
measure says that grows smaller downwards. -/
structure Laws (nav : Navigation α) (root : α) (measure : α → Nat) : Prop where
  /-- Each child has its parent and its position. -/
  down : ∀ {p c : α} {i : Nat}, (nav.children p)[i]? = some c →
    nav.parent? c = some p ∧ nav.index? c = some i ∧ measure c < measure p
  /-- The root has no parent and no position. -/
  root : nav.parent? root = none ∧ nav.index? root = none
  /-- The first child is the first of the children. -/
  first : ∀ a, nav.firstChild? a = (nav.children a)[0]?
  /-- The next place is one further. -/
  next : ∀ {c p : α} {i : Nat}, nav.parent? c = some p → nav.index? c = some i →
    nav.next? c = (nav.children p)[i + 1]?
  /-- The place before is one less far. -/
  prev : ∀ {c p : α} {i : Nat}, nav.parent? c = some p → nav.index? c = some (i + 1) →
    nav.prev? c = (nav.children p)[i]?
  /-- There is none before the first. -/
  prev_first : ∀ {c}, nav.index? c = some 0 → nav.prev? c = none
  /-- Nobody is beside a place without a parent. -/
  alone : ∀ {c}, nav.parent? c = none → nav.next? c = none ∧ nav.prev? c = none
  /-- The walk goes through the children in their order. -/
  walk : ∀ a, nav.walk a = a :: (nav.children a).flatMap nav.walk

/-- The links agree with the tree below `root`. -/
structure Agrees (nav : Navigation α) (root : α) : Prop where
  /-- The parent of a child is the place whose children hold it, and its index is its position
  there. -/
  held : ∀ c ∈ nav.walk root, ∀ (p : α) (i : Nat),
    nav.parent? c = some p ∧ nav.index? c = some i ↔ (nav.children p)[i]? = some c
  /-- Only the root has no parent. -/
  parent_root : ∀ c ∈ nav.walk root, nav.parent? c = none ↔ c = root
  /-- The next place and the place before are inverse. -/
  inverse : ∀ b ∈ nav.walk root, ∀ c ∈ nav.walk root, nav.next? b = some c ↔ nav.prev? c = some b
  /-- There is no next place behind the last child, nor behind the root. -/
  next_last : ∀ c ∈ nav.walk root, nav.next? c = none ↔
    c = root ∨ ∃ p, nav.parent? c = some p ∧ (nav.children p).getLast? = some c
  /-- There is no place before the first child, nor before the root. -/
  prev_first : ∀ c ∈ nav.walk root, nav.prev? c = none ↔
    c = root ∨ ∃ p, nav.parent? c = some p ∧ (nav.children p).head? = some c
  /-- From any place the way by links is the walk. -/
  visits : ∀ a ∈ nav.walk root, ∀ l, nav.Visits a a l ↔ l = nav.walk a
  /-- The walk meets each place once. -/
  nodup : ∀ a ∈ nav.walk root, (nav.walk a).Nodup

namespace Laws

variable {root : α} {measure : α → Nat} (h : nav.Laws root measure)
include h

/-- A child with those behind it: the links that lead on from it. -/
theorem of_drop {k : Nat} {c : α} {rest : List α} (hdrop : (nav.children a).drop k = c :: rest) :
    nav.parent? c = some a ∧ nav.next? c = rest.head? ∧ measure c < measure a := by
  have hc : (nav.children a)[k]? = some c := by
    rw [← Nat.add_zero k, ← List.getElem?_drop, hdrop]
    rfl
  have hnext : (nav.children a)[k + 1]? = rest.head? := by
    rw [← List.getElem?_drop, hdrop, List.head?_eq_getElem?]
    rfl
  obtain ⟨hparent, hindex, hless⟩ := h.down hc
  exact ⟨hparent, (h.next hparent hindex).trans hnext, hless⟩

/-- **The way by links goes through everything below a place, and then on behind it.** -/
theorem visits_walk (hstart : measure a ≤ measure start) {l : List α}
    (hbehind : (nav.Behind start a none ∧ l = []) ∨
      ∃ b, nav.Behind start a (some b) ∧ nav.Visits start b l) :
    nav.Visits start a (nav.walk a ++ l) := by
  induction hm : measure a using Nat.strongRecOn generalizing a l with
  | ind m ih =>
    subst hm
    -- through the children that are left, from each to the next, and from the last behind `a`
    have through : ∀ (rest : List α) (k : Nat) (c : α), (nav.children a).drop k = c :: rest →
        nav.Visits start c ((c :: rest).flatMap nav.walk ++ l) := by
      intro rest
      induction rest with
      | nil =>
        intro k c hdrop
        obtain ⟨hparent, hlast, hless⟩ := h.of_drop hdrop
        have haway : c ≠ start := by
          rintro rfl
          omega
        rw [List.flatMap_cons, List.flatMap_nil, List.append_nil]
        refine ih (measure c) hless (by omega) ?_ rfl
        obtain ⟨hnone, rfl⟩ | ⟨b, hsome, hb⟩ := hbehind
        · exact .inl ⟨.up haway hlast hparent hnone, rfl⟩
        · exact .inr ⟨b, .up haway hlast hparent hsome, hb⟩
      | cons d rest ihrest =>
        intro k c hdrop
        obtain ⟨-, hnext, hless⟩ := h.of_drop hdrop
        have haway : c ≠ start := by
          rintro rfl
          omega
        have hrest : (nav.children a).drop (k + 1) = d :: rest := by
          rw [← List.tail_drop, hdrop]
          rfl
        rw [List.flatMap_cons, List.append_assoc]
        exact ih (measure c) hless (by omega)
          (.inr ⟨d, .next haway hnext, ihrest (k + 1) d hrest⟩) rfl
    rw [h.walk a]
    cases hchildren : nav.children a with
    | nil =>
      have hleaf : nav.firstChild? a = none := by
        rw [h.first, hchildren]
        rfl
      obtain ⟨hnone, rfl⟩ | ⟨b, hsome, hb⟩ := hbehind
      · exact .done hleaf hnone
      · exact .on hleaf hsome hb
    | cons c rest =>
      have hfirst : nav.firstChild? a = some c := by
        rw [h.first, hchildren]
        rfl
      exact .down hfirst (through rest 0 c hchildren)

/-- From a place itself the way by links is the walk. -/
theorem visits_iff (a : α) (l : List α) : nav.Visits a a l ↔ l = nav.walk a := by
  have hwalk : nav.Visits a a (nav.walk a) := by
    have := h.visits_walk (Nat.le_refl (measure a)) (.inl ⟨.start, rfl⟩)
    rwa [List.append_nil] at this
  constructor
  · exact fun hl => hl.unique hwalk
  · rintro rfl
    exact hwalk

/-- A walk starts where it starts. -/
theorem mem_walk_self (a : α) : a ∈ nav.walk a := by
  rw [h.walk a]
  exact List.mem_cons_self

/-- What holds of a place, and of each child of a place that it holds of, holds all along the walk. -/
theorem descend {motive : α → Prop} (ha : motive a)
    (hstep : ∀ p c, motive p → ∀ i : Nat, (nav.children p)[i]? = some c → motive c) {c : α}
    (hc : c ∈ nav.walk a) : motive c := by
  induction hm : measure a using Nat.strongRecOn generalizing a with
  | ind m ih =>
    subst hm
    rw [h.walk a, List.mem_cons, List.mem_flatMap] at hc
    obtain rfl | ⟨b, hb, hin⟩ := hc
    · exact ha
    · obtain ⟨i, hi⟩ := List.mem_iff_getElem?.mp hb
      exact ih (measure b) (h.down hi).2.2 (hstep a b ha i hi) hin rfl

/-- A walk comes to the children of whomever it comes to. -/
theorem walk_child {p c : α} (hp : p ∈ nav.walk a) {i : Nat} (hi : (nav.children p)[i]? = some c) :
    c ∈ nav.walk a := by
  induction hm : measure a using Nat.strongRecOn generalizing a with
  | ind m ih =>
    subst hm
    rw [h.walk a, List.mem_cons, List.mem_flatMap] at hp ⊢
    obtain rfl | ⟨b, hb, hin⟩ := hp
    · exact .inr ⟨c, List.mem_of_getElem? hi, h.mem_walk_self c⟩
    · obtain ⟨j, hj⟩ := List.mem_iff_getElem?.mp hb
      exact .inr ⟨b, hb, ih (measure b) (h.down hj).2.2 hin rfl⟩

/-- Whoever is met on the walk is its first place or a child of somebody who is met. -/
theorem up {c : α} (hc : c ∈ nav.walk a) :
    c = a ∨ ∃ p ∈ nav.walk a, ∃ i : Nat, (nav.children p)[i]? = some c := by
  refine (h.descend (motive := fun c => c ∈ nav.walk a ∧ (c = a ∨ ∃ p ∈ nav.walk a,
    ∃ i : Nat, (nav.children p)[i]? = some c)) ⟨h.mem_walk_self a, .inl rfl⟩ ?_ hc).2
  intro p c hp i hi
  exact ⟨h.walk_child hp.1 hi, .inr ⟨p, hp.1, i, hi⟩⟩

/-- A place with a parent is among its children, at its index. -/
theorem at_index {c p : α} (hc : c ∈ nav.walk root) (hp : nav.parent? c = some p) :
    ∃ i : Nat, nav.index? c = some i ∧ (nav.children p)[i]? = some c := by
  obtain rfl | ⟨q, -, i, hi⟩ := h.up hc
  · exact nomatch hp.symm.trans h.root.1
  · obtain ⟨hq, hindex, -⟩ := h.down hi
    cases hp.symm.trans hq
    exact ⟨i, hindex, hi⟩

/-- Only the root has no parent. -/
theorem parent_eq_none {c : α} (hc : c ∈ nav.walk root) : nav.parent? c = none ↔ c = root := by
  constructor
  · intro hnone
    obtain rfl | ⟨p, -, i, hi⟩ := h.up hc
    · rfl
    · exact nomatch hnone.symm.trans (h.down hi).1
  · rintro rfl
    exact h.root.1

/-- The next place is the one whose place before this is. -/
theorem next_iff_prev {b c : α} (hb : b ∈ nav.walk root) (hc : c ∈ nav.walk root) :
    nav.next? b = some c ↔ nav.prev? c = some b := by
  constructor
  · intro hnext
    cases hp : nav.parent? b with
    | none => exact nomatch hnext.symm.trans (h.alone hp).1
    | some p =>
      obtain ⟨i, hindex, hat⟩ := h.at_index hb hp
      obtain ⟨hparent, hafter, -⟩ := h.down ((h.next hp hindex).symm.trans hnext)
      exact (h.prev hparent hafter).trans hat
  · intro hprev
    cases hp : nav.parent? c with
    | none => exact nomatch hprev.symm.trans (h.alone hp).2
    | some p =>
      obtain ⟨i, hindex, hat⟩ := h.at_index hc hp
      cases i with
      | zero => exact nomatch hprev.symm.trans (h.prev_first hindex)
      | succ i =>
        obtain ⟨hparent, hbefore, -⟩ := h.down ((h.prev hp hindex).symm.trans hprev)
        exact (h.next hparent hbefore).trans hat

/-- There is no next place exactly behind the last child, and behind the root. -/
theorem next_eq_none {c : α} (hc : c ∈ nav.walk root) :
    nav.next? c = none ↔
      c = root ∨ ∃ p, nav.parent? c = some p ∧ (nav.children p).getLast? = some c := by
  cases hp : nav.parent? c with
  | none => exact ⟨fun _ => .inl ((h.parent_eq_none hc).mp hp), fun _ => (h.alone hp).1⟩
  | some p =>
    obtain ⟨i, hindex, hat⟩ := h.at_index hc hp
    have hroot : c ≠ root := fun heq => nomatch hp.symm.trans ((h.parent_eq_none hc).mpr heq)
    have hlt : i < (nav.children p).length := (List.getElem?_eq_some_iff.mp hat).1
    rw [h.next hp hindex, List.getElem?_eq_none_iff]
    constructor
    · intro hle
      refine .inr ⟨p, rfl, ?_⟩
      rw [List.getLast?_eq_getElem?, show (nav.children p).length - 1 = i by omega]
      exact hat
    · rintro (heq | ⟨q, hq, hlast⟩)
      · exact absurd heq hroot
      · cases hq
        rw [List.getLast?_eq_getElem?] at hlast
        cases hindex.symm.trans (h.down hlast).2.1
        omega

/-- There is no place before exactly before the first child, and before the root. -/
theorem prev_eq_none {c : α} (hc : c ∈ nav.walk root) :
    nav.prev? c = none ↔
      c = root ∨ ∃ p, nav.parent? c = some p ∧ (nav.children p).head? = some c := by
  cases hp : nav.parent? c with
  | none => exact ⟨fun _ => .inl ((h.parent_eq_none hc).mp hp), fun _ => (h.alone hp).2⟩
  | some p =>
    obtain ⟨i, hindex, hat⟩ := h.at_index hc hp
    have hroot : c ≠ root := fun heq => nomatch hp.symm.trans ((h.parent_eq_none hc).mpr heq)
    cases i with
    | zero =>
      refine ⟨fun _ => .inr ⟨p, rfl, ?_⟩, fun _ => h.prev_first hindex⟩
      rw [List.head?_eq_getElem?]
      exact hat
    | succ i =>
      have hlt : i + 1 < (nav.children p).length := (List.getElem?_eq_some_iff.mp hat).1
      constructor
      · intro hnone
        rw [h.prev hp hindex, List.getElem?_eq_none_iff] at hnone
        omega
      · rintro (heq | ⟨q, hq, hhead⟩)
        · exact absurd heq hroot
        · cases hq
          rw [List.head?_eq_getElem?] at hhead
          exact nomatch hindex.symm.trans (h.down hhead).2.1

/-- **The links agree with the tree.** -/
theorem agrees : nav.Agrees root where
  held c hc p i := by
    constructor
    · rintro ⟨hp, hi⟩
      obtain ⟨j, hj, hat⟩ := h.at_index hc hp
      cases hi.symm.trans hj
      exact hat
    · exact fun hat => ⟨(h.down hat).1, (h.down hat).2.1⟩
  parent_root _ hc := h.parent_eq_none hc
  inverse _ hb _ hc := h.next_iff_prev hb hc
  next_last _ hc := h.next_eq_none hc
  prev_first _ hc := h.prev_eq_none hc
  visits a _ l := h.visits_iff a l
  nodup a _ := ((h.visits_iff a _).mpr rfl).nodup

end Laws

/-! ## Mirrors -/

/-- The places below `root` stand for places of another tree, one for one and with all links. -/
structure Mirrors (nav : Navigation α) {β : Type} (nav' : Navigation β) (f : α → β) (root : α) :
    Prop where
  /-- Two places stand for two. -/
  distinct : ∀ a ∈ nav.walk root, ∀ b ∈ nav.walk root, f a = f b → a = b
  children : ∀ a ∈ nav.walk root, nav'.children (f a) = (nav.children a).map f
  parent : ∀ a ∈ nav.walk root, nav'.parent? (f a) = (nav.parent? a).map f
  index : ∀ a ∈ nav.walk root, nav'.index? (f a) = nav.index? a
  first : ∀ a ∈ nav.walk root, nav'.firstChild? (f a) = (nav.firstChild? a).map f
  next : ∀ a ∈ nav.walk root, nav'.next? (f a) = (nav.next? a).map f
  prev : ∀ a ∈ nav.walk root, nav'.prev? (f a) = (nav.prev? a).map f
  walk : ∀ a ∈ nav.walk root, nav'.walk (f a) = (nav.walk a).map f

namespace Laws

variable {root : α} {measure : α → Nat} {β : Type} {nav' : Navigation β} {measure' : β → Nat}
  {f : α → β}

/-- A child stands for a child, of the place that its parent stands for. -/
theorem mirrors_child (h' : nav'.Laws (f root) measure') {p c : α} {i : Nat}
    (hf : nav'.children (f p) = (nav.children p).map f) (hi : (nav.children p)[i]? = some c) :
    nav'.parent? (f c) = some (f p) ∧ nav'.index? (f c) = some i := by
  have hchild : (nav'.children (f p))[i]? = some (f c) := by
    rw [hf, List.getElem?_map, hi]
    rfl
  exact ⟨(h'.down hchild).1, (h'.down hchild).2.1⟩

variable (h : nav.Laws root measure) (h' : nav'.Laws (f root) measure')
  (hf : ∀ a ∈ nav.walk root, nav'.children (f a) = (nav.children a).map f)
include h h' hf

/-- Two places that stand for one have the same way up. -/
theorem mirrors_distinct {a b : α} (ha : a ∈ nav.walk root) (hb : b ∈ nav.walk root)
    (heq : f a = f b) : a = b := by
  refine (h.descend (motive := fun a => a ∈ nav.walk root ∧ ∀ b ∈ nav.walk root, f a = f b → a = b)
    ⟨h.mem_walk_self root, ?first⟩ ?below ha).2 b hb heq
  case first =>
    intro b hb heq
    obtain rfl | ⟨q, hq, j, hj⟩ := h.up hb
    · rfl
    · have hparent := (h'.mirrors_child (hf q hq) hj).1
      rw [← heq, h'.root.1] at hparent
      cases hparent
  case below =>
    rintro p c ⟨hp, hpeq⟩ i hi
    refine ⟨h.walk_child hp hi, fun b hb heq => ?_⟩
    have hc := h'.mirrors_child (hf p hp) hi
    obtain rfl | ⟨q, hq, j, hj⟩ := h.up hb
    · rw [heq, h'.root.1] at hc
      cases hc.1
    · have hb' := h'.mirrors_child (hf q hq) hj
      rw [← heq, hc.1, hc.2] at hb'
      obtain rfl : p = q := hpeq q hq (Option.some.inj hb'.1)
      obtain rfl : i = j := Option.some.inj hb'.2
      exact Option.some.inj (hi.symm.trans hj)

/-- **Where the children match, everything does.** -/
theorem mirrors : nav.Mirrors nav' f root where
  distinct _ ha _ hb := h.mirrors_distinct h' hf ha hb
  children := hf
  parent a ha := by
    obtain rfl | ⟨p, hp, i, hi⟩ := h.up ha
    · rw [h.root.1, h'.root.1]
      rfl
    · rw [(h.down hi).1, (h'.mirrors_child (hf p hp) hi).1]
      rfl
  index a ha := by
    obtain rfl | ⟨p, hp, i, hi⟩ := h.up ha
    · rw [h.root.2, h'.root.2]
    · rw [(h.down hi).2.1, (h'.mirrors_child (hf p hp) hi).2]
  first a ha := by rw [h.first, h'.first, hf a ha, List.getElem?_map]
  next a ha := by
    obtain rfl | ⟨p, hp, i, hi⟩ := h.up ha
    · rw [(h.alone h.root.1).1, (h'.alone h'.root.1).1]
      rfl
    · obtain ⟨hparent, hindex, -⟩ := h.down hi
      obtain ⟨hparent', hindex'⟩ := h'.mirrors_child (hf p hp) hi
      rw [h.next hparent hindex, h'.next hparent' hindex', hf p hp, List.getElem?_map]
  prev a ha := by
    obtain rfl | ⟨p, hp, i, hi⟩ := h.up ha
    · rw [(h.alone h.root.1).2, (h'.alone h'.root.1).2]
      rfl
    · obtain ⟨hparent, hindex, -⟩ := h.down hi
      obtain ⟨hparent', hindex'⟩ := h'.mirrors_child (hf p hp) hi
      cases i with
      | zero =>
        rw [h.prev_first hindex, h'.prev_first hindex']
        rfl
      | succ i => rw [h.prev hparent hindex, h'.prev hparent' hindex', hf p hp, List.getElem?_map]
  walk a ha := by
    induction hm : measure a using Nat.strongRecOn generalizing a with
    | ind m ih =>
      subst hm
      have hbelow : ∀ c ∈ nav.children a, nav'.walk (f c) = (nav.walk c).map f := by
        intro c hc
        obtain ⟨i, hi⟩ := List.mem_iff_getElem?.mp hc
        exact ih (measure c) (h.down hi).2.2 c (h.walk_child ha hi) rfl
      rw [h.walk a, h'.walk (f a), hf a ha, List.map_cons, List.map_flatMap, List.flatMap_map]
      exact congrArg (f a :: ·) (List.flatMap_congr hbelow)

end Laws

end Navigation

/-! ## Sites -/

namespace Site

/-- Sites with the ways that lead from one to another. -/
def navigation : Navigation Site where
  children := children
  parent? := parent?
  index? := index?
  firstChild? := firstChild?
  next? := next?
  prev? := prev?
  walk := walk

theorem getElem?_children (s : Site) (i : Nat) : s.children[i]? = s.child? i := by
  have hbelow : ∀ (ns : List Node) (k i : Nat), (s.below k ns)[i]? =
      ns[i]?.map fun n => ⟨n, (s.node, k + i) :: s.above⟩ := by
    intro ns
    induction ns with
    | nil => intro k i; rfl
    | cons n rest ih =>
      intro k i
      cases i with
      | zero => rfl
      | succ i =>
        rw [below, List.getElem?_cons_succ, ih, List.getElem?_cons_succ, Nat.add_right_comm,
          Nat.add_assoc]
  unfold children child?
  rw [hbelow]
  simp only [Nat.zero_add]

/-- The walk goes through a site and then through its children, from left to right. -/
theorem walk_eq (s : Site) : s.walk = s :: s.children.flatMap walk := by
  have hbelow : ∀ (ns : List Node) (k : Nat),
      walkBelow s.node s.above k ns = (s.below k ns).flatMap walk := by
    intro ns
    induction ns with
    | nil => intro k; rfl
    | cons n rest ih =>
      intro k
      rw [walkBelow, below, List.flatMap_cons, ih]
      rfl
  obtain ⟨⟨kind, lexeme, line, ns⟩, above⟩ := s
  show walkFrom above ⟨kind, lexeme, line, ns⟩ = _
  rw [walkFrom, hbelow ns 0]
  rfl

/-- **The sites of a tree obey the laws of navigation.** -/
theorem laws (n : Node) : navigation.Laws (root n) fun s => sizeOf s.node where
  down {p c i} hc := by
    have hchild : p.child? i = some c := (getElem?_children p i).symm.trans hc
    refine ⟨parent?_of_child? hchild, index?_of_child? hchild, ?_⟩
    obtain ⟨m, hm, rfl⟩ := Option.map_eq_some_iff.mp hchild
    exact Node.sizeOf_lt_of_mem (List.mem_of_getElem? hm)
  root := ⟨rfl, rfl⟩
  first a := (getElem?_children a 0).symm
  next {c p i} hp hi := by
    obtain ⟨m, above⟩ := c
    cases above with
    | nil => cases hp
    | cons step rest =>
      cases hp
      cases hi
      exact (getElem?_children _ _).symm
  prev {c p i} hp hi := by
    obtain ⟨m, above⟩ := c
    cases above with
    | nil => cases hp
    | cons step rest =>
      obtain ⟨parent, j⟩ := step
      cases hp
      cases hi
      exact (getElem?_children _ _).symm
  prev_first {c} hi := by
    obtain ⟨m, above⟩ := c
    cases above with
    | nil => cases hi
    | cons step rest =>
      obtain ⟨parent, j⟩ := step
      cases hi
      rfl
  alone {c} hp := by
    obtain ⟨m, above⟩ := c
    cases above with
    | nil => exact ⟨rfl, rfl⟩
    | cons step rest => cases hp
  walk := walk_eq

end Site

end Cadence
