/-
  SOURCES — where the tokens come from that a running script reads.

  A report finds the statement of an error by going up from the token where the error arose.  That
  token may have come a long way: from a variable, which a loop took from a list, into which some
  statement put it many steps before.

  1. **Inside** — a site is inside a statement if the way up meets one.  Children of a statement
     are, and so are all sites below them.
  2. **Sound arguments** — an argument is SOUND if its token is inside a statement, or if it is a
     number of 32 bits that was put into a list for an object: that one stands for itself, and is
     the only kind of token that is made while scripts run (`Argument.Sound`).
  3. **The invariant** (`World.Sound`) — trees consist of statements, cursors and return points are
     among the statements of a tree, what variables and lists hold is sound, and aliases are numbers
     of objects.  Here is one lemma for each function on scripts.
  4. **The crux** (`World.Sound.resolve`) — then whatever a chain of variables ends at is sound.  So
     a reading that fails does so inside a statement, but for one case: a number put into a list is
     too large to be read as a signed one (`toInt_intText`).
-/
import Cadence.Proofs.Numbers.Durations
import Cadence.Proofs.Numbers.Spelling
import Cadence.Proofs.Running.Present
import Cadence.World.Traceback

namespace Cadence

/-! ## Inside a statement -/

/-- The way up from a site meets a statement. -/
def Site.Inside (s : Site) : Prop := s.statement?.isSome = true

namespace Site

variable {s c : Site}

theorem inside_of_kind (h : s.kind = .statement) : s.Inside := by
  unfold Inside statement?
  rw [if_pos h]
  rfl

/-- What lies below a site inside a statement is inside it as well. -/
theorem Inside.below (h : s.Inside) {i : Nat} {ns : List Node} (hc : c ∈ s.below i ns) :
    c.Inside := by
  obtain ⟨k, n, -, rfl⟩ := mem_below.mp hc
  unfold Inside statement? at h ⊢
  -- the way up from a child meets its parent first
  split
  · rfl
  · show (if s.node.kind = .statement then some _ else enclosingIn s.above).isSome = true
    by_cases hs : s.node.kind = .statement
    · rw [if_pos hs]
      rfl
    · rw [if_neg hs]
      rwa [if_neg (show ¬ s.kind = .statement from hs)] at h

theorem Inside.children (h : s.Inside) (hc : c ∈ s.children) : c.Inside := h.below hc

theorem Inside.child? (h : s.Inside) {i : Nat} (hc : s.child? i = some c) : c.Inside := by
  obtain ⟨n, hn, rfl⟩ := Option.map_eq_some_iff.mp hc
  have hmem : (⟨n, (s.node, i) :: s.above⟩ : Site) ∈ s.children := by
    refine mem_below.mpr ⟨i, n, hn, ?_⟩
    rw [Nat.zero_add]
  exact h.children hmem

theorem Inside.firstChild? (h : s.Inside) (hc : s.firstChild? = some c) : c.Inside := h.child? hc

/-- What follows a child is below the parent as well. -/
theorem Inside.following (h : s.Inside) {first : Site} (hf : s.firstChild? = some first)
    (hc : c ∈ first.following) : c.Inside := by
  obtain ⟨n, hn, rfl⟩ := Option.map_eq_some_iff.mp hf
  exact h.below hc

end Site

/-! ## Statements of a tree -/

/-- All that stands directly below the root of a tree are statements. -/
def Node.OfStatements (root : Node) : Prop := ∀ n ∈ root.children, n.kind = .statement

/-- A statement is one of a tree of statements. -/
def Statement.Upright (t : Statement) : Prop := ∃ T : Tree, T.root.OfStatements ∧ T.Has t

namespace Statement.Upright

variable {t u : Statement}

theorem kind (h : t.Upright) : t.site.kind = .statement := by
  obtain ⟨T, hT, k, hk⟩ := h
  obtain ⟨n, hn, rfl⟩ := Tree.statement?_eq_some.mp hk
  exact hT n (List.mem_of_getElem? hn)

theorem inside (h : t.Upright) : t.site.Inside := Site.inside_of_kind h.kind

theorem next (h : t.Upright) (hu : t.next? = some u) : u.Upright := by
  obtain ⟨T, hT, ht⟩ := h
  exact ⟨T, hT, ht.next hu⟩

/-- The first statement of the same tree. -/
theorem first (h : t.Upright)
    (hu : (t.site.parent?.bind Site.firstChild?).map (fun site => { t with site }) = some u) :
    u.Upright := by
  obtain ⟨T, hT, k, hk⟩ := h
  obtain ⟨n, -, rfl⟩ := Tree.statement?_eq_some.mp hk
  obtain ⟨site, hsite, rfl⟩ := Option.map_eq_some_iff.mp hu
  refine ⟨T, hT, 0, ?_⟩
  have hfirst : (Site.root T.root).firstChild? = some site := hsite
  obtain ⟨m, hm, rfl⟩ := Option.map_eq_some_iff.mp hfirst
  exact Tree.statement?_eq_some.mpr ⟨m, hm, rfl⟩

end Statement.Upright

/-! ## Sound arguments -/

/-- The number of an object: an unsigned number of 32 bits. -/
def Value.IsObject (v : Value) : Prop := ∃ n : Nat, n < 2 ^ 32 ∧ v = .int n

/-- The token that stands in a list for the number of an object. -/
def mintedNode (n : Nat) (line : Int) : Node where
  kind := .serial
  lexeme := some (intText n)
  line

/-- **The token of an argument is inside a statement, or it was made for the number of an
object.** -/
inductive Argument.Sound (a : Argument) : Prop where
  /-- The token is inside a statement. -/
  | inside (token : a.site.Inside)
  /-- The token was made for a number. -/
  | minted {n : Nat} {line : Int} (fits : n < 2 ^ 32) (token : a.site = .root (mintedNode n line))

/-- The variables of some frames hold sound arguments. -/
def Frames.Sound (c : Frames) : Prop := ∀ f ∈ c.toList, f.vars.All Argument.Sound

/-- What a script refers to and what its variables hold is sound. -/
structure Script.Sound {ι : Type} (s : Script ι) : Prop where
  /-- The tree consists of statements. -/
  tree : s.root.OfStatements
  /-- The cursor is on a statement of such a tree. -/
  cursor : ∀ t, s.cursor = some t → t.Upright
  /-- So are the return points. -/
  returns : ∀ t ∈ s.returns, t.Upright
  /-- The variables hold sound arguments. -/
  frames : s.frames.Sound

/-- **The invariant**: every token that can be read is sound. -/
structure World.Sound {σ ι : Type} (w : World σ ι) : Prop where
  /-- The scripts are sound. -/
  scripts : ∀ i, (w.script i).Sound
  /-- The entries of the lists are sound. -/
  lists : w.lists.All fun items => ∀ a ∈ items, a.Sound
  /-- Aliases are numbers of objects. -/
  aliases : w.aliases.All Value.IsObject

/-! ## Frames -/

namespace Frames.Sound

variable {c d : Frames}

/-- Fewer frames hold less. -/
theorem mono (h : c.Sound) (hd : ∀ f ∈ d.toList, f ∈ c.toList) : d.Sound :=
  fun f hf => h f (hd f hf)

theorem push (h : c.Sound) (t : Statement) : (c.push t).Sound := forall_push h .empty

theorem mapTop (h : c.Sound) {f : Frame → Frame}
    (hf : ∀ g : Frame, g.vars.All Argument.Sound → (f g).vars.All Argument.Sound) :
    (c.mapTop f).Sound :=
  forall_mapTop h (hf c.top)

theorem pop (h : c.Sound) : c.pop.Sound := h.mono (closes_pop c)

theorem bottom (h : c.Sound) : c.bottom.Sound := h.mono (closes_bottom c)

theorem unwind (h : c.Sound) (t : Statement) (inclusive : Bool) :
    (c.unwind t inclusive).Sound := h.mono (closes_unwind t inclusive c)

end Frames.Sound

/-! ## Scripts -/

namespace Script.Sound

variable {ι : Type} {s s' : Script ι}

theorem upright_of_has (h : s.Sound) {t : Statement} (ht : s.tree.Has t) : t.Upright :=
  ⟨s.tree, h.tree, ht⟩

/-- The cursor may go to any upright statement. -/
theorem place (h : s.Sound) {c : Option Statement} (hc : ∀ t, c = some t → t.Upright) :
    { s with cursor := c }.Sound :=
  ⟨h.tree, hc, h.returns, h.frames⟩

theorem frame (h : s.Sound) {c : Frames} (hc : c.Sound) : { s with frames := c }.Sound :=
  ⟨h.tree, h.cursor, h.returns, hc⟩

/-- What a script has noted is not read as an argument. -/
theorem noted (h : s.Sound) (hs : s'.course = s.course) : s'.Sound := by
  have hcourse : s.course.Sound := ⟨h.tree, h.cursor, h.returns, h.frames⟩
  rw [← hs] at hcourse
  exact ⟨hcourse.tree, hcourse.cursor, hcourse.returns, hcourse.frames⟩

/-- A suspension refers to nothing. -/
theorem suspends (h : s.Sound) {f : Script ι → Script ι} (hf : Suspends f) : (f s).Sound := by
  obtain ⟨activity, deadline, callback, hs⟩ := hf s
  rw [hs]
  exact ⟨h.tree, h.cursor, h.returns, h.frames⟩

theorem clearTimeout (h : s.Sound) : s.clearTimeout.Sound := h.suspends suspends_clearTimeout

theorem advance (h : s.Sound) : s.advance.Sound := by
  refine h.clearTimeout.place fun t ht => ?_
  obtain ⟨u, hu, hnext⟩ := Option.bind_eq_some_iff.mp ht
  exact (h.clearTimeout.cursor u hu).next hnext

theorem gotoLine? (h : s.Sound) {line : Int} (hs : s.gotoLine? line = some s') : s'.Sound := by
  obtain ⟨t, ht, rfl⟩ := Option.map_eq_some_iff.mp hs
  refine ⟨h.tree, ?_, ?_, h.frames⟩
  · rintro _ ⟨⟩
    exact h.upright_of_has (has_of_statementOn? ht).1
  · intro u hu
    rcases List.mem_append.mp hu with hu | hu
    · exact h.cursor u (Option.mem_toList.mp hu)
    · exact h.returns u hu

theorem returnFromGoto (h : s.Sound) : s.returnFromGoto.Sound := by
  unfold Script.returnFromGoto
  split
  · exact h
  · next t rest hr =>
    refine ⟨h.tree, ?_, ?_, h.frames⟩
    · rintro _ ⟨⟩
      exact h.returns t (hr ▸ List.mem_cons_self)
    · intro u hu
      exact h.returns u (hr ▸ List.mem_cons_of_mem t hu)

theorem setVar (h : s.Sound) {a : Argument} (ha : a.Sound) (name : String) :
    (s.setVar name a).Sound :=
  h.frame (h.frames.mapTop fun _ hg => hg.insert ha name)

theorem clearVar (h : s.Sound) (name : String) : (s.clearVar name).Sound :=
  h.frame (h.frames.mapTop fun _ hg => hg.erase name)

/-- A single frame without variables. -/
theorem outermost : ({} : Frames).Sound := by
  intro f hf
  obtain rfl := List.mem_singleton.mp hf
  exact .empty

theorem reset (h : s.Sound) : s.reset.Sound :=
  ⟨h.tree, fun _ ht => h.upright_of_has (has_of_statementAt? ht), nofun, outermost⟩

theorem loadTree (s : Script ι) {root : Node} (hroot : root.OfStatements) (load : Nat) :
    { s.loadTree root load with returns := [] }.Sound :=
  ⟨hroot, fun _ ht => ⟨_, hroot, has_of_statementAt? (s := s.loadTree root load) ht⟩, nofun,
    outermost⟩

theorem replace (s : Script ι) {root : Node} (hroot : root.OfStatements) :
    (s.replace root).Sound := by
  have h := loadTree s hroot (s.load + 1)
  exact ⟨h.tree, h.cursor, nofun, h.frames⟩

theorem start (name : String) {root : Node} (hroot : root.OfStatements) :
    (Script.start (ι := ι) name root).Sound := by
  have h := loadTree ({ name } : Script ι) hroot 0
  exact ⟨h.tree, h.cursor, nofun, h.frames⟩

/-- Whatever suspends the script is gone. -/
theorem release (h : s.Sound) : s.release.Sound := h.suspends fun _ => ⟨_, _, _, rfl⟩

theorem popFrame (h : s.Sound) : s.popFrame.Sound := h.frame h.frames.pop

/-- Where there is no script, there is nothing to read. -/
theorem default : (Inhabited.default : Script ι).Sound :=
  ⟨nofun, nofun, nofun, outermost⟩

/-- What a name is bound to is sound. -/
theorem lookup (h : s.Sound) {name : String} {a : Argument} (ha : s.lookup name = some a) :
    a.Sound := by
  obtain ⟨vars, hvars, hget⟩ := Scope.exists_of_lookup ha
  obtain ⟨f, hf, rfl⟩ := List.mem_map.mp hvars
  exact h.frames f hf name a hget

end Script.Sound

/-! ## The end of a chain -/

section

variable {σ ι : Type} {w : World σ ι}

theorem World.Sound.follow? (h : w.Sound) {steps : Nat} {a e : Argument} (ha : a.Sound)
    (he : w.follow? steps a = some e) : e.Sound := by
  induction steps generalizing a with
  | zero => cases he
  | succ steps ih =>
    unfold World.follow? at he
    split at he
    · cases he
      exact ha
    · next b hb =>
      refine ih ?_ he
      unfold World.boundTo? at hb
      split at hb
      · cases hb
      · split at hb
        · cases hb
        · next b' hlook =>
          split at hb
          · cases hb
          · cases hb
            exact (h.scripts a.owner).lookup hlook

/-- **The crux: a chain of variables ends at a sound argument.** -/
theorem World.Sound.resolve (h : w.Sound) {a e : Argument} (ha : a.Sound)
    (he : w.resolve a = .ok e) : e.Sound := by
  unfold World.resolve at he
  split at he
  · next e' hfollow =>
    cases he
    exact h.follow? ha hfollow
  · cases he

end

/-! ## Numbers of objects as texts -/

section

open Literal

variable {n : Nat}

/-- The number of an object is read as an unsigned number. -/
theorem toUInt_intText (h : n < 2 ^ 32) (site : Option Site) :
    toUInt (some (intText n)) site = .ok n := by
  have hholds : uint32.Holds n := by
    rw [Width.holds_of_unsigned rfl]
    show 0 ≤ (n : Int) ∧ (n : Int) < 2 ^ 32
    omega
  rcases toWhole_intText (writable_of_lt (n := n) h) uint32 .uint site with ⟨-, hok⟩ | ⟨hno, -⟩
  · exact hok
  · exact absurd hholds hno

/-- It is read as a signed number only if it is below one half of them. -/
theorem toInt_intText (h : n < 2 ^ 32) (site : Option Site) :
    toInt (some (intText n)) site = .ok n ∨
      2 ^ 31 ≤ n ∧
        toInt (some (intText n)) site =
          .error (.at site (.notConvertible .int (some (intText n)))) := by
  have hholds : int32.Holds n ↔ n < 2 ^ 31 := by
    show -2 ^ 31 ≤ (n : Int) ∧ (n : Int) < 2 ^ 31 ↔ n < 2 ^ 31
    omega
  rcases toWhole_intText (writable_of_lt (n := n) h) int32 .int site with ⟨-, hok⟩ | ⟨hno, herror⟩
  · exact .inl hok
  · rw [hholds] at hno
    exact .inr ⟨Nat.le_of_not_lt hno, herror⟩

end

end Cadence
