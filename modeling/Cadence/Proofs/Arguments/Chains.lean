/-
  CHAINS — what an argument means, whoever asks.

  The text of an argument may be bound to another argument, perhaps of another script, whose text
  may be bound again.  Every reading of an argument follows this chain first and then looks at its
  last text.  The search counts its steps; here the chain is described without a count.

  1. **One step** — `World.Binds`: the nearest frame of the argument's OWN script binds its text to
     an argument with another text.  A text that is bound to itself is not bound.
  2. **The chain** — `World.Ends w a e`: from `a` the steps lead to `e`, and from `e` nowhere.
     `World.Acyclic`: no argument of the chain comes back to itself.
  3. **The crux** (`follow?_ne_none`) — a search that does not end has met more texts than there
     are bindings, so it has met one of them twice (the pigeonhole), and from there the chain comes
     back.  So the chains that end are those without a circle (`acyclic_iff_exists_ends`).
  4. **The headline** (`readings_of_acyclic`) — all readings of an argument are readings of the last
     text of its chain.  Only the number of an object asks for one thing more: what the last text
     is an alias for (`Consulted`: the computed alias first, then the table).
-/
import Mathlib.Data.List.Perm.Subperm
import Mathlib.Logic.Relation
import Cadence.Proofs.Running.Resting

namespace Cadence

open Relation ScriptM

namespace World

variable {σ ι : Type}

/-! ## One step and the chain -/

/-- **One step**: in the script of `a`, the text of `a` is bound to `b`, and `b` has another
text. -/
def Binds (w : World σ ι) (a b : Argument) : Prop :=
  ∃ name, a.lexeme = some name ∧ (w.script a.owner).lookup name = some b ∧ b.lexeme ≠ some name

/-- The steps from `a` lead to `e`, and no step leads on. -/
def Ends (w : World σ ι) (a e : Argument) : Prop :=
  ReflTransGen w.Binds a e ∧ ∀ b, ¬ w.Binds e b

/-- No argument that the steps from `a` lead to comes back to itself. -/
def Acyclic (w : World σ ι) (a : Argument) : Prop :=
  ∀ b, ReflTransGen w.Binds a b → ¬ TransGen w.Binds b b

variable {w : World σ ι} {a b c e : Argument}

theorem boundTo?_eq_some_iff : w.boundTo? a = some b ↔ w.Binds a b := by
  unfold boundTo?
  constructor
  · intro h
    split at h
    · cases h
    · next name hname =>
      split at h
      · cases h
      · next b' hlook =>
        split at h
        · cases h
        · next hne =>
          cases h
          exact ⟨name, hname, hlook, hne⟩
  · rintro ⟨name, hname, hlook, hne⟩
    rw [hname]
    simp only [hlook]
    rw [if_neg hne]

theorem boundTo?_eq_none_iff : w.boundTo? a = none ↔ ∀ b, ¬ w.Binds a b := by
  rw [Option.eq_none_iff_forall_ne_some]
  simp only [ne_eq, boundTo?_eq_some_iff]

/-- A text is bound to one argument at most. -/
theorem Binds.unique (hb : w.Binds a b) (hc : w.Binds a c) : b = c := by
  rw [← boundTo?_eq_some_iff] at hb hc
  exact Option.some.inj (hb.symm.trans hc)

/-- A chain has one end at most. -/
theorem Ends.unique {e' : Argument} (h : w.Ends a e) (h' : w.Ends a e') : e = e' := by
  have stays : ∀ {x y}, (∀ b, ¬ w.Binds x b) → ReflTransGen w.Binds x y → x = y := by
    intro x y hx hxy
    rcases ReflTransGen.cases_head hxy with rfl | ⟨z, hz, -⟩
    · rfl
    · exact absurd hz (hx z)
  have hright : Relator.RightUnique w.Binds := fun _ _ _ hb hc => hb.unique hc
  rcases ReflTransGen.total_of_right_unique hright h.1 h'.1 with hee | hee
  · exact stays h.2 hee
  · exact (stays h'.2 hee).symm

/-- A chain that ends has no circle: the steps from a circle never leave it. -/
theorem Ends.acyclic (h : w.Ends a e) : w.Acyclic a := by
  obtain ⟨hsteps, hlast⟩ := h
  induction hsteps using ReflTransGen.head_induction_on with
  | refl =>
    intro b hb hcircle
    rcases ReflTransGen.cases_head hb with rfl | ⟨x, hx, -⟩
    · obtain ⟨x, hx, -⟩ := TransGen.head'_iff.mp hcircle
      exact hlast x hx
    · exact hlast x hx
  | head hac _ ih =>
    intro b hb hcircle
    rcases ReflTransGen.cases_head hb with rfl | ⟨x, hx, hxb⟩
    · -- the circle goes on through the next argument, which has none
      obtain ⟨x, hx, hxa⟩ := TransGen.head'_iff.mp hcircle
      obtain rfl := hx.unique hac
      exact ih x .refl (TransGen.tail' hxa hac)
    · obtain rfl := hx.unique hac
      exact ih b hxb hcircle

/-! ## The search meets no binding twice -/

/-- The arguments that the search meets in a number of steps. -/
def trail (w : World σ ι) : (steps : Nat) → Argument → List Argument
  | 0, _ => []
  | steps + 1, a =>
    a :: match w.boundTo? a with
      | none => []
      | some b => w.trail steps b

/-- The texts that a script binds, with its number. -/
def boundBy (j : Nat) (s : Script ι) : List (Nat × Option String) :=
  s.frames.bindings.flatMap fun t => t.names.map fun name => (j, some name)

/-- All texts that are bound, each with the number of the script that binds it. -/
def bound (w : World σ ι) : List (Nat × Option String) :=
  w.scripts.toList.zipIdx.flatMap fun s => boundBy s.2 s.1

/-- What decides the next step from an argument: its script and its text. -/
def place (a : Argument) : Nat × Option String := (a.owner, a.lexeme)

/-- Arguments at one place are bound to the same. -/
theorem Binds.congr (h : place a = place c) (hb : w.Binds a b) : w.Binds c b := by
  obtain ⟨name, hname, hlook, hne⟩ := hb
  obtain ⟨howner, hlexeme⟩ := Prod.mk.inj h
  exact ⟨name, hlexeme ▸ hname, howner ▸ hlook, hne⟩

theorem length_boundBy (j : Nat) (s : Script ι) : (boundBy j s).length = bindingsOf s := by
  rw [boundBy, List.length_flatMap, bindingsOf, List.sum_eq_foldr]
  simp only [List.length_map, Table.names]
  rfl

/-- There are as many bound texts as bindings. -/
theorem length_bound (w : World σ ι) : w.bound.length = w.bindingCount := by
  have hscripts : w.scripts.toList.zipIdx.map (fun s => bindingsOf s.1) =
      w.scripts.toList.map bindingsOf := by
    have hfst := congrArg (List.map bindingsOf) (List.zipIdx_map_fst 0 w.scripts.toList)
    rwa [List.map_map] at hfst
  rw [bound, List.length_flatMap, bindingCount, List.sum_eq_foldr]
  simp only [length_boundBy]
  rw [hscripts]

theorem mem_boundBy {s : Script ι} {name : String} (h : s.lookup name = some b) (j : Nat) :
    (j, some name) ∈ boundBy j s := by
  obtain ⟨f, hf, hget⟩ := Scope.exists_of_lookup h
  exact List.mem_flatMap.mpr ⟨f, hf, List.mem_map.mpr ⟨name, Table.mem_names hget, rfl⟩⟩

/-- Where a step leads on, its text is one of those that are bound. -/
theorem place_mem_bound (h : w.Binds a b) : place a ∈ w.bound := by
  obtain ⟨name, hname, hlook, -⟩ := h
  have howner : a.owner < w.scripts.size := by
    rcases Nat.lt_or_ge a.owner w.scripts.size with hlt | hge
    · exact hlt
    · have hnew : w.script a.owner = default := by
        unfold World.script
        rw [Array.getD_eq_getD_getElem?, Array.getElem?_eq_none hge]
        rfl
      rw [hnew] at hlook
      cases hlook
  have hscript : (w.script a.owner, a.owner) ∈ w.scripts.toList.zipIdx := by
    rw [List.mk_mem_zipIdx_iff_getElem?, Array.getElem?_toList]
    unfold World.script
    rw [Array.getD_eq_getD_getElem?, Array.getElem?_eq_getElem howner]
    rfl
  refine List.mem_flatMap.mpr ⟨_, hscript, ?_⟩
  rw [place, hname]
  exact mem_boundBy hlook a.owner

/-- Where the search is not over after its steps, it has met an argument in each of them, and all
of these led on. -/
theorem trail_of_follow?_eq_none {steps : Nat} (h : w.follow? steps a = none) :
    (w.trail steps a).length = steps ∧ ∀ x ∈ w.trail steps a, ∃ y, w.Binds x y := by
  induction steps generalizing a with
  | zero => exact ⟨rfl, fun x hx => nomatch hx⟩
  | succ steps ih =>
    unfold follow? at h
    unfold trail
    cases hb : w.boundTo? a with
    | none =>
      rw [hb] at h
      cases h
    | some b =>
      rw [hb] at h
      obtain ⟨hlength, hon⟩ := ih h
      refine ⟨congrArg (· + 1) hlength, ?_⟩
      intro x hx
      rcases List.mem_cons.mp hx with rfl | hx
      · exact ⟨b, boundTo?_eq_some_iff.mp hb⟩
      · exact hon x hx

theorem reaches_of_mem_trail {steps : Nat} {x : Argument} (h : x ∈ w.trail steps a) :
    ReflTransGen w.Binds a x := by
  induction steps generalizing a with
  | zero => cases h
  | succ steps ih =>
    unfold trail at h
    rcases List.mem_cons.mp h with rfl | h
    · exact .refl
    · cases hb : w.boundTo? a with
      | none =>
        rw [hb] at h
        cases h
      | some b =>
        rw [hb] at h
        exact .head (boundTo?_eq_some_iff.mp hb) (ih h)

/-- Of two arguments of the trail, the earlier leads to the later. -/
theorem pairwise_trail (w : World σ ι) (steps : Nat) (a : Argument) :
    (w.trail steps a).Pairwise (TransGen w.Binds) := by
  induction steps generalizing a with
  | zero => exact .nil
  | succ steps ih =>
    unfold trail
    cases hb : w.boundTo? a with
    | none => exact List.pairwise_singleton _ a
    | some b =>
      refine .cons ?_ (ih b)
      intro x hx
      exact .head' (boundTo?_eq_some_iff.mp hb) (reaches_of_mem_trail hx)

/-- Without a circle, no two arguments of the trail stand at one place: behind both, the chain would
go on alike, and so come back. -/
theorem nodup_trail (h : w.Acyclic a) {steps : Nat}
    (hon : ∀ x ∈ w.trail steps a, ∃ y, w.Binds x y) :
    ((w.trail steps a).map place).Nodup := by
  rw [List.Nodup, List.pairwise_map]
  refine (pairwise_trail w steps a).imp_of_mem ?_
  intro x y hx _ hxy hplace
  obtain ⟨z, hz⟩ := hon x hx
  have hyz : w.Binds y z := hz.congr hplace
  -- the step from the earlier one is a step from the later one as well
  have hcircle : TransGen w.Binds z z := by
    obtain ⟨z', hz', hzy⟩ := TransGen.head'_iff.mp hxy
    obtain rfl := hz'.unique hz
    exact .tail' hzy hyz
  exact h z ((reaches_of_mem_trail hx).tail hz) hcircle

/-- **The crux: without a circle the search is over before it has used its steps**, for there are
fewer bindings than steps. -/
theorem follow?_ne_none (h : w.Acyclic a) : w.follow? (w.bindingCount + 1) a ≠ none := by
  intro hnone
  obtain ⟨hlength, hon⟩ := trail_of_follow?_eq_none hnone
  -- all that were met are bound, and there are more of them than bindings
  have hsub : (w.trail (w.bindingCount + 1) a).map place ⊆ w.bound := by
    intro p hp
    obtain ⟨x, hx, rfl⟩ := List.mem_map.mp hp
    obtain ⟨y, hy⟩ := hon x hx
    exact place_mem_bound hy
  have hle := ((nodup_trail h hon).subperm hsub).length_le
  rw [List.length_map, hlength, length_bound] at hle
  omega

/-- Where the search is over, it has found the end of the chain. -/
theorem ends_of_follow? {steps : Nat} (h : w.follow? steps a = some e) : w.Ends a e := by
  induction steps generalizing a with
  | zero => cases h
  | succ steps ih =>
    unfold follow? at h
    cases hb : w.boundTo? a with
    | none =>
      rw [hb] at h
      cases h
      exact ⟨.refl, boundTo?_eq_none_iff.mp hb⟩
    | some b =>
      rw [hb] at h
      obtain ⟨hsteps, hlast⟩ := ih h
      exact ⟨.head (boundTo?_eq_some_iff.mp hb) hsteps, hlast⟩

/-- **The chains that end are those without a circle.** -/
theorem acyclic_iff_exists_ends : w.Acyclic a ↔ ∃ e, w.Ends a e := by
  constructor
  · intro h
    obtain ⟨e, he⟩ := Option.ne_none_iff_exists'.mp (follow?_ne_none h)
    exact ⟨e, ends_of_follow? he⟩
  · rintro ⟨e, he⟩
    exact he.acyclic

/-- To resolve an argument is to find the end of its chain. -/
theorem resolve_eq_ok_iff : w.resolve a = .ok e ↔ w.Ends a e := by
  constructor
  · intro h
    unfold resolve at h
    split at h
    · next e' he =>
      cases h
      exact ends_of_follow? he
    · cases h
  · intro h
    obtain ⟨e', he'⟩ := Option.ne_none_iff_exists'.mp (follow?_ne_none h.acyclic)
    unfold resolve
    rw [he', (ends_of_follow? he').unique h]

/-! ## Readings -/

/-- A reading fails for the lack of a text at the end of the chain. -/
theorem resolveText_of_absent (h : w.Ends a e) (ht : e.lexeme = none) (reading : Reading) :
    w.resolveText reading a = .error (.at (some e.site) (.absent reading)) := by
  unfold resolveText
  rw [resolve_eq_ok_iff.mpr h]
  simp only [ht]

/-- A reading finds the text at the end of the chain. -/
theorem resolveText_of_ends (h : w.Ends a e) {t : String} (ht : e.lexeme = some t)
    (reading : Reading) : w.resolveText reading a = .ok (t, e.site) := by
  unfold resolveText
  rw [resolve_eq_ok_iff.mpr h]
  simp only [ht]

theorem read_of_absent (h : w.Ends a e) (ht : e.lexeme = none) {α : Type} (reading : Reading)
    (convert : Option String → Option Site → Except Fault α) :
    w.read reading convert a = .error (.at (some e.site) (.absent reading)) := by
  unfold read
  rw [resolveText_of_absent h ht]

theorem read_of_ends (h : w.Ends a e) {t : String} (ht : e.lexeme = some t) {α : Type}
    (reading : Reading) (convert : Option String → Option Site → Except Fault α) :
    w.read reading convert a = convert (some t) (some e.site) := by
  unfold read
  rw [resolveText_of_ends h ht]

end World

/-! ## Aliases -/

section Aliases

variable {σ ι : Type}

/-- What a text is an alias for, and the world after that was asked.  The computed alias is asked
first; the table counts where there is none or it declines, as it stands by then.  No value means
that the text is no alias. -/
inductive Consulted (host : Host σ ι) (t : String) (w : World σ ι) : Value → World σ ι → Prop where
  /-- A computed alias answers. -/
  | computed {token : ι} {v : Value} {w' : World σ ι}
      (known : w.registry.aliases.get? t = some token)
      (answer : host.computedAlias token t w = .ok v w') (some : v ≠ .null) :
    Consulted host t w v w'
  /-- A computed alias declines. -/
  | declined {token : ι} {w' : World σ ι} (known : w.registry.aliases.get? t = some token)
      (answer : host.computedAlias token t w = .ok .null w') :
    Consulted host t w ((w'.aliases.get? t).getD .null) w'
  /-- There is no computed alias. -/
  | stored (unknown : w.registry.aliases.get? t = none) :
    Consulted host t w ((w.aliases.get? t).getD .null) w

variable {host : Host σ ι} {t : String} {w w' : World σ ι} {v : Value}

theorem getAlias_of_consulted (h : Consulted host t w v w') : getAlias host t w = .ok v w' := by
  unfold getAlias
  cases h with
  | computed known answer some =>
    rw [get_bind, known]
    simp only
    rw [bind_of_ok answer]
    cases v with
    | null => exact absurd rfl some
    | bool _ => rfl
    | int _ => rfl
    | real _ => rfl
    | text _ => rfl
  | declined known answer =>
    rw [get_bind, known]
    simp only
    rw [bind_of_ok answer]
    rfl
  | stored unknown =>
    rw [get_bind, unknown]
    rfl

/-- A text is asked for as an alias, or the computed alias fails. -/
theorem consulted_or_fails (host : Host σ ι) (t : String) (w : World σ ι) :
    (∃ v w', Consulted host t w v w') ∨
      ∃ token fault w', w.registry.aliases.get? t = some token ∧
        host.computedAlias token t w = .error fault w' ∧ getAlias host t w = .error fault w' := by
  cases known : w.registry.aliases.get? t with
  | none => exact .inl ⟨_, _, .stored known⟩
  | some token =>
    cases answer : host.computedAlias token t w with
    | error fault w' =>
      refine .inr ⟨token, fault, w', rfl, answer, ?_⟩
      unfold getAlias
      rw [get_bind, known]
      simp only
      rw [bind_of_error answer]
    | ok v w' =>
      refine .inl ?_
      cases v with
      | null => exact ⟨_, _, .declined known answer⟩
      | bool b => exact ⟨_, _, .computed known answer (by rintro ⟨⟩)⟩
      | int n => exact ⟨_, _, .computed known answer (by rintro ⟨⟩)⟩
      | real x => exact ⟨_, _, .computed known answer (by rintro ⟨⟩)⟩
      | text s => exact ⟨_, _, .computed known answer (by rintro ⟨⟩)⟩

/-! ## The number of an object -/

variable {a e : Argument}

theorem asSerial_of_ends (host : Host σ ι) (h : w.Ends a e) (ht : e.lexeme = some t) :
    asSerial host a w = (do
      match ← getAlias host t with
      | .null => return .int (← lift (Literal.toUInt (some t) (some e.site)))
      | v => return v : ScriptM σ ι Value) w := by
  have hread : reading (fun w => w.resolveText .serial a) w = .ok (t, e.site) w := by
    rw [reading_apply, World.resolveText_of_ends h ht]
  unfold asSerial
  exact bind_of_ok hread

theorem isSerial_of_ends (host : Host σ ι) (h : w.Ends a e) (ht : e.lexeme = some t) :
    isSerial host a w = (do
      match ← getAlias host t with
      | .null =>
        match Literal.toUInt (some t) (some e.site) with
        | .ok _ => return true
        | .error (.script _) => return false
        | .error fault => throw fault
      | _ => return true : ScriptM σ ι Bool) w := by
  have hread : reading (fun w => w.resolve a) w = .ok e w := by
    rw [reading_apply, World.resolve_eq_ok_iff.mpr h]
  unfold isSerial
  rw [bind_of_ok hread]
  generalize e.lexeme = o at ht ⊢
  subst ht
  rfl

/-- An alias is the number itself. -/
theorem asSerial_of_alias (h : w.Ends a e) (ht : e.lexeme = some t)
    (hv : Consulted host t w v w') (hne : v ≠ .null) :
    asSerial host a w = .ok v w' ∧ isSerial host a w = .ok true w' := by
  rw [asSerial_of_ends host h ht, isSerial_of_ends host h ht,
    bind_of_ok (getAlias_of_consulted hv), bind_of_ok (getAlias_of_consulted hv)]
  cases v with
  | null => exact absurd rfl hne
  | bool _ => exact ⟨rfl, rfl⟩
  | int _ => exact ⟨rfl, rfl⟩
  | real _ => exact ⟨rfl, rfl⟩
  | text _ => exact ⟨rfl, rfl⟩

/-- What is no alias is read as an unsigned number of 32 bits. -/
theorem asSerial_of_no_alias (h : w.Ends a e) (ht : e.lexeme = some t)
    (hv : Consulted host t w .null w') :
    asSerial host a w = (match Literal.toUInt (some t) (some e.site) with
      | .ok n => .ok (.int n) w'
      | .error fault => .error fault w') ∧
    isSerial host a w = (match Literal.toUInt (some t) (some e.site) with
      | .ok _ => .ok true w'
      | .error (.script _) => .ok false w'
      | .error fault => .error fault w') := by
  rw [asSerial_of_ends host h ht, isSerial_of_ends host h ht,
    bind_of_ok (getAlias_of_consulted hv), bind_of_ok (getAlias_of_consulted hv)]
  rcases Literal.toUInt (some t) (some e.site) with (_ | _) | _ <;> exact ⟨rfl, rfl⟩

theorem asSerial_of_failing (h : w.Ends a e) (ht : e.lexeme = some t) {fault : Fault}
    (hf : getAlias host t w = .error fault w') :
    asSerial host a w = .error fault w' ∧ isSerial host a w = .error fault w' := by
  rw [asSerial_of_ends host h ht, isSerial_of_ends host h ht, bind_of_error hf, bind_of_error hf]
  exact ⟨rfl, rfl⟩

theorem asSerial_of_absent (host : Host σ ι) (h : w.Ends a e) (ht : e.lexeme = none) :
    asSerial host a w = .error (.at (some e.site) (.absent .serial)) w ∧
      isSerial host a w = .ok false w := by
  have hread : reading (fun w => w.resolveText .serial a) w =
      .error (.at (some e.site) (.absent .serial)) w := by
    rw [reading_apply, World.resolveText_of_absent h ht]
  have hres : reading (fun w => w.resolve a) w = .ok e w := by
    rw [reading_apply, World.resolve_eq_ok_iff.mpr h]
  constructor
  · unfold asSerial
    rw [bind_of_error hread]
  · unfold isSerial
    rw [bind_of_ok hres, ht]
    rfl

end Aliases

section Headline

variable {σ ι : Type}

/-- **All readings follow one chain.**  The chain of an argument without a circle has one end.
Without a text there, every reading is refused by a script error at the end.  With a text `t`,
that is what the argument is as a text; as a number, a real or a truth value the argument is what
`t` is, and is refused where `t` is.  The number of an object is what `t` is an alias for, where it
is one, and otherwise what `t` is as an unsigned number of 32 bits; and whether there is such a
number is asked the same way. -/
theorem readings_of_acyclic (host : Host σ ι) (w : World σ ι) (a : Argument) (h : w.Acyclic a) :
    ∃ e, (∀ e', w.Ends a e' ↔ e' = e) ∧
      (e.lexeme = none →
        w.asString a = .error (.at (some e.site) (.absent .string)) ∧
        w.asInt a = .error (.at (some e.site) (.absent .int)) ∧
        w.asUInt a = .error (.at (some e.site) (.absent .uint)) ∧
        w.asUShort a = .error (.at (some e.site) (.absent .ushort)) ∧
        w.asDouble a = .error (.at (some e.site) (.absent .double)) ∧
        w.asBool a = .error (.at (some e.site) (.absent .bool)) ∧
        asSerial host a w = .error (.at (some e.site) (.absent .serial)) w ∧
        isSerial host a w = .ok false w) ∧
      ∀ t, e.lexeme = some t →
        w.asString a = .ok t ∧
        w.asInt a = Literal.toInt (some t) (some e.site) ∧
        w.asUInt a = Literal.toUInt (some t) (some e.site) ∧
        w.asUShort a = Literal.toUShort (some t) (some e.site) ∧
        w.asDouble a = Literal.toDouble (some t) (some e.site) ∧
        w.asBool a = Literal.toBool (some t) (some e.site) ∧
        ((∃ v w', Consulted host t w v w' ∧ v ≠ .null ∧
            asSerial host a w = .ok v w' ∧ isSerial host a w = .ok true w') ∨
          (∃ w', Consulted host t w .null w' ∧
            asSerial host a w = (match Literal.toUInt (some t) (some e.site) with
              | .ok n => .ok (.int n) w'
              | .error fault => .error fault w') ∧
            isSerial host a w = (match Literal.toUInt (some t) (some e.site) with
              | .ok _ => .ok true w'
              | .error (.script _) => .ok false w'
              | .error fault => .error fault w')) ∨
          ∃ token fault w', w.registry.aliases.get? t = some token ∧
            host.computedAlias token t w = .error fault w' ∧
            asSerial host a w = .error fault w' ∧ isSerial host a w = .error fault w') := by
  obtain ⟨e, he⟩ := World.acyclic_iff_exists_ends.mp h
  refine ⟨e, ?_, ?_, ?_⟩
  · intro e'
    constructor
    · intro he'
      exact he'.unique he
    · rintro rfl
      exact he
  · intro ht
    have hstring : w.asString a = .error (.at (some e.site) (.absent .string)) := by
      rw [World.asString, World.resolveText_of_absent he ht]
      rfl
    exact ⟨hstring, World.read_of_absent he ht _ _, World.read_of_absent he ht _ _,
      World.read_of_absent he ht _ _, World.read_of_absent he ht _ _,
      World.read_of_absent he ht _ _, asSerial_of_absent host he ht⟩
  · intro t ht
    have hstring : w.asString a = .ok t := by
      rw [World.asString, World.resolveText_of_ends he ht]
      rfl
    refine ⟨hstring, World.read_of_ends he ht _ _, World.read_of_ends he ht _ _,
      World.read_of_ends he ht _ _, World.read_of_ends he ht _ _, World.read_of_ends he ht _ _, ?_⟩
    rcases consulted_or_fails host t w with ⟨v, w', hv⟩ | ⟨token, fault, w', hknown, hfail, hget⟩
    · by_cases hnull : v = .null
      · subst hnull
        exact .inr (.inl ⟨w', hv, asSerial_of_no_alias he ht hv⟩)
      · exact .inl ⟨v, w', hv, hnull, asSerial_of_alias he ht hv hnull⟩
    · exact .inr (.inr ⟨token, fault, w', hknown, hfail, asSerial_of_failing he ht hget⟩)

/-- An argument of a script, as a word of its own. -/
def wordOf (owner : Nat) (text : String) : Argument where
  owner
  site := .root { kind := .string, lexeme := some text }

/-- Two scripts that bind each other's words; a number is bound to itself, and a word that is bound
is also an alias. -/
def crossingWorld : World Unit Unit where
  host := ()
  scripts :=
    #[{ name := "one"
        frames :=
          ⟨{ vars := (Table.empty.insert "x" (wordOf 1 "y")).insert "7" (wordOf 0 "7") }, []⟩ },
      { name := "two", frames := ⟨{ vars := Table.empty.insert "y" (wordOf 0 "door") }, [{}]⟩ }]
  aliases := (Table.empty.insert "door" (.int 5)).insert "x" (.int 9)

/-- The word leads through the other script and back to an alias, and its own alias does not
count. -/
theorem readings_of_acyclic_crossing :
    crossingWorld.Acyclic (wordOf 0 "x") ∧ crossingWorld.asString (wordOf 0 "x") = .ok "door" ∧
      crossingWorld.asInt (wordOf 0 "x") =
        .error (.at (some (wordOf 0 "door").site) (.notConvertible .int (some "door"))) ∧
      asSerial quietHost (wordOf 0 "x") crossingWorld = .ok (.int 5) crossingWorld := by
  have hx : crossingWorld.Binds (wordOf 0 "x") (wordOf 1 "y") := ⟨"x", rfl, rfl, by decide⟩
  have hy : crossingWorld.Binds (wordOf 1 "y") (wordOf 0 "door") := ⟨"y", rfl, rfl, by decide⟩
  have hends : crossingWorld.Ends (wordOf 0 "x") (wordOf 0 "door") := by
    refine ⟨(ReflTransGen.single hx).tail hy, ?_⟩
    rintro b ⟨name, hname, hlook, -⟩
    obtain rfl : "door" = name := Option.some.inj hname
    cases hlook
  have hcycle := hends.acyclic
  obtain ⟨e, hend, -, hread⟩ :=
    readings_of_acyclic quietHost crossingWorld (wordOf 0 "x") hcycle
  obtain rfl := (hend _).mp hends
  obtain ⟨hstring, hint, -, -, -, -, hserial⟩ := hread "door" rfl
  refine ⟨hcycle, hstring, ?_, ?_⟩
  · rw [hint]
    rfl
  · have hdoor : Consulted quietHost "door" crossingWorld (.int 5) crossingWorld := .stored rfl
    rcases hserial with ⟨v, w', hv, -, hok, -⟩ | ⟨w', hv, -⟩ | ⟨token, fault, w', hknown, -⟩
    · cases (getAlias_of_consulted hv).symm.trans (getAlias_of_consulted hdoor)
      exact hok
    · cases (getAlias_of_consulted hv).symm.trans (getAlias_of_consulted hdoor)
    · cases hknown

end Headline

end Cadence
