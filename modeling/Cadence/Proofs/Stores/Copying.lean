/-
  COPYING — a list copied by a loop.

  A loop goes over a list and pushes its variable to another one.  A push looks at what its value
  stands for, but if that is no number of an object it keeps the value as it is written: the name of
  the variable.  Behind the loop there is no such variable any more.

  1. **Alike worlds** (`World.Alike`) — two worlds in which all names but one mean the same.  What
     does not come by that name is resolved alike in both.

  2. **Surroundings** (`Untouched`) — listeners and rules leave the stores alone.

  3. **A pass** (`Stage.ticks_pass`) — the header, the push and the end: three ticks, and one more
     entry in the copy (`CopyLoop.Puts`).

  4. **The run** (`Stage.ticks_run`) — by induction on the entries that are left.

  5. **The headline** (`Ready.ticks_copy`) — the copy is as long as the list, and for the number of
     an object it has the digits.  For every other entry it has the name of the variable.
-/
import Cadence.Proofs.Arguments.Circles
import Cadence.Proofs.Running.Listing
import Cadence.Proofs.Stores.Entries

namespace Cadence

open Relation ScriptM

section

variable {σ ι τ : Type}

/-! ## Alike worlds -/

/-- Two worlds are alike but for a name in a script: all other names are bound to the same, and what
aliases look at is the same. -/
structure World.Alike (view : σ → τ) (i : Nat) (name : String) (w u : World σ ι) : Prop where
  /-- The other names are bound to the same. -/
  lookup : ∀ j other, ¬ (j = i ∧ other = name) →
    (u.script j).lookup other = (w.script j).lookup other
  /-- The aliases are the same. -/
  aliases : u.aliases = w.aliases
  /-- The computed aliases are the same. -/
  computed : u.registry.aliases = w.registry.aliases
  /-- They see the same of the host. -/
  host : view u.host = view w.host

/-- The computed aliases answer by their name and by what they see of the host, and leave the world
as it is. -/
def Host.AnswersBy (host : Host σ ι) (view : σ → τ) : Prop :=
  ∃ answer : ι → String → τ → Except Fault Value,
    ∀ token name w, host.computedAlias token name w = lift (answer token name (view w.host)) w

variable {host : Host σ ι} {view : σ → τ} {i : Nat} {name : String} {w u : World σ ι}
  {a b x : Argument}

namespace World.Alike

variable (h : World.Alike view i name w u)
include h

/-- A chain that does not come by the name leads to the same end. -/
theorem ends (hfree : (w.script i).lookup name = none) (hx : w.Ends a x)
    (hend : ¬ (x.owner = i ∧ x.lexeme = some name)) : u.Ends a x := by
  have binds : ∀ {b c}, ¬ (b.owner = i ∧ b.lexeme = some name) → (u.Binds b c ↔ w.Binds b c) := by
    intro b c hb
    unfold World.Binds
    refine exists_congr fun t => and_congr_right fun ht => ?_
    rw [h.lookup b.owner t fun hsame => hb ⟨hsame.1, hsame.2 ▸ ht⟩]
  obtain ⟨hsteps, hlast⟩ := hx
  induction hsteps using ReflTransGen.head_induction_on with
  | refl => exact ⟨.refl, fun c hc => hlast c ((binds hend).mp hc)⟩
  | @head b c hac _ ih =>
    -- the name is bound to nothing, so the chain does not go on from it
    have hother : ¬ (b.owner = i ∧ b.lexeme = some name) := by
      rintro ⟨howner, hlexeme⟩
      obtain ⟨t, ht, hlook, -⟩ := hac
      obtain rfl : t = name := Option.some.inj (ht.symm.trans hlexeme)
      rw [howner, hfree] at hlook
      cases hlook
    exact ⟨.head ((binds hother).mpr hac) ih.1, ih.2⟩

/-- An alias stands for the same in both. -/
theorem answers (hh : host.AnswersBy view) (t : String) :
    ∃ r : Except Fault Value, getAlias host t w = lift r w ∧ getAlias host t u = lift r u := by
  obtain ⟨answer, hanswer⟩ := hh
  let value := (w.aliases.get? t).getD .null
  have stored : ∀ v : World σ ι, v.aliases = w.aliases →
      (do return ((← get).aliases.get? t).getD .null : ScriptM σ ι Value) v =
        lift (.ok value) v := by
    intro v hv
    show EStateM.Result.ok ((v.aliases.get? t).getD .null) v = .ok value v
    rw [hv]
  unfold getAlias
  rw [get_bind, get_bind, h.computed]
  cases w.registry.aliases.get? t with
  | none => exact ⟨.ok value, stored w rfl, stored u h.aliases⟩
  | some token =>
    have hw := hanswer token t w
    have hu := hanswer token t u
    rw [h.host] at hu
    generalize answer token t (view w.host) = r at hw hu
    simp only
    cases r with
    | error fault => exact ⟨.error fault, bind_of_error hw, bind_of_error hu⟩
    | ok v =>
      rw [bind_of_ok hw, bind_of_ok hu]
      cases v with
      | null => exact ⟨.ok value, stored w rfl, stored u h.aliases⟩
      | bool v => exact ⟨.ok (.bool v), rfl, rfl⟩
      | int v => exact ⟨.ok (.int v), rfl, rfl⟩
      | real v => exact ⟨.ok (.real v), rfl, rfl⟩
      | text v => exact ⟨.ok (.text v), rfl, rfl⟩

/-- What is answered by what an alias stands for is answered alike. -/
theorem answers_bind {α : Type} (hh : host.AnswersBy view) (t : String)
    {k : Value → ScriptM σ ι α} (hk : ∀ v, ∃ r : Except Fault α, ∀ w, k v w = lift r w) {c : α}
    (hok : (getAlias host t >>= k) w = .ok c w) : (getAlias host t >>= k) u = .ok c u := by
  obtain ⟨r, hw, hu⟩ := h.answers hh t
  cases r with
  | error fault =>
    rw [bind_of_error hw] at hok
    cases hok
  | ok v =>
    rw [bind_of_ok hw] at hok
    rw [bind_of_ok hu]
    obtain ⟨r, hr⟩ := hk v
    rw [hr] at hok ⊢
    cases r with
    | error fault => cases hok
    | ok c' =>
      cases hok
      rfl

/-- Chains with one end are the number of an object in both, or in none. -/
theorem isSerial (hh : host.AnswersBy view) (ha : w.Ends a x) (hb : u.Ends b x) {serial : Bool}
    (htest : isSerial host a w = .ok serial w) : isSerial host b u = .ok serial u := by
  cases ht : x.lexeme with
  | none =>
    rw [(asSerial_of_absent host ha ht).2] at htest
    cases htest
    exact (asSerial_of_absent host hb ht).2
  | some t =>
    rw [isSerial_of_ends host ha ht] at htest
    rw [isSerial_of_ends host hb ht]
    refine h.answers_bind hh t (fun v => ?_) htest
    cases v with
    | null =>
      rcases Literal.toUInt (some t) (some x.site) with (error | trouble) | n
      · exact ⟨.ok false, fun _ => rfl⟩
      · exact ⟨.error (.trouble trouble), fun _ => rfl⟩
      · exact ⟨.ok true, fun _ => rfl⟩
    | _ => exact ⟨.ok true, fun _ => rfl⟩

/-- And it is the same number. -/
theorem asSerial (hh : host.AnswersBy view) (ha : w.Ends a x) (hb : u.Ends b x) {n : Value}
    (hn : asSerial host a w = .ok n w) : asSerial host b u = .ok n u := by
  cases ht : x.lexeme with
  | none =>
    rw [(asSerial_of_absent host ha ht).1] at hn
    cases hn
  | some t =>
    rw [asSerial_of_ends host ha ht] at hn
    rw [asSerial_of_ends host hb ht]
    refine h.answers_bind hh t (fun v => ?_) hn
    cases v with
    | null =>
      rcases Literal.toUInt (some t) (some x.site) with fault | k
      · exact ⟨.error fault, fun _ => rfl⟩
      · exact ⟨.ok (.int k), fun _ => rfl⟩
    | _ => exact ⟨.ok _, fun _ => rfl⟩

end World.Alike

/-! ## Surroundings -/

/-- The scripts, the clock and the commands are the same, and so are the lists, the aliases and what
computed aliases see. -/
structure Untouched (view : σ → τ) (w w' : World σ ι) : Prop extends Unmoved w w' where
  /-- The computed aliases are the same. -/
  computed : w'.registry.aliases = w.registry.aliases
  /-- The lists are the same. -/
  lists : w'.lists = w.lists
  /-- The aliases are the same. -/
  aliases : w'.aliases = w.aliases
  /-- The computed aliases see the same. -/
  host : view w'.host = view w.host

/-! ## The loop -/

/-- **A loop that copies a list**: its body pushes its variable to another list. -/
structure CopyLoop (T : Tree) (i : Nat) (K : Table (Handler Bundled.Command ι)) where
  /-- Where the header stands. -/
  position : Nat
  /-- The header. -/
  header : Statement
  /-- The body. -/
  push : Statement
  /-- The argument of the push that names the list. -/
  list : Site
  /-- The argument that is pushed. -/
  value : Site
  /-- The variable. -/
  name : String
  /-- The list that is copied. -/
  source : String
  /-- The list that becomes a copy. -/
  target : String
  /-- It is a loop over the list. -/
  listed : Listed T position (position + 2) header name source
  /-- The push is its body. -/
  body : T.statement? (position + 1) = some push
  /-- It is a statement. -/
  statement : push.site.kind = .statement
  /-- It is a command. -/
  command : push.isCommand = true
  /-- Its word is that of the push, and the two arguments are all there is behind it. -/
  word : ∃ site word rest, keyword? (takeMarks {} push.site.children).2 = some (site, word, rest) ∧
    K.get? word = some (.bundled .pushList) ∧ takeArguments i rest = ([⟨i, list⟩, ⟨i, value⟩], [])
  /-- It is not forced. -/
  unforced : (takeMarks {} push.site.children).1.force = false
  /-- It names the list that becomes a copy. -/
  toTarget : list.lexeme = some target
  /-- It pushes the variable. -/
  ofVariable : value.lexeme = some name
  /-- The lists are two. -/
  apart : target ≠ source
  /-- The variable is not named like the list. -/
  own : name ≠ target

namespace CopyLoop

variable {T : Tree} {K : Table (Handler Bundled.Command ι)} (l : CopyLoop T i K)

/-- What is put in for an entry: the digits of a number of an object, and otherwise the argument of
the push itself. -/
inductive Puts (host : Host σ ι) (w : World σ ι) (a : Argument) : Argument → Prop where
  /-- The entry is the number of an object. -/
  | number {n : Value} {digits : String} (test : isSerial host a w = .ok true w)
      (num : asSerial host a w = .ok n w) (written : n.written = .ok digits) :
    Puts host w a
      ⟨i, .root { kind := .serial, lexeme := some digits, line := l.value.line }⟩
  /-- It is not. -/
  | word (test : isSerial host a w = .ok false w) : Puts host w a ⟨i, l.value⟩

/-- An entry that can be read in the loop: it does not come by the variable, and something can be
put in for it. -/
structure Readable (host : Host σ ι) (w : World σ ι) (a : Argument) : Prop where
  /-- Its text is not the name of the variable. -/
  text : a.lexeme ≠ some l.name
  /-- Its chain has an end, which is not the name of the variable. -/
  chain : ∃ x, w.Ends a x ∧ ¬ (x.owner = i ∧ x.lexeme = some l.name)
  /-- Something can be put in for it. -/
  fits : ∃ c, l.Puts host w a c

/-- The loop has gone so far: the list is as it was, and some entries are in its copy.  Of the rest
of the world only the script of the loop has changed. -/
structure Amid (view : σ → τ) (w₀ : World σ ι) (entries copies : List Argument) (w : World σ ι) :
    Prop where
  /-- The other scripts are the same. -/
  others : ∀ j, j ≠ i → w.script j = w₀.script j
  /-- The aliases are the same. -/
  aliases : w.aliases = w₀.aliases
  /-- The computed aliases are the same. -/
  computed : w.registry.aliases = w₀.registry.aliases
  /-- They see the same of the host. -/
  host : view w.host = view w₀.host
  /-- The entries of the list. -/
  source : w.lists.get? l.source = some entries
  /-- The entries of the copy. -/
  target : w.lists.get? l.target = some copies

/-- A stage of the loop: the script is poised in frames of a kind, and the copy has some entries. -/
def Stage (view : σ → τ) (w₀ : World σ ι) (S : List Statement) (entries copies : List Argument)
    (c : Option Statement) (Γ : Frames → Prop) (w : World σ ι) : Prop :=
  PoisedIn T i K c Γ S w ∧ l.Amid view w₀ entries copies w

/-- A script comes to the loop: the variable and the name of the copy are bound to nothing, the copy
is an empty list, and the entries can be read. -/
structure Ready (host : Host σ ι) (F : Frames) (S : List Statement) (entries : List Argument)
    (w : World σ ι) : Prop where
  /-- It stands before the header. -/
  poised : Poised T i K (some l.header) F S w
  /-- Another frame is innermost. -/
  new : F.top.openedBy l.header = false
  /-- The variable is not bound yet. -/
  free : (w.script i).lookup l.name = none
  /-- The name of the copy is no variable. -/
  named : (w.script i).lookup l.target = none
  /-- The list is there. -/
  source : w.lists.get? l.source = some entries
  /-- The copy is there, and empty. -/
  target : w.lists.get? l.target = some []
  /-- The entries can be read. -/
  readable : ∀ a ∈ entries, l.Readable host w a

variable {l} {w₀ w' : World σ ι} {F : Frames} {S : List Statement} {d : Option Statement}
  {Γ Δ : Frames → Prop} {entries copies more : List Argument} {j : Nat}

theorem Amid.untouched (h : l.Amid view w₀ entries copies w) (hw : Untouched view w u) :
    l.Amid view w₀ entries copies u where
  others j hj := (hw.toUnmoved.script j).trans (h.others j hj)
  aliases := hw.aliases.trans h.aliases
  computed := hw.computed.trans h.computed
  host := hw.host.trans h.host
  source := by rw [hw.lists, h.source]
  target := by rw [hw.lists, h.target]

theorem Amid.modifyScript (h : l.Amid view w₀ entries copies w) (f : Script ι → Script ι) :
    l.Amid view w₀ entries copies (w.modifyScript i f) :=
  { h with others := fun j hj =>
      (World.script_modifyScript_of_ne f (Ne.symm hj)).trans (h.others j hj) }

/-- One more entry is in the copy. -/
theorem Amid.insert (h : l.Amid view w₀ entries copies w) :
    l.Amid view w₀ entries more { w with lists := w.lists.insert l.target more } :=
  { h with
    source := by rw [Table.get?_insert, if_neg l.apart, h.source]
    target := by rw [Table.get?_insert, if_pos rfl] }

theorem Stage.untouched (h : l.Stage view w₀ S entries copies d Γ w) (hw : Untouched view w u) :
    l.Stage view w₀ S entries copies d Γ u :=
  ⟨h.1.unmoved hw.toUnmoved, h.2.untouched hw⟩

/-- **A tick goes from stage to stage as its statement does.** -/
theorem Stage.tick_of (hh : host.Surrounds (Untouched view)) {t : Statement}
    (hw : l.Stage view w₀ S entries copies (some t) Γ w)
    (hx : ∀ u, l.Stage view w₀ S entries copies (some t) Γ u →
      ∃ v, executeStatement host i t u = .ok () v ∧ l.Stage view w₀ S entries more d Δ v) :
    ∃ w', tick host i w = .ok d.isSome w' ∧ l.Stage view w₀ S entries more d Δ w' := by
  obtain ⟨G, -, hp⟩ := hw.1
  refine tick_of_surrounds hh Stage.untouched hp.activity hp.cursor fun u hu => ?_
  refine ⟨(hp.unmoved hu.toUnmoved).cursor, ?_⟩
  obtain ⟨v, hexecute, hv⟩ := hx u (hw.untouched hu)
  obtain ⟨G', -, hp'⟩ := hv.1
  refine ⟨v, hexecute, ?_, hv⟩
  unfold Script.isRunning
  rw [hp'.cursor]

/-! ## What an entry stands for -/

/-- The world in a pass is like that before the loop, but for the variable. -/
theorem Amid.alike (h : l.Amid view w₀ entries copies w)
    (hlook : ∀ other, other ≠ l.name → (w.script i).lookup other = (w₀.script i).lookup other) :
    World.Alike view i l.name w₀ w where
  lookup j other hother := by
    by_cases hj : j = i
    · subst hj
      exact hlook other fun hname => hother ⟨rfl, hname⟩
    · rw [h.others j hj]
  aliases := h.aliases
  computed := h.computed
  host := h.host

/-- In a pass the variable stands for what the entry stands for. -/
theorem Readable.listEntry (ha : host.AnswersBy view) {a c : Argument}
    (hread : l.Readable host w₀ a) (hputs : l.Puts host w₀ a c)
    (hfree : (w₀.script i).lookup l.name = none) (h : World.Alike view i l.name w₀ w)
    (hvariable : (w.script i).lookup l.name = some a) :
    Bundled.listEntry host ⟨i, l.value⟩ w = .ok c w := by
  obtain ⟨x, hends, hend⟩ := hread.chain
  have hstep : w.Binds ⟨i, l.value⟩ a := ⟨l.name, l.ofVariable, hvariable, hread.text⟩
  have hpass : w.Ends ⟨i, l.value⟩ x := by
    obtain ⟨hsteps, hlast⟩ := h.ends hfree hends hend
    exact ⟨.head hstep hsteps, hlast⟩
  cases hputs with
  | word test => exact Bundled.listEntry_of_false (h.isSerial ha hends hpass test)
  | number test num written =>
    unfold Bundled.listEntry
    rw [bind_of_ok (h.isSerial ha hends hpass test), if_pos rfl,
      bind_of_ok (h.asSerial ha hends hpass num), written]
    rfl

/-! ## A pass -/

variable {a e : Argument} {rest : List Argument}

/-- The header goes on to the next entry. -/
theorem Stage.tick_element (hh : host.Surrounds (Untouched view))
    (hw : l.Stage view w₀ S entries copies (some l.header) (F.Awaiting l.header l.name j) w)
    (hj : entries[j]? = some a) :
    ∃ w', tick host i w = .ok true w' ∧
      l.Stage view w₀ S entries copies (some l.push) (F.Holding l.header l.name j a) w' := by
  refine hw.tick_of (d := some l.push) hh fun u hu => ?_
  obtain ⟨⟨G, hG, hp⟩, hamid⟩ := hu
  obtain ⟨f, hexecute, hbefore⟩ := l.listed.executeStatement_of_awaiting hG hp hamid.source
  unfold BeforeElement at hbefore
  simp only [hj, l.body] at hbefore
  exact ⟨_, hexecute, hbefore, hamid.modifyScript f⟩

/-- Or it leaves the loop. -/
theorem Stage.tick_over (hh : host.Surrounds (Untouched view))
    (hw : l.Stage view w₀ S entries copies (some l.header) (F.Awaiting l.header l.name j) w)
    (hj : entries[j]? = none) :
    ∃ w', tick host i w = .ok (T.statement? (l.position + 3)).isSome w' ∧
      l.Stage view w₀ S entries copies (T.statement? (l.position + 3)) (· = F) w' := by
  refine hw.tick_of hh fun u hu => ?_
  obtain ⟨⟨G, hG, hp⟩, hamid⟩ := hu
  obtain ⟨f, hexecute, hbefore⟩ := l.listed.executeStatement_of_awaiting hG hp hamid.source
  unfold BeforeElement at hbefore
  simp only [hj] at hbefore
  exact ⟨_, hexecute, ⟨F, rfl, hbefore⟩, hamid.modifyScript f⟩

/-- The push as it is run. -/
theorem runCommand_push (hentry : Bundled.listEntry host ⟨i, l.value⟩ w = .ok e w)
    (hlist : (w.script i).lookup l.target = none) (hcopies : w.lists.get? l.target = some copies) :
    Bundled.runCommand host .pushList [⟨i, l.list⟩, ⟨i, l.value⟩] false w =
      .ok true { w with lists := w.lists.insert l.target (copies ++ [e]) } := by
  have hname : w.asString ⟨i, l.list⟩ = .ok l.target := by
    unfold World.asString
    rw [resolveText_of_unbound (show Argument.lexeme ⟨i, l.list⟩ = _ from l.toTarget) hlist]
    rfl
  have hput : w.pushList l.target e false false =
      .ok { w with lists := w.lists.insert l.target (copies ++ [e]) } := by
    unfold World.pushList World.requireList
    rw [hcopies]
    rfl
  show (Bundled.push host ⟨i, l.list⟩ ⟨i, l.value⟩ [] false >>= fun _ =>
    (return true : ScriptM σ ι Bool)) w = _
  have hpush : Bundled.push host ⟨i, l.list⟩ ⟨i, l.value⟩ [] false w =
      .ok () { w with lists := w.lists.insert l.target (copies ++ [e]) } := by
    show (Bundled.listEntry host ⟨i, l.value⟩ >>= fun entry =>
      Bundled.string ⟨i, l.list⟩ >>= fun name =>
        reading (fun w => w.pushList name entry false false) >>= set) w = _
    rw [bind_of_ok hentry, bind_of_ok (string_of_asString hname), bind_of_ok (reading_of_ok hput)]
    rfl
  rw [bind_of_ok hpush]
  rfl

/-- The body puts something in for the entry. -/
theorem Stage.tick_push (hh : host.Surrounds (Untouched view)) (ha : host.AnswersBy view)
    (hr : l.Ready host F S entries w₀) (hread : l.Readable host w₀ a) (hputs : l.Puts host w₀ a e)
    (hw : l.Stage view w₀ S entries copies (some l.push) (F.Holding l.header l.name j a) w) :
    ∃ w', tick host i w = .ok true w' ∧
      l.Stage view w₀ S entries (copies ++ [e]) (T.statement? (l.position + 2))
        (F.Holding l.header l.name j a) w' := by
  obtain ⟨s, _, hs, -⟩ := l.listed.ending
  rw [hs]
  refine hw.tick_of (d := some s) hh fun u hu => ?_
  obtain ⟨⟨G, hG, hp⟩, hamid⟩ := hu
  have hlook : ∀ other, (u.script i).lookup other =
      if l.name = other then some a else (w₀.script i).lookup other := by
    intro other
    unfold Script.lookup
    rw [hp.frames, hG.lookup, hr.poised.frames]
  have halike : World.Alike view i l.name w₀ u :=
    hamid.alike fun other hother => by rw [hlook, if_neg (Ne.symm hother)]
  have hentry : Bundled.listEntry host ⟨i, l.value⟩ u = .ok e u :=
    hread.listEntry ha hputs hr.free halike (by rw [hlook, if_pos rfl])
  have hlist : (u.script i).lookup l.target = none := by rw [hlook, if_neg l.own, hr.named]
  have hasks : l.push.Asks i .pushList [⟨i, l.list⟩, ⟨i, l.value⟩] u := by
    obtain ⟨site, word, rest, hword, hget, hargs⟩ := l.word
    exact ⟨l.statement, l.command, site, word, rest, hword, by rw [hp.commands, hget], hargs⟩
  let pushed : World σ ι := { u with lists := u.lists.insert l.target (copies ++ [e]) }
  have hpushed : Poised T i K (T.statement? (l.position + 1)) G S pushed := by
    rw [l.body]
    exact hp.unmoved ⟨rfl, rfl, rfl⟩
  refine ⟨pushed.modifyScript i Script.advance, ?_, ⟨G, hG, hs ▸ hpushed.advance⟩,
    hamid.insert.modifyScript _⟩
  rw [executeStatement_of_asks host hasks, l.unforced,
    bind_of_ok (runCommand_push hentry hlist hamid.target)]
  rfl

/-- The end leads back to the header. -/
theorem Stage.tick_end (hh : host.Surrounds (Untouched view))
    (hw : l.Stage view w₀ S entries copies (T.statement? (l.position + 2))
      (F.Holding l.header l.name j a) w) :
    ∃ w', tick host i w = .ok true w' ∧
      l.Stage view w₀ S entries copies (some l.header) (F.Awaiting l.header l.name (j + 1)) w' := by
  obtain ⟨s, _, hs, -⟩ := l.listed.ending
  rw [hs] at hw
  refine hw.tick_of (d := some l.header) hh fun u hu => ?_
  obtain ⟨⟨G, hG, hp⟩, hamid⟩ := hu
  exact ⟨_, l.listed.executeStatement_of_end hs hp, ⟨G, .again hG, hp.moveTo _⟩,
    hamid.modifyScript _⟩

/-- **A pass**: three ticks, and one more entry in the copy. -/
theorem Stage.ticks_pass (hh : host.Surrounds (Untouched view)) (ha : host.AnswersBy view)
    (hr : l.Ready host F S entries w₀) (hj : entries[j]? = some a) (hputs : l.Puts host w₀ a e)
    (hw : l.Stage view w₀ S entries copies (some l.header) (F.Awaiting l.header l.name j) w) :
    ∃ w', (∀ n, ticks host i (n + 3) w = ticks host i n w') ∧
      l.Stage view w₀ S entries (copies ++ [e]) (some l.header)
        (F.Awaiting l.header l.name (j + 1)) w' := by
  have hread := hr.readable a (List.mem_of_getElem? hj)
  obtain ⟨u₁, hheader, hu₁⟩ := hw.tick_element hh hj
  obtain ⟨u₂, hpush, hu₂⟩ := hu₁.tick_push hh ha hr hread hputs
  obtain ⟨u₃, hend, hu₃⟩ := hu₂.tick_end hh
  refine ⟨u₃, fun n => ?_, hu₃⟩
  have more : ∀ {u v : World σ ι} (n), tick host i u = .ok true v →
      ticks host i (n + 1) u = ticks host i n v := fun n htick => bind_of_ok htick
  rw [more _ hheader, more _ hpush, more _ hend]

/-! ## The run -/

/-- **The run**: a pass for each entry that is left, and then the header leaves the loop. -/
theorem Stage.ticks_run (hh : host.Surrounds (Untouched view)) (ha : host.AnswersBy view)
    (hr : l.Ready host F S entries w₀) (hleft : entries.drop j = rest)
    (hw : l.Stage view w₀ S entries copies (some l.header) (F.Awaiting l.header l.name j) w) :
    ∃ w' more, ticks host i (3 * rest.length + 1) w =
        .ok (T.statement? (l.position + 3)).isSome w' ∧
      List.Forall₂ (l.Puts host w₀) rest more ∧
      l.Stage view w₀ S entries (copies ++ more) (T.statement? (l.position + 3)) (· = F) w' := by
  induction rest generalizing j copies w with
  | nil =>
    have hnone : entries[j]? = none :=
      List.getElem?_eq_none (List.drop_eq_nil_iff.mp hleft)
    obtain ⟨w', htick, hw'⟩ := hw.tick_over hh hnone
    refine ⟨w', [], ?_, .nil, by rwa [List.append_nil]⟩
    show (tick host i >>= fun more => if more then ticks host i 0 else pure false) w = _
    rw [bind_of_ok htick]
    cases (T.statement? (l.position + 3)).isSome with
    | true => rfl
    | false => rfl
  | cons a rest ih =>
    have hj : entries[j]? = some a := by
      rw [← Nat.add_zero j, ← List.getElem?_drop, hleft]
      rfl
    have hrest : entries.drop (j + 1) = rest := by
      rw [← List.tail_drop, hleft]
      rfl
    obtain ⟨e, hputs⟩ := (hr.readable a (List.mem_of_getElem? hj)).fits
    obtain ⟨u, hpass, hu⟩ := hw.ticks_pass hh ha hr hj hputs
    obtain ⟨w', more, hrun, hmore, hw'⟩ := ih hrest hu
    refine ⟨w', e :: more, ?_, .cons hputs hmore, by rwa [List.append_assoc] at hw'⟩
    have hcount : 3 * (a :: rest).length + 1 = 3 * rest.length + 1 + 3 := by
      rw [List.length_cons]
      omega
    rw [hcount, hpass, hrun]

/-! ## The headline -/

/-- **What stands in the copy for an entry**, and what it stands for behind the loop. -/
inductive Copied (l : CopyLoop T i K) (host : Host σ ι) (w w' : World σ ι) (a : Argument) :
    Argument → Prop where
  /-- For the number of an object stand its digits; what they are an alias of comes before the
  number. -/
  | number {n : Value} {digits : String} {c : Argument} (test : isSerial host a w = .ok true w)
      (num : asSerial host a w = .ok n w) (written : n.written = .ok digits)
      (text : c.lexeme = some digits)
      (means : ∀ k : Nat, n = .int k → k < 2 ^ 32 → (w.script i).lookup digits = none →
        w.registry.aliases.get? digits = none →
        asSerial host c w' = .ok (digitsStandFor k (w.aliases.get? digits)) w') :
    Copied l host w w' a c
  /-- For anything else stands the name of the variable, which is a text like any other now; the
  entry itself stands for what it stood for. -/
  | word {c : Argument} (test : isSerial host a w = .ok false w)
      (same : w'.asString a = w.asString a) (lost : w'.asString c = .ok l.name) :
    Copied l host w w' a c

/-- Chains with one end are one text. -/
theorem asString_of_ends {x : Argument} (hw : w.Ends a x) (hu : u.Ends a x) :
    u.asString a = w.asString a := by
  unfold World.asString
  cases ht : x.lexeme with
  | none => rw [World.resolveText_of_absent hw ht, World.resolveText_of_absent hu ht]
  | some t => rw [World.resolveText_of_ends hw ht, World.resolveText_of_ends hu ht]

/-- Behind the loop the variable is gone. -/
theorem Puts.copied (hr : l.Ready host F S entries w₀) (hread : l.Readable host w₀ a)
    (hamid : l.Amid view w₀ entries copies w)
    (hlook : ∀ other, (w.script i).lookup other = (w₀.script i).lookup other)
    (h : l.Puts host w₀ a e) : l.Copied host w₀ w a e := by
  cases h with
  | word test =>
    obtain ⟨x, hends, hend⟩ := hread.chain
    have hlater := (hamid.alike fun other _ => hlook other).ends hr.free hends hend
    refine .word test (asString_of_ends hends hlater) ?_
    unfold World.asString
    rw [resolveText_of_unbound (show Argument.lexeme ⟨i, l.value⟩ = _ from l.ofVariable)
      ((hlook l.name).trans hr.free)]
    rfl
  | @number n digits test num written =>
    refine .number test num written rfl fun k hk hfits hfree hnone => ?_
    subst hk
    obtain rfl : digits = intText k := by
      rw [show Value.written (.int k) = .ok (intText k) from
        writeInt_of_writable (writable_of_lt hfits)] at written
      exact (Except.ok.inj written).symm
    rw [← hamid.aliases]
    refine asSerial_of_digits host hfits rfl ?_ (by rw [hamid.computed, hnone])
    rintro b ⟨t, ht, hbound, -⟩
    obtain rfl : intText k = t := Option.some.inj ht
    rw [show (w.script i).lookup (intText k) = _ from hlook _, hfree] at hbound
    cases hbound

/-- **A list copied by a loop.**  Let a script come to a loop that pushes its variable to an empty
list, while listeners and rules leave the stores alone.  Three ticks for each entry and one more
lead behind the loop, in the frames from before it, and then the list is as it was and its copy has
as many entries.  For an entry that is the number of an object the copy has its digits, which stand
for the number unless they are an alias of something else.  For every other entry it has the name of
the variable, and nothing of the entry. -/
theorem Ready.ticks_copy (hh : host.Surrounds (Untouched view)) (ha : host.AnswersBy view)
    (hr : l.Ready host F S entries w) :
    ∃ w' copies, ticks host i (3 * entries.length + 1) w =
        .ok (T.statement? (l.position + 3)).isSome w' ∧
      Poised T i K (T.statement? (l.position + 3)) F S w' ∧
      w'.lists.get? l.source = some entries ∧ w'.lists.get? l.target = some copies ∧
      copies.length = entries.length ∧ List.Forall₂ (l.Copied host w w') entries copies := by
  have hbegin : l.Stage view w S entries [] (some l.header) (F.Awaiting l.header l.name 0) w :=
    ⟨⟨F, .first hr.new, hr.poised⟩, fun _ _ => rfl, rfl, rfl, rfl, hr.source, hr.target⟩
  obtain ⟨w', copies, hrun, hputs, ⟨_, rfl, hp⟩, hamid⟩ := hbegin.ticks_run hh ha hr List.drop_zero
  rw [List.nil_append] at hamid
  have hlook : ∀ other, (w'.script i).lookup other = (w.script i).lookup other := by
    intro other
    unfold Script.lookup
    rw [hp.frames, hr.poised.frames]
  have hcopied : List.Forall₂ (l.Copied host w w') entries copies := by
    rw [List.forall₂_iff_get] at hputs ⊢
    exact ⟨hputs.1, fun k hk hk' =>
      (hputs.2 k hk hk').copied hr (hr.readable _ (List.get_mem ..)) hamid hlook⟩
  exact ⟨w', copies, hrun, hp, hamid.source, hamid.target, hputs.length_eq.symm, hcopied⟩

end CopyLoop

end

/-! ## A word and a number -/

/-- A loop that copies a list, and a statement behind it. -/
def copyRoot : Node where
  kind := .script
  children := [eachLine 1 "v" "src", hoardLine 2 "pushlist" ["dst", "v"], endLine 3,
    hoardLine 4 "sysmsg" ["v"]]

/-- A script comes to the loop. -/
def copyWorld (entries : List Argument) : World Unit Unit :=
  { knotWorld with
    scripts := #[.start "copy" copyRoot]
    lists := (Table.empty.insert "dst" []).insert "src" entries }

/-- The loop of that script. -/
def copyLoop : CopyLoop ⟨copyRoot, 0⟩ 0 knotWorld.registry.commands where
  position := 0
  header := lineOf copyRoot 0
  push := lineOf copyRoot 1
  list := ((lineOf copyRoot 1).site.children.getD 1 default)
  value := ((lineOf copyRoot 1).site.children.getD 2 default)
  name := "v"
  source := "src"
  target := "dst"
  listed := ⟨rfl, rfl, ⟨_, _, _, _, rfl, rfl, rfl, rfl, rfl⟩, ⟨_, _, rfl, rfl, rfl, rfl⟩,
    Links.mem_loopEnds.mpr (.inr ⟨rfl, rfl⟩)⟩
  body := rfl
  statement := rfl
  command := rfl
  word := ⟨_, "pushlist", _, rfl, rfl, rfl⟩
  unforced := rfl
  toTarget := rfl
  ofVariable := rfl
  apart := by decide
  own := by decide

theorem quietHost_surrounds : quietHost.Surrounds (Untouched id) where
  refl _ := ⟨⟨rfl, rfl, rfl⟩, rfl, rfl, rfl, rfl⟩
  trans h h' := ⟨h.toUnmoved.trans h'.toUnmoved, h'.computed.trans h.computed,
    h'.lists.trans h.lists, h'.aliases.trans h.aliases, h'.host.trans h.host⟩
  listener _ _ w := ⟨(), w, rfl, ⟨rfl, rfl, rfl⟩, rfl, rfl, rfl, rfl⟩
  rule _ _ w := ⟨(), w, rfl, ⟨rfl, rfl, rfl⟩, rfl, rfl, rfl, rfl⟩
  logged _ _ := ⟨⟨rfl, rfl, rfl⟩, rfl, rfl, rfl, rfl⟩
  activated _ _ := ⟨⟨rfl, rfl, rfl⟩, rfl, rfl, rfl, rfl⟩

theorem quietHost_answersBy : quietHost.AnswersBy id := ⟨fun _ _ _ => .ok .null, fun _ _ _ => rfl⟩

/-- A word that is not the variable can be read in the loop. -/
theorem readable_copyWorld {entries : List Argument} {text : String} (htext : text ≠ "v")
    (hfits : ∃ c, copyLoop.Puts quietHost (copyWorld entries) (wordOf 0 text) c) :
    copyLoop.Readable quietHost (copyWorld entries) (wordOf 0 text) := by
  have hname : (wordOf 0 text).lexeme ≠ some "v" := fun h => htext (Option.some.inj h)
  refine ⟨hname, ⟨_, ⟨.refl, ?_⟩, fun h => hname h.2⟩, hfits⟩
  rintro b ⟨t, -, hbound, -⟩
  cases hbound

theorem ready_copyWorld {entries : List Argument}
    (h : ∀ a ∈ entries, copyLoop.Readable quietHost (copyWorld entries) a) :
    copyLoop.Ready quietHost {} [] entries (copyWorld entries) where
  poised := ⟨Nat.zero_lt_one, rfl, rfl, rfl, rfl, rfl, rfl, rfl, rfl⟩
  new := rfl
  free := rfl
  named := rfl
  source := by
    show ((Table.empty.insert "dst" []).insert "src" entries).get? "src" = _
    rw [Table.get?_insert, if_pos rfl]
  target := by
    show ((Table.empty.insert "dst" []).insert "src" entries).get? "dst" = _
    rw [Table.get?_insert, if_neg (by decide), Table.get?_insert, if_pos rfl]
  readable := h

/-- A word and a number. -/
def goldAndFive : List Argument := [wordOf 0 "gold", wordOf 0 "5"]

/-- A word and a number are copied: the copy of the number is the number, and the copy of the word
is the name of the variable. -/
theorem copied_word_and_number :
    (quietHost.Surrounds (Untouched id) ∧ quietHost.AnswersBy id ∧
      copyLoop.Ready quietHost {} [] goldAndFive (copyWorld goldAndFive)) ∧
    ∃ w' c d, ticks quietHost 0 7 (copyWorld goldAndFive) = .ok true w' ∧
      w'.lists.get? "dst" = some [c, d] ∧ w'.asString (wordOf 0 "gold") = .ok "gold" ∧
      w'.asString c = .ok "v" ∧ asSerial quietHost d w' = .ok (.int 5) w' := by
  let w := copyWorld goldAndFive
  have hword : isSerial quietHost (wordOf 0 "gold") w = .ok false w := rfl
  have hnumber : isSerial quietHost (wordOf 0 "5") w = .ok true w := rfl
  have hfive : asSerial quietHost (wordOf 0 "5") w = .ok (.int 5) w := rfl
  have hready : copyLoop.Ready quietHost {} [] goldAndFive w := by
    refine ready_copyWorld fun a ha => ?_
    rcases List.mem_pair.mp ha with rfl | rfl
    · exact readable_copyWorld (by decide) ⟨_, .word hword⟩
    · exact readable_copyWorld (by decide) ⟨_, .number hnumber hfive rfl⟩
  obtain ⟨w', copies, hrun, -, -, htarget, -, hcopied⟩ :=
    hready.ticks_copy quietHost_surrounds quietHost_answersBy
  refine ⟨⟨quietHost_surrounds, quietHost_answersBy, hready⟩, w', ?_⟩
  obtain ⟨c, rest, hc, hrest, rfl⟩ := List.forall₂_cons_left_iff.mp hcopied
  obtain ⟨d, _, hd, hnil, rfl⟩ := List.forall₂_cons_left_iff.mp hrest
  obtain rfl := List.forall₂_nil_left_iff.mp hnil
  refine ⟨c, d, hrun, htarget, ?_⟩
  cases hc with
  | number test => cases hword.symm.trans test
  | word _ same lost =>
    cases hd with
    | word test => cases hnumber.symm.trans test
    | number _ num written _ means =>
      cases hfive.symm.trans num
      cases written
      exact ⟨same, lost, means 5 rfl (by decide) rfl rfl⟩

/-- The texts that the entries of a list stand for. -/
def textsIn (w : World Unit Unit) (list : String) : List (Option String) :=
  (w.items list).map fun a => (w.asString a).toOption

/-- A script comes to a loop over a word. -/
def goldWorld : World Unit Unit := copyWorld [wordOf 0 "gold"]

/-- **A word is lost**: in the loop the variable stands for the word, and behind the loop its copy
stands for the name of the variable. -/
theorem lost_word :
    isSerial quietHost (wordOf 0 "gold") goldWorld = .ok false goldWorld ∧
      ((ticked goldWorld 1).asString (wordOf 0 "v")).toOption = some "gold" ∧
      ((ticked goldWorld 4).script 0).cursor.map (·.site.line) = some 4 ∧
      textsIn (ticked goldWorld 4) "src" = [some "gold"] ∧
      textsIn (ticked goldWorld 4) "dst" = [some "v"] := by
  refine ⟨rfl, ?_, ?_, ?_, ?_⟩
  all_goals decide +kernel

end Cadence
