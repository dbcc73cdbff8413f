/-
  FINDING — what is found of a pushed value under its own text.

  A push looks at what its value stands for: a number of an object goes in as its decimal text.  A
  question whether a value is in the list, and a pop of a value, look at the text of their argument
  and at nothing else.

  1. **What goes in** (`markedEntry_ok`, `runCommand_pushList_ok_iff`) — the value itself, or the
     digits of its number.

  2. **What is there afterwards** (`hasText_of_pushList`) — the texts that were there, and the text
     of the entry, forced or not.

  3. **Asking and taking** (`runQuery_inList`, `runCommand_popList_text`) — both go by the text.

  4. **The headline** (`found_of_push`) — so a pushed value is found under its own text if the text
     was there, if the value is no number, or if it is spelled as the digits of its number.
-/
import Cadence.Proofs.Running.Asking
import Cadence.Proofs.Stores.Forced

namespace Cadence

open ScriptM

section

variable {σ ι : Type} {host : Host σ ι} {w w' u : World σ ι}

/-! ## What goes in -/

/-- An entry is the argument itself, or has the digits of its number as its text. -/
theorem markedEntry_ok {a : Argument} {m : Mark} (h : markedEntry host a w = .ok m u) :
    ∃ serial v, isSerial host a w = .ok serial v ∧
      if serial then
        ∃ n digits, asSerial host a v = .ok n u ∧ n.written = .ok digits ∧
          m.argument.lexeme = some digits
      else u = v ∧ m.argument = a := by
  unfold markedEntry at h
  obtain ⟨serial, v, hserial, h⟩ := bind_ok h
  refine ⟨serial, v, hserial, ?_⟩
  cases serial with
  | false =>
    cases h
    exact ⟨rfl, rfl⟩
  | true =>
    obtain ⟨n, v', hn, h⟩ := bind_ok h
    obtain ⟨digits, v'', hdigits, h⟩ := bind_ok h
    cases h
    cases hwritten : n.written with
    | error f =>
      rw [hwritten] at hdigits
      cases hdigits
    | ok digits' =>
      rw [hwritten] at hdigits
      cases hdigits
      exact ⟨n, digits, hn, hwritten, rfl⟩

/-- A push has looked at its value first and at the name of the list last. -/
theorem resolvePush_ok {list value : Argument} {more : List Argument} {p : Placing}
    (h : resolvePush host list value more w = .ok p u) :
    markedEntry host value w = .ok p.mark u ∧ u.asString list = .ok p.list := by
  unfold resolvePush at h
  obtain ⟨front, v, hfront, hrest⟩ := bind_ok h
  have hv : v = w := by
    cases more with
    | nil =>
      cases hfront
      rfl
    | cons side rest =>
      obtain ⟨text, v', htext, hdone⟩ := bind_ok hfront
      cases hdone
      exact (ok_of_reading htext).2
  obtain ⟨mark, v', hmark, hnamed⟩ := bind_ok hrest
  obtain ⟨name, v'', hname, hdone⟩ := bind_ok hnamed
  cases hdone
  obtain ⟨hlist, rfl⟩ := ok_of_reading hname
  rw [hv] at hmark
  exact ⟨hmark, hlist⟩

/-- **A push goes well exactly if its arguments can be resolved and the list is there.** -/
theorem runCommand_pushList_ok_iff {list value : Argument} {more : List Argument} {force b : Bool} :
    Bundled.runCommand host .pushList (list :: value :: more) force w = .ok b w' ↔
      b = true ∧ ∃ p u, resolvePush host list value more w = .ok p u ∧
        u.pushList p.list p.mark.argument p.front force = .ok w' := by
  show (do
    let _ ← Bundled.push host list value more force
    return true : ScriptM σ ι Bool) w = _ ↔ _
  rw [push_eq]
  constructor
  · intro h
    obtain ⟨_, v, hpush, hdone⟩ := bind_ok h
    cases hdone
    obtain ⟨p, u, hres, hset⟩ := bind_ok hpush
    obtain ⟨x, u', hread, hset⟩ := bind_ok hset
    cases hset
    exact ⟨rfl, p, u, hres, (ok_of_reading hread).1⟩
  · rintro ⟨rfl, p, u, hres, hpush⟩
    have hset : (do set (← reading fun w => w.pushList p.list p.mark.argument p.front force) :
        ScriptM σ ι Unit) u = .ok () w' := bind_of_ok (reading_of_ok hpush)
    exact bind_of_ok ((bind_of_ok hres).trans hset)

/-! ## What is there afterwards -/

/-- A list has an entry with a text. -/
def World.HasText (w : World σ ι) (name t : String) : Prop :=
  ∃ e ∈ w.items name, e.lexeme = some t

theorem any_same_iff {name t : String} {a : Argument} (ha : a.lexeme = some t) :
    (w.items name).any (·.same a) = true ↔ w.HasText name t := by
  rw [List.any_eq_true]
  constructor
  · rintro ⟨e, he, hsame⟩
    exact ⟨e, he, (of_decide_eq_true hsame).trans ha⟩
  · rintro ⟨e, he, hlexeme⟩
    exact ⟨e, he, decide_eq_true (hlexeme.trans ha.symm)⟩

/-- **After a push** the texts are there that were there, and that of the entry. -/
theorem hasText_of_pushList {name t : String} {a : Argument} {front unique : Bool}
    (h : w.pushList name a front unique = .ok w') :
    w'.HasText name t ↔ w.HasText name t ∨ a.lexeme = some t := by
  obtain ⟨hthere, -⟩ := World.pushList_eq_ok h
  have hitems := w.items_pushList name name a front unique
  rw [h] at hitems
  have hin : w'.items name = _ := hitems
  unfold World.HasText
  rw [hin]
  by_cases hfound : (unique && (w.items name).any (·.same a)) = true
  · -- the text of the entry was there already
    obtain ⟨-, hany⟩ := Bool.and_eq_true_iff.mp hfound
    obtain ⟨e, he, hsame⟩ := List.any_eq_true.mp hany
    rw [if_neg fun h => h.2.2 hfound]
    constructor
    · exact .inl
    · rintro (hheld | ha)
      · exact hheld
      · exact ⟨e, he, (of_decide_eq_true hsame).trans ha⟩
  · rw [if_pos ⟨rfl, hthere, hfound⟩]
    cases front with
    | true => simp [or_comm]
    | false => simp [or_and_right, exists_or]

/-! ## Asking and taking -/

variable (host) in
/-- A question for a value goes by its text. -/
theorem runQuery_inList {name t : String} {list value : Argument} (rest : List Argument)
    (hname : w.asString list = .ok name) (hvalue : value.lexeme = some t) :
    ∃ found, (found = true ↔ w.HasText name t) ∧
      Bundled.runQuery host .inList (list :: value :: rest) w = .ok (.bool found) w :=
  ⟨w.listContains name value, any_same_iff hvalue, bind_of_ok (string_of_asString hname)⟩

variable (host) in
/-- A pop of a value goes by its text, unless that is the word for an end. -/
theorem runCommand_popList_text {name t : String} {list value : Argument} (rest : List Argument)
    (force : Bool) (hname : w.asString list = .ok name) (hvalue : value.lexeme = some t)
    (hfront : Text.fold t ≠ "front") (hback : Text.fold t ≠ "back") :
    ∃ w', Bundled.runCommand host .popList (list :: value :: rest) force w = .ok true w' ∧
      (∀ other, other ≠ name → w'.items other = w.items other) ∧
      (w.HasText name t → PopTakes t (w.items name) (w'.items name)) ∧
      (¬ w.HasText name t → w' = w) := by
  have htext : value.text = .ok t := by
    unfold Argument.text
    rw [hvalue]
  have hpop : Bundled.pop list value w = .ok () ((w.popListValue name value).getD w) := by
    unfold Bundled.pop
    refine (bind_of_ok (string_of_asString hname)).trans ?_
    have hlift : (lift value.text : ScriptM σ ι String) w = .ok t w := by
      rw [htext]
      rfl
    refine (bind_of_ok hlift).trans ?_
    exact congrFun (if_neg fun h => h.elim hfront hback) w
  refine ⟨_, bind_of_ok hpop, fun other hother => ?_, fun hheld => ?_, fun hno => ?_⟩
  · rw [World.items_popListValue, if_neg (Ne.symm hother)]
  · rcases w.popListValue_takes hvalue hfront hback with htakes | ⟨hnone, -⟩
    · exact htakes
    · obtain ⟨e, he, hlexeme⟩ := hheld
      exact absurd hlexeme (hnone e he)
  · have hnone : w.popListValue name value = none :=
      if_neg fun hany => hno ((any_same_iff hvalue).mp hany)
    rw [hnone]
    rfl

/-- What goes in for a value has its text if the value is no number, or is spelled as the digits of
its number. -/
theorem lexeme_of_markedEntry {value : Argument} {m : Mark} {t : String}
    (hvalue : value.lexeme = some t) (h : markedEntry host value w = .ok m u) :
    ∃ serial v, isSerial host value w = .ok serial v ∧
      (if serial then ∃ n, asSerial host value v = .ok n u else u = v) ∧
      (m.argument.lexeme = some t ↔
        serial = false ∨ ∃ n, asSerial host value v = .ok n u ∧ n.written = .ok t) := by
  obtain ⟨serial, v, hserial, hentry⟩ := markedEntry_ok h
  refine ⟨serial, v, hserial, ?_⟩
  cases serial with
  | false =>
    obtain ⟨hu, hargument⟩ := hentry
    rw [hargument, hvalue]
    exact ⟨hu, by simp⟩
  | true =>
    obtain ⟨n, digits, hn, hwritten, hlexeme⟩ := hentry
    refine ⟨⟨n, hn⟩, ?_⟩
    rw [hlexeme]
    constructor
    · intro ht
      cases ht
      exact .inr ⟨n, hn, hwritten⟩
    · rintro (hno | ⟨n', hn', hwritten'⟩)
      · cases hno
      · cases hn.symm.trans hn'
        cases hwritten.symm.trans hwritten'
        rfl

/-! ## The headline -/

/-- **A pushed value is found under its own text** exactly if an entry had the text before, or the
value is no number, or it is spelled as the digits of its number.

A push that goes well resolves the value and the name of the list, which may call computed aliases;
`u` is the world after that, which is the world before for a list that they leave alone.  In every
world with the lists that the push leaves, to ask for a value with the text has the answer `found`,
and a pop of such a value, unless its text is the word for an end, takes the first entry with the
text and nothing else if the answer is yes, and changes nothing if it is no. -/
theorem found_of_push {list value : Argument} {more : List Argument} {force b : Bool} {t : String}
    (hpush : Bundled.runCommand host .pushList (list :: value :: more) force w = .ok b w')
    (ht : value.lexeme = some t) :
    ∃ (name : String) (serial found : Bool) (v u : World σ ι),
      w'.asString list = .ok name ∧
      ((∀ token word, Keeps (SameItems name) (host.computedAlias token word)) →
        u.items name = w.items name) ∧
      isSerial host value w = .ok serial v ∧
      (if serial then ∃ n, asSerial host value v = .ok n u else u = v) ∧
      (found = true ↔ u.HasText name t ∨ serial = false ∨
        ∃ n, asSerial host value v = .ok n u ∧ n.written = .ok t) ∧
      ∀ (x : World σ ι) (list' value' : Argument) (rest : List Argument) (force' : Bool),
        x.lists = w'.lists → x.asString list' = .ok name → value'.lexeme = some t →
        Bundled.runQuery host .inList (list' :: value' :: rest) x = .ok (.bool found) x ∧
        (Text.fold t ≠ "front" → Text.fold t ≠ "back" → ∃ x',
          Bundled.runCommand host .popList (list' :: value' :: rest) force' x = .ok true x' ∧
          (∀ other, other ≠ name → x'.items other = x.items other) ∧
          (found = true → PopTakes t (x.items name) (x'.items name)) ∧
          (found = false → x' = x)) := by
  obtain ⟨rfl, p, u, hres, hput⟩ := runCommand_pushList_ok_iff.mp hpush
  obtain ⟨hmark, hlist⟩ := resolvePush_ok hres
  obtain ⟨serial, v, hserial, hu, hown⟩ := lexeme_of_markedEntry ht hmark
  have hscripts : w'.scripts = u.scripts := by rw [(World.pushList_eq_ok hput).2]
  have hname : w'.asString list = .ok p.list := (asString_congr hscripts list).trans hlist
  obtain ⟨found, hfound, -⟩ := runQuery_inList host [] hname ht
  refine ⟨p.list, serial, found, v, u, hname, fun hh => ?_, hserial, hu, ?_, ?_⟩
  · have hkeeps := (sameItems_stepwise p.list).resolvePush hh list value more w
    rwa [after_of_ok hres] at hkeeps
  · rw [hfound, hasText_of_pushList hput, hown]
  · intro x list' value' rest force' hlists hlist' hvalue'
    have hsame : x.HasText p.list t ↔ w'.HasText p.list t := by
      unfold World.HasText World.items
      rw [hlists]
    obtain ⟨answer, hanswer, hquery⟩ := runQuery_inList host rest hlist' hvalue'
    have hagree : answer = found := Bool.eq_iff_iff.mpr (by rw [hanswer, hsame, hfound])
    rw [hagree] at hquery
    refine ⟨hquery, fun hfront hback => ?_⟩
    obtain ⟨x', hpop, hothers, hthere, hmissing⟩ :=
      runCommand_popList_text host rest force' hlist' hvalue' hfront hback
    refine ⟨x', hpop, hothers, fun hyes => ?_, fun hno => ?_⟩
    · exact hthere (hsame.mpr (hfound.mp hyes))
    · refine hmissing fun hheld => ?_
      rw [hfound.mpr (hsame.mp hheld)] at hno
      cases hno

end

/-- The world after the coin was pushed by its name. -/
def pushedCoin : World Unit Unit :=
  (Bundled.runCommand quietHost .pushList [wordOf 0 "l", wordOf 0 "coin"] false).after coinWorld

/-- The coin is in the list, but it is neither found nor taken by its name. -/
theorem found_of_push_coin :
    (pushedCoin.items "l").map Argument.lexeme = [some "9"] ∧
    Bundled.runQuery quietHost .inList [wordOf 0 "l", wordOf 0 "coin"] pushedCoin =
      .ok (.bool false) pushedCoin ∧
    Bundled.runCommand quietHost .popList [wordOf 0 "l", wordOf 0 "coin"] false pushedCoin =
      .ok true pushedCoin := by
  have hquiet (name : String) (token : Unit) (word : String) :
      Keeps (SameItems name) (quietHost.computedAlias token word) := fun _ => rfl
  have hpush : Bundled.runCommand quietHost .pushList [wordOf 0 "l", wordOf 0 "coin"] false
      coinWorld = .ok true pushedCoin := rfl
  obtain ⟨name, serial, found, v, u, hname, hkept, hserial, hu, hfound, hx⟩ :=
    found_of_push hpush (t := "coin") rfl
  have hl : pushedCoin.asString (wordOf 0 "l") = .ok "l" := rfl
  cases hl.symm.trans hname
  have hyes : isSerial quietHost (wordOf 0 "coin") coinWorld = .ok true coinWorld := rfl
  cases hyes.symm.trans hserial
  have hnine : asSerial quietHost (wordOf 0 "coin") coinWorld = .ok (.int 9) coinWorld := rfl
  have hno : found = false := by
    refine Bool.eq_false_iff.mpr fun hyes => ?_
    rcases hfound.mp hyes with ⟨e, he, -⟩ | hserial | ⟨n, hn, hwritten⟩
    · rw [hkept (hquiet "l")] at he
      exact absurd he List.not_mem_nil
    · cases hserial
    · cases hnine.symm.trans hn
      revert hwritten
      decide +kernel
  obtain ⟨hquery, hpop⟩ :=
    hx pushedCoin (wordOf 0 "l") (wordOf 0 "coin") [] false rfl hname rfl
  obtain ⟨x', htaken, -, -, hstays⟩ := hpop (by decide +kernel) (by decide +kernel)
  rw [hno] at hquery
  rw [hstays hno] at htaken
  exact ⟨by decide +kernel, hquery, htaken⟩

end Cadence
