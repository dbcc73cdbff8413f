/-
  LISTS — what is put into a list and what is taken from it.

  1. **The list of a name** (`World.items`) — what each change of the stores does to it, and to no
     other; a list that is not there counts as empty.

  2. **Pushes** (`World.entry_of_pushList`) — a push that goes well leaves an entry with the text of
     its value in the list, its own or one that was there.

  3. **Pops** (`takes_of_pop`) — a pop takes the entry at an end, or the first one with a text
     (`PopTakes`), and leaves the others in their order.
-/
import Cadence.Proofs.Stores.Resolving

namespace Cadence

open ScriptM

section

variable {σ ι : Type}

/-! ## The list of a name -/

/-- The entries of a list; none if there is no such list. -/
def World.items (w : World σ ι) (name : String) : List Argument := (w.lists.get? name).getD []

namespace World

variable {w w' : World σ ι} {name : String} {a : Argument} {front unique : Bool}

theorem items_of_some {items : List Argument} (h : w.lists.get? name = some items) :
    w.items name = items := by
  rw [World.items, h]
  rfl

theorem items_of_none (h : w.lists.get? name = none) : w.items name = [] := by
  rw [items, h]
  rfl

theorem items_insert (w : World σ ι) (name list : String) (items : List Argument) :
    World.items { w with lists := w.lists.insert name items } list =
      if name = list then items else w.items list := by
  show ((w.lists.insert name items).get? list).getD [] = _
  rw [Table.get?_insert]
  split
  · rfl
  · rfl

theorem items_erase (w : World σ ι) (name list : String) :
    World.items { w with lists := w.lists.erase name } list =
      if name = list then [] else w.items list := by
  show ((w.lists.erase name).get? list).getD [] = _
  rw [Table.get?_erase]
  split
  · rfl
  · rfl

theorem items_createList (w : World σ ι) (name list : String) :
    (w.createList name).items list = w.items list := by
  unfold createList
  split
  · rfl
  · next hnone =>
    rw [items_insert]
    split
    · next heq =>
      subst heq
      have hmissing : w.lists.get? name = none := by
        cases h : w.lists.get? name with
        | none => rfl
        | some items => exact absurd (by simp [Table.contains, h]) hnone
      rw [items_of_none hmissing]
    · rfl

theorem items_clearList (w : World σ ι) (name list : String) :
    (w.clearList name).items list = if name = list then [] else w.items list := by
  unfold clearList Table.update
  cases h : w.lists.get? name with
  | some items => exact items_insert w name list []
  | none =>
    show w.items list = _
    split
    · next heq =>
      subst heq
      exact items_of_none h
    · rfl

/-- A push to a list puts the entry at an end, unless it is forced and finds its text; where there
is no list nothing happens. -/
theorem items_pushList (w : World σ ι) (name list : String) (a : Argument) (front unique : Bool) :
    ((w.pushList name a front unique).toOption.getD w).items list =
      if name = list ∧ w.lists.contains name ∧ ¬ (unique && (w.items list).any (·.same a)) then
        if front then a :: w.items list else w.items list ++ [a]
      else w.items list := by
  unfold pushList requireList
  cases hget : w.lists.get? name with
  | none =>
    have hno : ¬ w.lists.contains name = true := by simp [Table.contains, hget]
    rw [if_neg fun h => hno h.2.1]
    rfl
  | some items =>
    have hyes : w.lists.contains name = true := by simp [Table.contains, hget]
    have hitems := items_of_some hget
    show World.items (if unique && items.any (·.same a) then w
      else { w with lists := w.lists.insert name (if front then a :: items else items ++ [a]) })
        list = _
    by_cases hname : name = list
    · subst hname
      by_cases hfound : (unique && items.any (·.same a)) = true
      · have hstays : ¬ (name = name ∧ w.lists.contains name ∧
            ¬ (unique && (w.items name).any (·.same a))) := by
          rw [hitems]
          exact fun h => h.2.2 hfound
        rw [if_neg hstays, if_pos hfound]
      · have hgoes : name = name ∧ w.lists.contains name ∧
            ¬ (unique && (w.items name).any (·.same a)) := by
          rw [hitems]
          exact ⟨rfl, hyes, hfound⟩
        rw [if_pos hgoes, if_neg hfound, items_insert, if_pos rfl, hitems]
    · have hother : ¬ (name = list ∧ w.lists.contains name ∧
          ¬ (unique && (w.items list).any (·.same a))) := fun h => hname h.1
      rw [if_neg hother]
      split
      · rfl
      · rw [items_insert, if_neg hname]

/-- A pop takes the entry at an end; where there is none nothing happens. -/
theorem items_popList (w : World σ ι) (name list : String) (front : Bool) :
    ((w.popList name front).toOption.getD w).items list =
      if name = list then if front then (w.items list).tail else (w.items list).dropLast
      else w.items list := by
  unfold popList requireList
  cases hget : w.lists.get? name with
  | none =>
    show w.items list = _
    split
    · next heq =>
      subst heq
      rw [items_of_none hget]
      cases front with
      | false => rfl
      | true => rfl
    · rfl
  | some items =>
    have hitems := items_of_some hget
    show ((if items.isEmpty then Except.error _ else Except.ok { w with
      lists := w.lists.insert name (if front then items.tail else items.dropLast) } :
        Except Fault (World σ ι)).toOption.getD w).items list = _
    by_cases hempty : items.isEmpty = true
    · rw [if_pos hempty]
      show w.items list = _
      split
      · next heq =>
        subst heq
        rw [hitems, List.isEmpty_iff.mp hempty]
        cases front with
        | false => rfl
        | true => rfl
      · rfl
    · rw [if_neg hempty]
      show World.items { w with lists := w.lists.insert name _ } list = _
      rw [items_insert]
      split
      · next heq =>
        subst heq
        rw [hitems]
      · rfl

theorem items_popListValue (w : World σ ι) (name list : String) (a : Argument) :
    ((w.popListValue name a).getD w).items list =
      if name = list then (w.items list).eraseP (·.same a) else w.items list := by
  unfold popListValue
  show (Option.getD (if (w.items name).any (·.same a) then _ else none) w).items list = _
  by_cases hany : (w.items name).any (·.same a) = true
  · rw [if_pos hany]
    show World.items { w with lists := w.lists.insert name _ } list = _
    rw [items_insert]
    split
    · next heq =>
      subst heq
      rfl
    · rfl
  · rw [if_neg hany]
    show w.items list = _
    split
    · next heq =>
      subst heq
      rw [List.eraseP_of_forall_not]
      intro b hb hsame
      exact hany (List.any_eq_true.mpr ⟨b, hb, hsame⟩)
    · rfl

end World

/-! ## What a push puts in -/

/-- A value is pushed to a list that is there, and only lists are different then. -/
theorem World.pushList_eq_ok {w w' : World σ ι} {name : String} {a : Argument}
    {front unique : Bool} (h : w.pushList name a front unique = .ok w') :
    w.lists.contains name ∧ w' = { w with lists := w'.lists } := by
  unfold pushList requireList at h
  cases hget : w.lists.get? name with
  | none =>
    rw [hget] at h
    cases h
  | some items =>
    rw [hget] at h
    refine ⟨by simp [Table.contains, hget], ?_⟩
    have hput : (if unique && items.any (·.same a) then w else
        { w with lists := w.lists.insert name (if front then a :: items else items ++ [a]) }) =
        w' := Except.ok.inj h
    subst hput
    by_cases hfound : (unique && items.any (·.same a)) = true
    · rw [if_pos hfound]
    · rw [if_neg hfound]

/-- Then an entry with its text is in the list: its own, or one that was there already. -/
theorem World.entry_of_pushList {w w' : World σ ι} {name : String} {a : Argument}
    {front unique : Bool} (h : w.pushList name a front unique = .ok w') :
    ∃ e ∈ w'.items name, e.lexeme = a.lexeme ∧ (e = a ∨ unique = true ∧ e ∈ w.items name) := by
  obtain ⟨hthere, -⟩ := pushList_eq_ok h
  have hitems := w.items_pushList name name a front unique
  rw [h] at hitems
  have hin : w'.items name = _ := hitems
  by_cases hfound : (unique && (w.items name).any (·.same a)) = true
  · obtain ⟨hunique, hany⟩ := Bool.and_eq_true_iff.mp hfound
    obtain ⟨e, he, hsame⟩ := List.any_eq_true.mp hany
    rw [hin, if_neg fun h => h.2.2 hfound]
    exact ⟨e, he, of_decide_eq_true hsame, .inr ⟨hunique, he⟩⟩
  · refine ⟨a, ?_, rfl, .inl rfl⟩
    rw [hin, if_pos ⟨rfl, hthere, hfound⟩]
    cases front with
    | true => exact List.mem_cons_self
    | false => exact List.mem_append_right _ (List.mem_singleton_self _)

/-! ## What a pop takes -/

/-- A pop with a text takes one entry and leaves the rest in order. -/
inductive PopTakes (which : String) : List Argument → List Argument → Prop where
  /-- The first one. -/
  | front (h : Text.fold which = "front") (a : Argument) (rest : List Argument) :
    PopTakes which (a :: rest) rest
  /-- The last one. -/
  | back (h : Text.fold which = "back") (rest : List Argument) (a : Argument) :
    PopTakes which (rest ++ [a]) rest
  /-- The first one with the text. -/
  | first (hfront : Text.fold which ≠ "front") (hback : Text.fold which ≠ "back")
    (before : List Argument) (a : Argument) (after : List Argument) (ha : a.lexeme = some which)
    (hbefore : ∀ b ∈ before, b.lexeme ≠ some which) :
    PopTakes which (before ++ a :: after) (before ++ after)

/-- A list from which an end can be taken has entries. -/
theorem World.ne_nil_of_popList {w w' : World σ ι} {name : String} {front : Bool}
    (h : w.popList name front = .ok w') : w.items name ≠ [] := by
  unfold popList at h
  cases hreq : w.requireList name with
  | error fault =>
    rw [hreq] at h
    cases h
  | ok items =>
    rw [hreq] at h
    have hitems : w.items name = items := by
      unfold requireList at hreq
      cases hget : w.lists.get? name with
      | none =>
        rw [hget] at hreq
        cases hreq
      | some found =>
        rw [hget] at hreq
        cases hreq
        exact items_of_some hget
    rintro hnil
    rw [hitems] at hnil
    subst hnil
    cases h

theorem Argument.lexeme_of_text {a : Argument} {t : String} (h : a.text = .ok t) :
    a.lexeme = some t := by
  unfold Argument.text at h
  cases ht : a.lexeme with
  | none =>
    rw [ht] at h
    cases h
  | some t' =>
    rw [ht] at h
    cases h
    rfl

/-- A pop of the first entry with a text takes it, if there is one. -/
theorem World.popListValue_takes (w : World σ ι) {name which : String} {value : Argument}
    (hvalue : value.lexeme = some which) (hfront : Text.fold which ≠ "front")
    (hback : Text.fold which ≠ "back") :
    PopTakes which (w.items name) (((w.popListValue name value).getD w).items name) ∨
      (∀ a ∈ w.items name, a.lexeme ≠ some which) ∧ (w.popListValue name value).getD w = w := by
  rw [items_popListValue, if_pos rfl]
  by_cases hany : ∃ a ∈ w.items name, a.same value = true
  · obtain ⟨a, ha, hsame⟩ := hany
    obtain ⟨b, before, after, hbefore, hb, hsplit, herase⟩ :=
      List.exists_of_eraseP (p := (·.same value)) ha hsame
    rw [herase, hsplit]
    refine .inl (.first hfront hback before b after ?_ fun c hc hlex => ?_)
    · exact (of_decide_eq_true hb).trans hvalue
    · exact hbefore c hc (decide_eq_true (hlex.trans hvalue.symm))
  · refine .inr ⟨fun a ha hlex => ?_, ?_⟩
    · exact hany ⟨a, ha, decide_eq_true (hlex.trans hvalue.symm)⟩
    · have hnone : w.popListValue name value = none := by
        unfold popListValue
        refine if_neg fun h => hany ?_
        obtain ⟨a, ha, hsame⟩ := List.any_eq_true.mp h
        exact ⟨a, ha, hsame⟩
      rw [hnone]
      rfl

/-- A pop of an end takes it, and leaves the other lists. -/
theorem World.popList_takes {w w' : World σ ι} {name which : String} {front : Bool}
    (hwhich : Text.fold which = if front then "front" else "back")
    (h : w.popList name front = .ok w') :
    PopTakes which (w.items name) (w'.items name) ∧
      ∀ other, other ≠ name → w'.items other = w.items other := by
  have hitems (list : String) : w'.items list =
      if name = list then if front then (w.items list).tail else (w.items list).dropLast
      else w.items list := by
    rw [← w.items_popList name list front, h]
    rfl
  refine ⟨?_, fun other hother => (hitems other).trans (if_neg (Ne.symm hother))⟩
  rw [hitems name, if_pos rfl]
  have hsome := ne_nil_of_popList h
  cases front with
  | true =>
    obtain ⟨a, rest, hcons⟩ := List.exists_cons_of_ne_nil hsome
    rw [hcons]
    exact .front hwhich a rest
  | false =>
    have hsnoc := List.dropLast_concat_getLast hsome
    have htakes := PopTakes.back hwhich (w.items name).dropLast ((w.items name).getLast hsome)
    rwa [hsnoc] at htakes

/-- **A pop that goes well takes exactly one entry**, or finds none with its text. -/
theorem takes_of_pop {w w' : World σ ι} {list value : Argument}
    (h : Bundled.pop list value w = .ok () w') :
    ∃ name which, w.asString list = .ok name ∧ value.lexeme = some which ∧
      (∀ other, other ≠ name → w'.items other = w.items other) ∧
      (PopTakes which (w.items name) (w'.items name) ∨
        Text.fold which ≠ "front" ∧ Text.fold which ≠ "back" ∧
          (∀ a ∈ w.items name, a.lexeme ≠ some which) ∧ w' = w) := by
  unfold Bundled.pop at h
  obtain ⟨name, u, hlist, hrest⟩ := bind_ok h
  obtain ⟨hname, rfl⟩ := ok_of_reading hlist
  obtain ⟨which, v, hlift, hpop⟩ := bind_ok hrest
  obtain ⟨htext, rfl⟩ := ok_of_reading (f := fun _ => value.text) hlift
  have hvalue : value.lexeme = some which := Argument.lexeme_of_text htext
  refine ⟨name, which, hname, hvalue, ?_⟩
  by_cases hend : Text.fold which = "front" ∨ Text.fold which = "back"
  · have hset : (do set (← reading fun w => w.popList name (Text.fold which = "front")) :
        ScriptM σ ι Unit) v = .ok () w' := by
      rw [← hpop]
      exact congrFun (if_pos hend).symm v
    obtain ⟨w₁, u, hread, hput⟩ := bind_ok hset
    obtain ⟨htaken, rfl⟩ := ok_of_reading hread
    cases hput
    have hside : Text.fold which =
        if decide (Text.fold which = "front") = true then "front" else "back" := by
      rcases hend with hfront | hback
      · simp [hfront]
      · simp [hback]
    obtain ⟨htakes, hothers⟩ := World.popList_takes hside htaken
    exact ⟨hothers, .inl htakes⟩
  · have hset : (modify fun w => (w.popListValue name value).getD w : ScriptM σ ι Unit) v =
        .ok () w' := by
      rw [← hpop]
      exact congrFun (if_neg hend).symm v
    cases hset
    have hfront : Text.fold which ≠ "front" := fun hf => hend (.inl hf)
    have hback : Text.fold which ≠ "back" := fun hb => hend (.inr hb)
    constructor
    · intro other hother
      rw [World.items_popListValue, if_neg (Ne.symm hother)]
    · rcases v.popListValue_takes hvalue hfront hback with htakes | ⟨hmissing, hsame⟩
      · exact .inl htakes
      · exact .inr ⟨hfront, hback, hmissing, hsame⟩

/-- A pop by command is a pop. -/
theorem runCommand_popList {host : Host σ ι} {args : List Argument} {force b : Bool}
    {w w' : World σ ι} (h : Bundled.runCommand host .popList args force w = .ok b w') :
    ∃ list value more, args = list :: value :: more ∧ Bundled.pop list value w = .ok () w' := by
  match args with
  | [] | [_] => cases h
  | list :: value :: more =>
    obtain ⟨_, u, hpop, hdone⟩ := bind_ok h
    cases hdone
    exact ⟨list, value, more, rfl, hpop⟩

end

end Cadence
