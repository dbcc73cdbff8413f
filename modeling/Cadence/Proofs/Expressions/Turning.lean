/-
  TURNING — where it counts that a call is turned around.

  One mark turns a call around.  It is written in front of the call in the same way wherever the
  call stands, but two readers meet it.

  1. **Operators as arguments** (`Call.cut`, `evaluate_call`, `evaluate_of_improper`) — a call that
     stands alone is read up to the first operator among its arguments.  A comparison does not bear
     a second operator.

  2. **The two readers** — a call that stands alone holds if its answer is the wanted one, and the
     mark changes which one is wanted (`Call.Answers.alone`).  As one side of a comparison a call is
     its answer, whatever the mark says (`Call.Answers.side`).

  3. **The headline** (`turned_alone`) — so a turned call that stands alone is the opposite of the
     call, and a comparison with it is not.
-/
import Cadence.Proofs.Expressions.Consuming
import Mathlib.Data.List.TakeWhile

namespace Cadence

open ScriptM

/-! ## Calls -/

namespace Call

/-- The call turned around. -/
def turned (c : Call) : Call := { c with negated := !c.negated }

/-- The call up to the first operator among its arguments. -/
def cut (c : Call) : Call := { c with args := c.args.takeWhile fun t => !t.kind.endsArguments }

theorem cut_proper (c : Call) : c.cut.Proper := by
  intro t ht
  have hplain := List.all_eq_true.mp (List.all_takeWhile (l := c.args)) t ht
  simpa using hplain

theorem Proper.cut {c : Call} (h : c.Proper) : c.cut = c := by
  have hargs : c.args.takeWhile (fun t => !t.kind.endsArguments) = c.args := by
    refine List.takeWhile_eq_self_iff.mpr fun t ht => ?_
    rw [h t ht]
    rfl
  rw [Call.cut, hargs]

theorem nodes_cut (line : Int) (c : Call) :
    c.nodes line = c.cut.nodes line ++
      (c.args.dropWhile fun t => !t.kind.endsArguments).map (Token.node line) := by
  have hargs : c.args.map (Token.node line) = c.cut.args.map (Token.node line) ++
      (c.args.dropWhile fun t => !t.kind.endsArguments).map (Token.node line) := by
    rw [← List.map_append, cut, List.takeWhile_append_dropWhile]
  simp only [nodes, hargs, List.append_assoc, List.cons_append]
  rfl

end Call

/-- An expression that stands somewhere. -/
def Expr.site (line : Int) (above : List (Node × Nat)) (e : Expr) : Site :=
  ⟨(e.attach line).1, above⟩

section

variable {σ ι : Type} (host : Host σ ι) (owner : Nat) (line : Int) (above : List (Node × Nat))

/-- The handler of a call answers with a truth value.  It is asked for the arguments before the
first operator, and their places are nothing to it. -/
def Call.Answers (c : Call) (w : World σ ι) (b : Bool) (u : World σ ι) : Prop :=
  ∃ h, w.registry.expressions.get? c.keyword = some h ∧ ∀ line place i,
    callExpression host h c.keyword (Token.arguments owner line place i c.cut.args) c.quiet w =
      .ok (.bool b) u

/-- One side of a comparison has a value, wherever it stands. -/
def Operand.Gives (o : Operand) (w : World σ ι) (v : Value) (u : World σ ι) : Prop :=
  o.Proper ∧ ∀ line next place i, o.value host owner line next place i w = .ok v u

/-! ## Operators as arguments -/

variable {line above}

/-- What is left of some tokens begins with an operator. -/
theorem outside_dropWhile (place : Site) (i : Nat) (ts : List Token) :
    Outside (place.below i
      ((ts.dropWhile fun t => !t.kind.endsArguments).map (Token.node line))) := by
  have hfirst := List.head?_dropWhile_not (fun t : Token => !t.kind.endsArguments) ts
  cases hdrop : ts.dropWhile fun t => !t.kind.endsArguments with
  | nil => exact outside_nil
  | cons t rest =>
    rw [hdrop] at hfirst
    intro s hs
    cases hs
    show (t.node line).kind.endsArguments = true
    rw [Token.kind_node]
    simpa using hfirst

/-- A call that stands alone holds as it does up to the first operator. -/
theorem evaluate_call (c : Call) :
    evaluate host owner (Expr.site line above (.call c)) =
      c.cut.holds host owner line (Expr.site line above (.call c)) := by
  let place := Expr.site line above (.call c)
  have hsome : place.children ≠ [] := by
    show place.below 0 (c.nodes line) ≠ []
    rw [← List.isEmpty_eq_false_iff, Site.isEmpty_below]
    simp [Call.nodes]
  have htokens : place.children = place.below 0 (c.cut.nodes line) ++
      place.below (0 + (c.cut.nodes line).length)
        ((c.args.dropWhile fun t => !t.kind.endsArguments).map (Token.node line)) := by
    show place.below 0 (c.nodes line) = _
    rw [Call.nodes_cut, Site.below_append]
  rw [(evaluate_of_tokens hsome).1 rfl, htokens]
  unfold evaluateUnary
  rw [takeMarks_call]
  simp only [keyword?, Call.site, Site.down, Site.lexeme, Option.map_some,
    takeArguments_row c.cut_proper (outside_dropWhile place _ c.args)]
  rfl

theorem length_operatorsIn (place : Site) (i : Nat) (ns : List Node) :
    (operatorsIn (place.below i ns)).length = ns.countP fun n => n.kind.endsArguments := by
  unfold operatorsIn
  induction ns generalizing i with
  | nil => rfl
  | cons n ns ih =>
    rw [Site.below, List.filter_cons, List.countP_cons, ← ih (i + 1)]
    cases hn : n.kind.endsArguments with
    | true => simp [Site.kind, hn]
    | false => simp [Site.kind, hn]

/-- An operator among the arguments of a side is one of its tokens. -/
theorem Operand.countP_nodes (line : Int) {o : Operand} (ho : ¬ o.Proper) :
    0 < (o.nodes line).countP fun n => n.kind.endsArguments := by
  cases o with
  | token t => exact absurd trivial ho
  | call c =>
    have hsome : ∃ t ∈ c.args, t.kind.endsArguments = true := by
      simpa [Operand.Proper, Call.Proper] using ho
    obtain ⟨t, ht, hop⟩ := hsome
    refine List.countP_pos_iff.mpr ⟨t.node line, ?_, by rwa [Token.kind_node]⟩
    exact List.mem_append_right _ (List.mem_cons_of_mem _ (List.mem_map_of_mem ht))

/-- **A comparison does not bear an operator among the arguments of its sides.** -/
theorem evaluate_of_improper {lhs rhs : Operand} {op : String} {kind : Kind}
    (hop : operator? op = some kind) (hk : kind.isComparison = true)
    (h : ¬ (lhs.Proper ∧ rhs.Proper)) (w : World σ ι) :
    ∃ fault u,
      evaluate host owner (Expr.site line above (.binary lhs op rhs)) w = .error fault u := by
  have hattach : (Expr.binary lhs op rhs).attach line =
      ({ kind := .binary, line,
         children := lhs.nodes line ++ { kind, lexeme := some op, line } :: rhs.nodes line },
        none) := by
    rw [Expr.attach, hop]
  have hends : kind.endsArguments = true := by rw [Kind.endsArguments, hk, Bool.or_true]
  refine evaluate_of_two_operators (by rw [Expr.site, hattach]; rfl) ?_
  rw [Expr.site, hattach]
  show 2 ≤ (operatorsIn (Site.below _ 0 (lhs.nodes line ++ _ :: rhs.nodes line))).length
  rw [length_operatorsIn, List.countP_append, List.countP_cons]
  simp only [hends, if_true]
  rcases Classical.not_and_iff_not_or_not.mp h with hl | hr
  · have := Operand.countP_nodes line hl
    omega
  · have := Operand.countP_nodes line hr
    omega

/-! ## The two readers -/

variable {host owner} {w u v : World σ ι} {b r : Bool}

/-- A turned call has the same answer. -/
theorem Call.Answers.turned {c : Call} (h : c.Answers host owner w b u) :
    c.turned.Answers host owner w b u := h

theorem compare_equal_bool (a b : Bool) (s : Option Site) :
    Value.compare .equal (.bool a) (.bool b) s = .ok (a == b) := rfl

/-- A call that stands alone holds if its answer is the wanted one. -/
theorem Call.Answers.alone {c : Call} (h : c.Answers host owner w b u) :
    evaluate host owner (Expr.site line above (.call c)) w = .ok (b == !c.negated) u := by
  obtain ⟨handler, hget, hcall⟩ := h
  have hkeyword : w.registry.expressions.get? c.cut.keyword = some handler := hget
  rw [evaluate_call]
  unfold Call.holds expressionHandler?
  simp only [bind_assoc, pure_bind]
  rw [get_bind, hkeyword]
  exact (bind_of_ok (hcall _ _ _)).trans (lift_eq_ok_iff.mpr ⟨compare_equal_bool _ _ _, rfl⟩)

/-- As one side of a comparison a call is its answer. -/
theorem Call.Answers.side {c : Call} (h : c.Answers host owner w b u) (hc : c.Proper) :
    (Operand.call c).Gives host owner w (.bool b) u := by
  obtain ⟨handler, hget, hcall⟩ := h
  refine ⟨hc, fun line next place i => ?_⟩
  unfold Operand.value expressionHandler?
  simp only [bind_assoc, pure_bind]
  rw [get_bind, hget]
  rw [hc.cut] at hcall
  exact hcall _ _ _

/-- A comparison of two sides that have values. -/
theorem evaluate_of_gives {lhs rhs : Operand} {l r : Value} {op : String} {kind : Kind}
    (hop : operator? op = some kind) (hk : kind.isComparison = true)
    (hl : lhs.Gives host owner w l v) (hr : rhs.Gives host owner v r u)
    (hcompare : ∀ s, Value.compare kind l r s = .ok b) :
    evaluate host owner (Expr.site line above (.binary lhs op rhs)) w = .ok b u := by
  have hsimple : (Expr.binary lhs op rhs).Simple := ⟨⟨kind, hop, hk⟩, hl.1, hr.1⟩
  have hplace : (Expr.site line above (.binary lhs op rhs)).node =
      ((Expr.binary lhs op rhs).attach line).1 := rfl
  rw [evaluate_attach_simple host hsimple hplace, Expr.term, hop]
  refine (bind_of_ok (hl.2 _ _ _ _)).trans ((bind_of_ok (hr.2 _ _ _ _)).trans ?_)
  exact lift_eq_ok_iff.mpr ⟨hcompare _, rfl⟩

end

/-! ## The headline -/

/-- **Only alone does a turned call say the opposite.**  Let the handler of a call answer with a
truth value.

* Alone, the call and the turned call both go well, and one holds exactly if the other does not.
* As the left or the right side of a comparison with a truth value both go well, and both hold
  exactly if the answer is that value: the mark changes nothing.
* If an argument is an operator, neither can be compared. -/
theorem turned_alone {σ ι : Type} (host : Host σ ι) (owner : Nat) (line : Int)
    (above : List (Node × Nat)) {c : Call} {w u : World σ ι} {b : Bool}
    (hc : c.Answers host owner w b u) :
    (∃ holds,
      evaluate host owner (Expr.site line above (.call c)) w = .ok holds u ∧
      evaluate host owner (Expr.site line above (.call c.turned)) w = .ok (!holds) u) ∧
    (c.Proper → ∀ (o : Operand) (r : Bool) (v : World σ ι),
      (o.Gives host owner u (.bool r) v → ∀ d ∈ [c, c.turned],
        evaluate host owner (Expr.site line above (.binary (.call d) "==" o)) w = .ok (b == r) v) ∧
      (o.Gives host owner v (.bool r) w → ∀ d ∈ [c, c.turned],
        evaluate host owner (Expr.site line above (.binary o "==" (.call d))) v = .ok (r == b) u)) ∧
    (¬ c.Proper → ∀ o : Operand, ∀ d ∈ [c, c.turned], ∃ fault v,
      evaluate host owner (Expr.site line above (.binary (.call d) "==" o)) w =
        .error fault v) := by
  have hop : operator? "==" = some .equal := by decide +kernel
  have hanswers : ∀ d ∈ [c, c.turned], d.Answers host owner w b u := by
    intro d hd
    rcases List.mem_cons.mp hd with rfl | hd
    · exact hc
    · obtain rfl := List.mem_singleton.mp hd
      exact hc.turned
  have hproper : ∀ d ∈ [c, c.turned], (d.Proper ↔ c.Proper) := by
    intro d hd
    rcases List.mem_cons.mp hd with rfl | hd
    · exact Iff.rfl
    · obtain rfl := List.mem_singleton.mp hd
      exact Iff.rfl
  refine ⟨⟨b == !c.negated, hc.alone, ?_⟩, fun hp o r v => ⟨fun ho d hd => ?_, fun ho d hd => ?_⟩,
    fun hp o d hd => ?_⟩
  · have hopposite : (b == !c.turned.negated) = !(b == !c.negated) := by
      show (b == !!c.negated) = _
      cases b <;> cases c.negated <;> rfl
    rw [← hopposite]
    exact hc.turned.alone
  · have hside := (hanswers d hd).side ((hproper d hd).mpr hp)
    exact evaluate_of_gives hop rfl hside ho fun s => compare_equal_bool b r s
  · have hside := (hanswers d hd).side ((hproper d hd).mpr hp)
    exact evaluate_of_gives hop rfl ho hside fun s => compare_equal_bool r b s
  · have himproper : ¬ ((Operand.call d).Proper ∧ o.Proper) := fun hboth =>
      hp ((hproper d hd).mp hboth.1)
    exact evaluate_of_improper host owner hop rfl himproper w

/-- A call of the word for truth. -/
def certain : Call := { keyword := "true" }

/-- The same call with an operator as its argument. -/
def certainBefore : Call := { keyword := "true", args := [.leaf .equal (some "==")] }

/-- The word for truth, written out. -/
def truth : Operand := .token (.bool true)

theorem certain_answers : certain.Answers quietHost 0 wordedWorld true wordedWorld :=
  ⟨.bundled .true_, rfl, fun _ _ _ => rfl⟩

theorem truth_gives : truth.Gives quietHost 0 wordedWorld (.bool true) wordedWorld :=
  ⟨trivial, fun _ _ _ _ => rfl⟩

/-- Not true is false, but it is equal to true; and it cannot be compared if an operator is its
argument. -/
theorem turned_alone_certain :
    (∃ holds,
      evaluate quietHost 0 (Expr.site 1 [] (.call certain)) wordedWorld = .ok holds wordedWorld ∧
      evaluate quietHost 0 (Expr.site 1 [] (.call certain.turned)) wordedWorld =
        .ok (!holds) wordedWorld) ∧
    evaluate quietHost 0 (Expr.site 1 [] (.binary (.call certain.turned) "==" truth)) wordedWorld =
      .ok (true == true) wordedWorld ∧
    evaluate quietHost 0 (Expr.site 1 [] (.binary truth "==" (.call certain.turned))) wordedWorld =
      .ok (true == true) wordedWorld ∧
    ∃ fault v,
      evaluate quietHost 0 (Expr.site 1 [] (.binary (.call certainBefore.turned) "==" truth))
        wordedWorld = .error fault v := by
  have hproper : certain.Proper := fun t ht => absurd ht List.not_mem_nil
  have himproper : ¬ certainBefore.Proper := fun h =>
    absurd (h _ List.mem_cons_self) (by decide)
  have hbefore : certainBefore.Answers quietHost 0 wordedWorld true wordedWorld :=
    ⟨.bundled .true_, rfl, fun _ _ _ => rfl⟩
  have hlast : ∀ c : Call, c.turned ∈ [c, c.turned] := fun c =>
    List.mem_cons_of_mem _ List.mem_cons_self
  obtain ⟨halone, hcompared, -⟩ := turned_alone quietHost 0 1 [] certain_answers
  obtain ⟨hleft, hright⟩ := hcompared hproper truth true wordedWorld
  obtain ⟨-, -, hstopped⟩ := turned_alone quietHost 0 1 [] hbefore
  exact ⟨halone, hleft truth_gives _ (hlast _), hright truth_gives _ (hlast _),
    hstopped himproper truth _ (hlast _)⟩

/-- **A turned call is compared like the call**: true is equal to true, and so is not true. -/
theorem alike_of_certain :
    evaluate quietHost 0 (Expr.site 1 [] (.binary (.call certain) "==" truth)) wordedWorld =
      .ok true wordedWorld ∧
    evaluate quietHost 0 (Expr.site 1 [] (.binary (.call certain.turned) "==" truth)) wordedWorld =
      .ok true wordedWorld := by
  have hop : operator? "==" = some .equal := by decide +kernel
  have hproper : certain.Proper := fun t ht => absurd ht List.not_mem_nil
  have hcompare := compare_equal_bool true true
  exact ⟨evaluate_of_gives hop rfl (certain_answers.side hproper) truth_gives hcompare,
    evaluate_of_gives hop rfl (certain_answers.turned.side hproper) truth_gives hcompare⟩

end Cadence
