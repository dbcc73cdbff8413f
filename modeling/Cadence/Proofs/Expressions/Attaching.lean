/-
  ATTACHING — the rows of tokens that expressions become say what the expressions say.

  1. **Rows** — a call becomes its marks, its keyword and its arguments.  From the front of such a
     row the marks are taken off (`takeMarks_call`), and then the arguments, up to the next operator
     and no further (`takeArguments_row`).

  2. **Sides** — so one side of a comparison is evaluated to its value, and evaluation goes on with
     what stands behind it (`evaluateOperand_bind`).

  3. **Terms and chains** — calls and comparisons hold as they say (`evaluateSimple_attach`), and a
     chain is folded over its terms, by an induction on the terms that are left
     (`evaluateRest_attach`).
-/
import Cadence.Proofs.Expressions.Direct

namespace Cadence

open ScriptM

/-! ## Rows -/

namespace Site

theorem below_append (place : Site) (i : Nat) (ms ns : List Node) :
    place.below i (ms ++ ns) = place.below i ms ++ place.below (i + ms.length) ns := by
  induction ms generalizing i with
  | nil => rfl
  | cons m ms ih =>
    rw [List.cons_append, below, ih, List.length_cons, Nat.add_right_comm]
    rfl

theorem isEmpty_below (place : Site) (i : Nat) (ns : List Node) :
    (place.below i ns).isEmpty = ns.isEmpty := by
  cases ns <;> rfl

theorem node_mem_of_mem_below {place s : Site} {i : Nat} {ns : List Node}
    (h : s ∈ place.below i ns) : s.node ∈ ns := by
  induction ns generalizing i with
  | nil => exact absurd h List.not_mem_nil
  | cons n ns ih =>
    rcases List.mem_cons.mp h with rfl | hmem
    · exact List.mem_cons_self
    · exact List.mem_cons_of_mem n (ih hmem)

end Site

section

variable {σ ι : Type} (host : Host σ ι) (owner : Nat) (line : Int) (place : Site)

/-- The row of some tokens, as arguments. -/
theorem map_below_eq_arguments (i : Nat) (ts : List Token) :
    (place.below i (ts.map (Token.node line))).map (fun s => (⟨owner, s⟩ : Argument)) =
      Token.arguments owner line place i ts := by
  unfold Token.arguments
  induction ts generalizing i with
  | nil => rfl
  | cons t ts ih =>
    rw [List.mapIdx_cons, List.map_cons, Site.below, List.map_cons, ih]
    congr 1
    exact congrArg (List.mapIdx · ts) (funext fun k => by rw [Nat.add_right_comm, Nat.add_assoc])

/-- The marks of a call stand before its keyword. -/
theorem takeMarks_call (i : Nat) (c : Call) (more : List Site) :
    takeMarks {} (place.below i (c.nodes line) ++ more) =
      ({ quiet := c.quiet, negated := c.negated },
        c.site line place i ::
          (place.below (i + c.marks + 1) (c.args.map (Token.node line)) ++ more)) := by
  obtain ⟨keyword, args, quiet, negated⟩ := c
  cases quiet <;> cases negated <;> rfl

variable {owner line place}

/-- Nothing stands there, or an operator first. -/
def Outside (more : List Site) : Prop := ∀ s ∈ more.head?, s.kind.endsArguments = true

theorem outside_nil : Outside [] := fun s hs => absurd hs (Option.not_mem_none s)

/-- An operator is no argument. -/
theorem takeArguments_outside {more : List Site} (hmore : Outside more) :
    takeArguments owner more = ([], more) := by
  cases more with
  | nil => rfl
  | cons s rest => simp [takeArguments, hmore s rfl]

/-- The arguments of a call end where an operator stands, or where nothing is left. -/
theorem takeArguments_row {ts : List Token} (hts : ∀ t ∈ ts, t.kind.endsArguments = false)
    {more : List Site} (hmore : Outside more) (i : Nat) :
    takeArguments owner (place.below i (ts.map (Token.node line)) ++ more) =
      (Token.arguments owner line place i ts, more) := by
  have hrow : ∀ s ∈ place.below i (ts.map (Token.node line)), (!s.kind.endsArguments) = true := by
    intro s hs
    obtain ⟨t, ht, hn⟩ := List.mem_map.mp (Site.node_mem_of_mem_below hs)
    show (!s.node.kind.endsArguments) = true
    rw [← hn, Token.kind_node, hts t ht]
    rfl
  obtain ⟨htake, hdrop⟩ := Prod.mk.inj (takeArguments_outside hmore)
  unfold takeArguments
  rw [List.takeWhile_append_of_pos hrow, List.dropWhile_append_of_pos hrow, List.map_append, htake,
    hdrop, List.append_nil, map_below_eq_arguments]

/-! ## Sides -/

/-- A call as one side of a comparison: its handler's answer, or the word itself where there is no
handler, with its arguments left over. -/
theorem evaluateOperand_call {c : Call} (hc : c.Proper) (i : Nat) {more : List Site}
    (hmore : Outside more) :
    evaluateOperand host owner (place.below i (c.nodes line) ++ more) = (do
      match ← expressionHandler? c.keyword with
      | none => return (.text c.keyword,
          place.below (i + c.marks + 1) (c.args.map (Token.node line)) ++ more)
      | some h =>
        return (← callExpression host h c.keyword (c.arguments owner line place i) c.quiet, more))
    := by
  unfold evaluateOperand
  rw [takeMarks_call]
  simp only [Call.site, Site.down, Site.kind, Site.lexeme, takeArguments_row hc hmore]
  rfl

/-- A value that is written out as one side of a comparison, whatever stands behind it. -/
theorem evaluateOperand_written {s : Site} (hs : s.kind.isModifier = false)
    (hword : s.kind ≠ .operand) (more : List Site) :
    evaluateOperand host owner (s :: more) = (do return (← s.value host, more)) := by
  unfold evaluateOperand Site.value
  rw [takeMarks, hs]
  simp only [Bool.false_eq_true, if_false]
  cases hk : s.kind with
  | operand => exact absurd hk hword
  | integer | serial | double => simp only [bind_assoc, pure_bind]
  | string => simp only [pure_bind]
  | _ => rfl

/-- A token that is no mark as one side of a comparison. -/
theorem evaluateOperand_site {s : Site} (hs : s.kind.isModifier = false) {more : List Site}
    (hmore : Outside more) :
    evaluateOperand host owner (s :: more) = (do return (← s.value host, more)) := by
  by_cases hword : s.kind = .operand
  · unfold evaluateOperand Site.value
    rw [takeMarks, hs]
    simp only [Bool.false_eq_true, if_false, hword]
    cases s.lexeme with
    | none => simp only [pure_bind]
    | some word =>
      simp only [bind_assoc]
      congr 1
      funext h
      cases h with
      | none => simp only [pure_bind]
      | some h => simp only [takeArguments_outside hmore]
  · exact evaluateOperand_written host hs hword more

/-- A mark alone is no side of a comparison: the operator behind it is taken for its value. -/
theorem evaluateOperand_mark {s : Site} (hs : s.kind.isModifier = true) {more : List Site}
    (hmore : Outside more) :
    evaluateOperand host owner (s :: more) = fail more.head? (Operand.lone more.head?) := by
  unfold evaluateOperand
  rw [takeMarks, hs]
  cases more with
  | nil => rfl
  | cons op rest =>
    have hop := hmore op rfl
    rw [if_pos rfl, takeMarks]
    cases hk : op.kind with
    | integer | serial | double | string | operand | quiet | force | negate =>
      rw [hk] at hop
      exact absurd hop (by decide)
    | _ => simp [Kind.isModifier, hk, Operand.lone]

/-- **One side of a comparison is evaluated to its value**, and evaluation goes on with what stands
behind it, if it refuses what a side leaves over. -/
theorem evaluateOperand_bind {α : Type} {o : Operand} (ho : o.Proper) (i : Nat) {more : List Site}
    (hmore : Outside more)
    {f : Value × List Site → ScriptM σ ι α}
    (hf : ∀ v s rest, s.kind.endsArguments = false →
      f (v, s :: rest) = fail (some s) (Operand.stray more.head?)) :
    (evaluateOperand host owner (place.below i (o.nodes line) ++ more) >>= f) =
      (o.value host owner line more.head? place i >>= fun v => f (v, more)) := by
  cases o with
  | token t =>
    have hkind : (place.down i (t.node line)).kind = t.kind := Token.kind_node line t
    show (evaluateOperand host owner (place.down i (t.node line) :: more) >>= f) = _
    rw [Operand.value]
    by_cases hm : t.kind.isModifier = true
    · rw [evaluateOperand_mark host (hkind ▸ hm) hmore, if_pos hm]
      rfl
    · rw [if_neg hm, evaluateOperand_site host (by rw [hkind, Bool.eq_false_iff.mpr hm]) hmore,
        bind_assoc]
      simp only [pure_bind]
  | call c =>
    show (evaluateOperand host owner (place.below i (c.nodes line) ++ more) >>= f) = _
    rw [evaluateOperand_call host ho i hmore, Operand.value, bind_assoc, bind_assoc]
    congr 1
    funext h
    cases h with
    | some h => simp only [bind_assoc, pure_bind]
    | none =>
      unfold Call.arguments
      simp only [pure_bind]
      -- arguments that no handler takes are left over, and the first of them is refused
      cases hargs : c.args with
      | nil => rfl
      | cons t ts =>
        have ht : (place.down (i + c.marks + 1) (t.node line)).kind.endsArguments = false := by
          show (t.node line).kind.endsArguments = false
          rw [Token.kind_node]
          exact ho t (by rw [hargs]; exact List.mem_cons_self)
        rw [Token.arguments, List.mapIdx_cons]
        exact hf _ _ _ ht

/-! ## Terms -/

theorem Operand.length_nodes (o : Operand) : (o.nodes line).length = o.size := by
  cases o with
  | token t => rfl
  | call c =>
    obtain ⟨keyword, args, quiet, negated⟩ := c
    cases quiet <;> cases negated <;>
      simp [Operand.nodes, Call.nodes, Operand.size, Call.marks] <;> omega

/-- The tokens of a call hold as the call says. -/
theorem evaluateUnary_row {c : Call} (hc : c.Proper) :
    evaluateUnary host owner (place.below 0 (c.nodes line)) = c.holds host owner line place := by
  have hmarks := takeMarks_call line place 0 c []
  have hargs : takeArguments owner
      (place.below (0 + c.marks + 1) (c.args.map (Token.node line)) ++ []) =
        (c.arguments owner line place 0, []) := takeArguments_row hc outside_nil _
  rw [List.append_nil] at hmarks
  unfold evaluateUnary
  rw [hmarks]
  simp only [keyword?, Call.site, Site.down, Site.lexeme, Option.map_some, hargs]
  rfl

/-- The tokens of a comparison hold as the comparison says. -/
theorem evaluateBinary_row {lhs rhs : Operand} (hl : lhs.Proper) (hr : rhs.Proper) {op : String}
    {kind : Kind} (hop : operator? op = some kind) (hk : kind.isComparison = true) :
    evaluateBinary host owner
        (place.below 0 (lhs.nodes line ++ { kind, lexeme := some op, line } :: rhs.nodes line)) =
      (Expr.binary lhs op rhs).term host owner line place := by
  rw [Site.below_append, Operand.length_nodes, Nat.zero_add, Site.below]
  unfold evaluateBinary
  rw [Expr.term, hop]
  -- the left side ends at the operator
  refine (evaluateOperand_bind host hl 0 (fun s hs => ?_) fun v s rest hs => ?_).trans ?_
  · cases hs
    show kind.endsArguments = true
    rw [Kind.endsArguments, hk, Bool.or_true]
  · have hno : s.kind.isComparison = false := (Bool.or_eq_false_iff.mp hs).2
    simp only [hno]
    rfl
  · congr 1
    funext l
    show (if !kind.isComparison then _ else evaluateOperand host owner
      (place.below (lhs.size + 1) (rhs.nodes line)) >>= _) = _
    rw [hk, if_neg (by decide), ← List.append_nil (place.below _ _)]
    -- the right side ends where nothing is left
    refine (evaluateOperand_bind host hr _ outside_nil fun v s rest hs => rfl).trans ?_
    rfl

/-- What a simple expression is attached as. -/
theorem Expr.Simple.attach (line : Int) {e : Expr} (he : e.Simple) :
    (e.attach line).2 = none ∧
      ((e.attach line).1.kind = .unary ∨ (e.attach line).1.kind = .binary) := by
  cases e with
  | call c => exact ⟨rfl, .inl rfl⟩
  | binary lhs op rhs =>
    obtain ⟨⟨kind, hop, -⟩, -, -⟩ := he
    rw [Expr.attach, hop]
    exact ⟨rfl, .inr rfl⟩
  | logical first rest => exact he.elim

/-- **A call or a comparison is evaluated to what it says.** -/
theorem evaluateSimple_attach {e : Expr} (he : e.Simple)
    (hplace : place.node = (e.attach line).1) :
    evaluateSimple host owner place = e.term host owner line place := by
  have hchildren : place.children = place.below 0 (e.attach line).1.children := by
    rw [Site.children, hplace]
  have hkind : place.kind = (e.attach line).1.kind := by rw [Site.kind, hplace]
  unfold evaluateSimple
  rw [hchildren, Site.isEmpty_below, hkind]
  cases e with
  | call c =>
    have hrow : (c.nodes line).isEmpty = false := by simp [Call.nodes]
    show (if (c.nodes line).isEmpty then _ else if Kind.unary = .unary then
      evaluateUnary host owner (place.below 0 (c.nodes line)) else _) = _
    rw [hrow, if_neg (by decide), if_pos rfl]
    exact evaluateUnary_row host he
  | binary lhs op rhs =>
    obtain ⟨⟨kind, hop, hk⟩, hl, hr⟩ := he
    rw [Expr.attach, hop]
    show (if (lhs.nodes line ++ { kind, lexeme := some op, line } :: rhs.nodes line).isEmpty then _
      else if Kind.binary = .unary then _ else evaluateBinary host owner (place.below 0 _)) = _
    rw [if_neg (by simp), if_neg (by decide)]
    exact evaluateBinary_row host hl hr hop hk
  | logical first rest => exact he.elim

/-- An expression that is no chain. -/
theorem evaluate_of_simple {s : Site} (hs : s.kind = .unary ∨ s.kind = .binary) :
    evaluate host owner s = evaluateSimple host owner s := by
  rw [evaluate]
  rcases hs with hs | hs
  · rw [hs]
    rfl
  · rw [hs]
    rfl

theorem evaluate_attach_simple {e : Expr} (he : e.Simple)
    (hplace : place.node = (e.attach line).1) :
    evaluate host owner place = e.term host owner line place := by
  have hkind : place.kind = .unary ∨ place.kind = .binary := by
    rw [Site.kind, hplace]
    exact (he.attach line).2
  rw [evaluate_of_simple host hkind, evaluateSimple_attach host he hplace]

/-- A chain: its first term, and then the others. -/
theorem evaluate_of_logical {s first : Site} (hs : s.kind = .logical)
    (hfirst : s.firstChild? = some first) :
    evaluate host owner s = (do
      let result ← evaluate host owner first
      evaluateRest host owner result first.following) := by
  rw [evaluate]
  grind [Kind.isExpression]

/-! ## Chains -/

section

variable (owner line place)

/-- **The rest of a chain is folded over its terms**: each is evaluated once, in order, and joined
with the answer so far. -/
theorem evaluateRest_attach {rest : List (String × Expr)}
    (h : ∀ p ∈ rest, (∃ kind, operator? p.1 = some kind ∧ kind.isLogical = true) ∧ p.2.Simple)
    (k : Nat) (result : Bool) :
    (Expr.attachRest line rest).2 = none ∧
      evaluateRest host owner result (place.below (2 * k + 1) (Expr.attachRest line rest).1) =
        (rest.zipIdx k).foldlM (fun result ((op, e), k) => do
          let answer ← e.term host owner line (place.down (2 * k + 2) (e.attach line).1)
          return Expr.joined op result answer) result := by
  induction rest generalizing k result with
  | nil => exact ⟨rfl, rfl⟩
  | cons p rest ih =>
    obtain ⟨op, e⟩ := p
    obtain ⟨⟨kind, hop, hk⟩, he⟩ := h _ List.mem_cons_self
    have hrest := ih (fun p hp => h p (List.mem_cons_of_mem _ hp)) (k + 1)
    obtain ⟨herror, hkind⟩ := he.attach line
    cases hattach : e.attach line with
    | mk node error =>
      rw [hattach] at herror hkind
      cases herror
      rw [Expr.attachRest, hop]
      simp only [hattach]
      refine ⟨(hrest result).1, ?_⟩
      show (if !kind.isLogical then _ else if node.kind = .unary ∨ node.kind = .binary then
        evaluateSimple host owner (place.down (2 * k + 2) node) >>= fun answer =>
          evaluateRest host owner (if kind = .both then result && answer else result || answer)
            (place.below (2 * (k + 1) + 1) (Expr.attachRest line rest).1) else _) = _
      have hnode : (place.down (2 * k + 2) node).node = (e.attach line).1 := by
        rw [hattach]
        rfl
      rw [hk, if_neg (by decide), if_pos hkind, evaluateSimple_attach host he hnode,
        List.zipIdx_cons, List.foldlM_cons, hattach, bind_assoc]
      congr 1
      funext answer
      rw [pure_bind, (hrest _).2]
      simp only [Expr.joined, hop, Option.some.injEq]

/-- **An expression is attached without error, and what is attached is evaluated to what the
expression says.** -/
theorem evaluate_attach {e : Expr} (he : e.Proper) (above : List (Node × Nat)) :
    (e.attach line).2 = none ∧
      evaluate host owner ⟨(e.attach line).1, above⟩ =
        e.meaning host owner line ⟨(e.attach line).1, above⟩ := by
  cases e with
  | call c => exact ⟨rfl, evaluate_attach_simple (e := .call c) host he rfl⟩
  | binary lhs op rhs =>
    exact ⟨(Expr.Simple.attach line (e := .binary lhs op rhs) he).1,
      evaluate_attach_simple (e := .binary lhs op rhs) host he rfl⟩
  | logical first rest =>
    obtain ⟨hfirst, hrest⟩ := he
    have herror := (hfirst.attach line).1
    cases hattach : first.attach line with
    | mk node error =>
      rw [hattach] at herror
      cases herror
      have hwhole : (Expr.logical first rest).attach line =
          ({ kind := .logical, line, children := node :: (Expr.attachRest line rest).1 },
            (Expr.attachRest line rest).2) := by
        rw [Expr.attach, hattach]
      rw [hwhole]
      let place : Site :=
        ⟨{ kind := .logical, line, children := node :: (Expr.attachRest line rest).1 }, above⟩
      have hfold := evaluateRest_attach host owner line place hrest 0
      refine ⟨(hfold false).1, ?_⟩
      have hchild : place.firstChild? = some (place.down 0 node) := rfl
      have hnode : (place.down 0 node).node = (first.attach line).1 := by
        rw [hattach]
        rfl
      show evaluate host owner place = _
      rw [evaluate_of_logical host rfl hchild, evaluate_attach_simple host hfirst hnode,
        Expr.meaning, hattach]
      congr 1
      funext answer
      exact (hfold answer).2

end

end

/-- A host that notes the calls it is asked, and answers with a number or with yes. -/
def notingHost : Host (List (String × List (Option String) × Bool)) Unit where
  command _ _ _ _ _ := return .bool true
  expression _ word args quiet := do
    modify fun w => { w with host := w.host ++ [(word, args.map Argument.lexeme, quiet)] }
    return if word = "hits" then .int 7 else .bool true
  computedAlias _ _ := return .null
  listener _ _ := return
  rule _ _ := return
  callback _ := return .bool true
  write _ := return

/-- A chain whose first term does not hold. -/
def notReadyOrHurt : Expr :=
  .logical (.call { keyword := "ready", args := [.word "sword"], negated := true })
    [("AND", .call { keyword := "ready", quiet := true }),
      ("or", .binary (.call { keyword := "hits", args := [.word "self"] }) "<" (.token (.int 50)))]

/-- A world in which the calls of the chain have handlers. -/
def askedWorld : World (List (String × List (Option String) × Bool)) Unit where
  host := []
  registry := { expressions := (Table.empty.insert "ready" (.host ())).insert "hits" (.host ()) }

theorem evaluate_attach_notReadyOrHurt :
    notReadyOrHurt.Proper ∧ (notReadyOrHurt.attach 1).2 = none ∧
      (match evaluate notingHost 0 ⟨(notReadyOrHurt.attach 1).1, []⟩ askedWorld with
        | .ok answer w => some (answer, w.host)
        | .error _ _ => none) =
        some (true, [("ready", [some "sword"], false), ("ready", [], true),
          ("hits", [some "self"], false)]) := by
  have hproper : notReadyOrHurt.Proper := by
    refine ⟨fun t ht => ?_, fun p hp => ?_⟩
    · obtain rfl := List.mem_singleton.mp ht
      rfl
    · simp only [List.mem_cons, List.not_mem_nil, or_false] at hp
      obtain rfl | rfl := hp
      · exact ⟨⟨.both, by decide +kernel, rfl⟩, fun t ht => absurd ht List.not_mem_nil⟩
      · refine ⟨⟨.either, by decide +kernel, rfl⟩, ⟨.less, by decide +kernel, rfl⟩, fun t ht => ?_,
          trivial⟩
        obtain rfl := List.mem_singleton.mp ht
        rfl
  obtain ⟨herror, hmeaning⟩ := evaluate_attach notingHost 0 1 hproper []
  refine ⟨hproper, herror, ?_⟩
  rw [hmeaning]
  decide +kernel

end Cadence
