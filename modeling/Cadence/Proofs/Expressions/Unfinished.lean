/-
  UNFINISHED statements: what a call leaves behind whose expression cannot be attached.

  An expression is put into the tree node by node, and each operator is looked up when its turn
  comes.  So there is a plan of what will be put in, in order and with depths (`Expr.plan`), with an
  error in the place of each operator that does not exist; and the crux is that the tree is the plan
  up to its first error (`Expr.attach_plan`, by recursion on the expression).

  By then the statement stands in the script and its line is counted.  Every call adds one statement
  (`Builder.length_add`), also one that fails; a host that goes on after the error (`Builder.goOn`)
  has the statements of the later calls behind a piece of the failed one, and counts their lines
  from its line (`Builder.leaves_unfinished`).
-/
import Cadence.Tree.Builder

namespace Cadence

/-! ## Trees in the order in which they are put together -/

/-- A node as it is put into a tree: its depth, and what it is without its children. -/
structure Planted where
  /-- How deep the node stands. -/
  depth : Nat
  /-- What the node stands for. -/
  kind : Kind
  /-- The text of the node, if it has one. -/
  lexeme : Option String := none
  /-- The line that the node stands on. -/
  line : Int
deriving DecidableEq

namespace Node

mutual
/-- The nodes of a tree in the order in which they are put in: parents before children, left before
right. -/
def planted (depth : Nat) : Node → List Planted
  | ⟨kind, lexeme, line, children⟩ =>
    ⟨depth, kind, lexeme, line⟩ :: plantedAll (depth + 1) children

/-- The nodes of trees that stand side by side. -/
def plantedAll (depth : Nat) : List Node → List Planted
  | [] => []
  | n :: rest => n.planted depth ++ plantedAll depth rest
end

theorem plantedAll_append (depth : Nat) (ns ms : List Node) :
    plantedAll depth (ns ++ ms) = plantedAll depth ns ++ plantedAll depth ms := by
  induction ns with
  | nil => rfl
  | cons n ns ih => rw [List.cons_append, plantedAll, plantedAll, ih, List.append_assoc]

end Node

/-- What comes before the first error, and this error. -/
def upToError {ε α : Type} : List (Except ε α) → List α × Option ε
  | [] => ([], none)
  | .error e :: _ => ([], some e)
  | .ok a :: rest => (a :: (upToError rest).1, (upToError rest).2)

theorem upToError_map_ok_append {ε α : Type} (as : List α) (rest : List (Except ε α)) :
    upToError (as.map .ok ++ rest) = (as ++ (upToError rest).1, (upToError rest).2) := by
  induction as with
  | nil => rfl
  | cons a as ih => rw [List.map_cons, List.cons_append, upToError, ih]; rfl

theorem upToError_append_of_some {ε α : Type} {as : List (Except ε α)} {e : ε}
    (h : (upToError as).2 = some e) (bs : List (Except ε α)) :
    upToError (as ++ bs) = upToError as := by
  induction as with
  | nil => cases h
  | cons a as ih =>
    cases a with
    | error e => rfl
    | ok a => rw [List.cons_append, upToError, upToError, ih h]

theorem upToError_append_of_none {ε α : Type} {as : List (Except ε α)}
    (h : (upToError as).2 = none) (bs : List (Except ε α)) :
    upToError (as ++ bs) = ((upToError as).1 ++ (upToError bs).1, (upToError bs).2) := by
  induction as with
  | nil => rfl
  | cons a as ih =>
    cases a with
    | error e => cases h
    | ok a =>
      rw [List.cons_append, upToError, upToError, ih h]
      rfl

/-! ## The plan of an expression -/

/-- The place of an operator in a plan. -/
def planOperator (depth : Nat) (line : Int) (symbol : String) : Except LoadError Planted :=
  match operator? symbol with
  | some kind => .ok { depth, kind, lexeme := some symbol, line }
  | none => .error (.unknownOperator symbol)

mutual
/-- What is to be put in for an expression, in order; an operator that does not exist is an
error. -/
def Expr.plan (depth : Nat) (line : Int) : Expr → List (Except LoadError Planted)
  | .call c =>
    .ok { depth, kind := .unary, line } :: (Node.plantedAll (depth + 1) (c.nodes line)).map .ok
  | .binary lhs op rhs =>
    .ok { depth, kind := .binary, line } :: (Node.plantedAll (depth + 1) (lhs.nodes line)).map .ok
      ++ planOperator (depth + 1) line op
        :: (Node.plantedAll (depth + 1) (rhs.nodes line)).map .ok
  | .logical first rest =>
    .ok { depth, kind := .logical, line } :: first.plan (depth + 1) line
      ++ Expr.planRest (depth + 1) line rest

/-- What is to be put in for the later terms of a chain. -/
def Expr.planRest (depth : Nat) (line : Int) :
    List (String × Expr) → List (Except LoadError Planted)
  | [] => []
  | (op, e) :: rest =>
    planOperator depth line op :: e.plan depth line ++ Expr.planRest depth line rest
end

mutual
/-- The operators of an expression, from left to right. -/
def Expr.symbols : Expr → List String
  | .call _ => []
  | .binary _ op _ => [op]
  | .logical first rest => first.symbols ++ Expr.symbolsRest rest

/-- The operators of the later terms of a chain. -/
def Expr.symbolsRest : List (String × Expr) → List String
  | [] => []
  | (op, e) :: rest => op :: e.symbols ++ Expr.symbolsRest rest
end

mutual
/-- **A tree is the plan of its expression up to the first error.** -/
theorem Expr.attach_plan (depth : Nat) (line : Int) :
    (e : Expr) → upToError (e.plan depth line) =
      ((e.attach line).1.planted depth, (e.attach line).2)
  | .call c => by
    rw [Expr.plan, upToError, ← List.append_nil (List.map _ _), upToError_map_ok_append]
    simp [Expr.attach, Node.planted, upToError]
  | .binary lhs op rhs => by
    rw [Expr.plan, List.cons_append, upToError, upToError_map_ok_append, planOperator]
    cases h : operator? op with
    | none => simp [Expr.attach, h, Node.planted, upToError]
    | some kind =>
      rw [upToError, ← List.append_nil (List.map _ (Node.plantedAll _ (rhs.nodes line))),
        upToError_map_ok_append]
      simp [Expr.attach, h, Node.planted, Node.plantedAll_append, Node.plantedAll, upToError]
  | .logical first rest => by
    have hfirst := Expr.attach_plan (depth + 1) line first
    rw [Expr.plan, List.cons_append, upToError, Expr.attach]
    generalize first.attach line = made at hfirst ⊢
    obtain ⟨node, error⟩ := made
    cases error with
    | some error =>
      rw [upToError_append_of_some (congrArg Prod.snd hfirst), hfirst]
      simp [Node.planted, Node.plantedAll]
    | none =>
      rw [upToError_append_of_none (congrArg Prod.snd hfirst), hfirst,
        Expr.attachRest_plan (depth + 1) line rest]
      simp [Node.planted, Node.plantedAll]

theorem Expr.attachRest_plan (depth : Nat) (line : Int) :
    (rest : List (String × Expr)) → upToError (Expr.planRest depth line rest) =
      (Node.plantedAll depth (Expr.attachRest line rest).1, (Expr.attachRest line rest).2)
  | [] => rfl
  | (op, e) :: rest => by
    have he := Expr.attach_plan depth line e
    rw [Expr.planRest, List.cons_append, planOperator, Expr.attachRest]
    cases h : operator? op with
    | none => rfl
    | some kind =>
      generalize e.attach line = made at he ⊢
      obtain ⟨node, error⟩ := made
      cases error with
      | some error =>
        rw [upToError, upToError_append_of_some (congrArg Prod.snd he), he]
        simp [Node.planted, Node.plantedAll]
      | none =>
        rw [upToError, upToError_append_of_none (congrArg Prod.snd he), he,
          Expr.attachRest_plan depth line rest]
        simp [Node.planted, Node.plantedAll]
end

mutual
/-- What stops an expression is its first operator that does not exist. -/
theorem Expr.attach_error (line : Int) : (e : Expr) →
    (e.attach line).2 = (e.symbols.find? fun s => (operator? s).isNone).map .unknownOperator
  | .call c => rfl
  | .binary lhs op rhs => by
    cases h : operator? op <;> simp [Expr.attach, Expr.symbols, h]
  | .logical first rest => by
    have hfirst := Expr.attach_error line first
    rw [Expr.attach, Expr.symbols, List.find?_append]
    generalize first.attach line = made at hfirst ⊢
    obtain ⟨node, error⟩ := made
    cases error with
    | some error =>
      obtain ⟨symbol, hsymbol, rfl⟩ := Option.map_eq_some_iff.mp hfirst.symm
      rw [hsymbol]
      rfl
    | none =>
      rw [Option.map_eq_none_iff.mp hfirst.symm, Option.none_or]
      exact Expr.attachRest_error line rest

theorem Expr.attachRest_error (line : Int) : (rest : List (String × Expr)) →
    (Expr.attachRest line rest).2 =
      ((Expr.symbolsRest rest).find? fun s => (operator? s).isNone).map .unknownOperator
  | [] => rfl
  | (op, e) :: rest => by
    have he := Expr.attach_error line e
    rw [Expr.attachRest, Expr.symbolsRest, List.cons_append, List.find?_cons, List.find?_append]
    cases h : operator? op with
    | none => rfl
    | some kind =>
      generalize e.attach line = made at he ⊢
      obtain ⟨node, error⟩ := made
      cases error with
      | some error =>
        obtain ⟨symbol, hsymbol, rfl⟩ := Option.map_eq_some_iff.mp he.symm
        rw [hsymbol]
        rfl
      | none =>
        rw [Option.map_eq_none_iff.mp he.symm, Option.none_or]
        exact Expr.attachRest_error line rest
end

/-! ## Builders -/

namespace Builder

/-- The calls are made one after the other, whatever errors they raise. -/
def goOn (b : Builder) (calls : List (Part × Option Int)) : Builder :=
  calls.foldl (fun b call => (b.add call.1 call.2).1) b

/-- **Every call adds one part, also one that fails**; which one, and on which line, depends on the
last line alone. -/
theorem add_eq (b : Builder) (part : Part) (at_ : Option Int) :
    ∃ node line, ∀ parts,
      ((⟨parts, b.line⟩ : Builder).add part at_).1 = ⟨parts ++ [node], line⟩ := by
  -- they are what the call makes of a builder without parts
  let made : Builder := ((⟨[], b.line⟩ : Builder).add part at_).1
  refine ⟨made.parts.headD default, made.line, fun parts => ?_⟩
  cases part <;> rfl

/-- So the parts that calls add do not depend on those that are there. -/
theorem parts_goOn (b : Builder) (calls : List (Part × Option Int)) :
    b.goOn calls =
      ⟨b.parts ++ (goOn ⟨[], b.line⟩ calls).parts, (goOn ⟨[], b.line⟩ calls).line⟩ := by
  induction calls generalizing b with
  | nil => simp [goOn]
  | cons call calls ih =>
    obtain ⟨node, line, hadd⟩ := b.add_eq call.1 call.2
    have hb : b.goOn (call :: calls) = goOn ⟨b.parts ++ [node], line⟩ calls :=
      congrArg (goOn · calls) (hadd b.parts)
    have hempty : goOn ⟨[], b.line⟩ (call :: calls) = goOn ⟨[node], line⟩ calls :=
      congrArg (goOn · calls) (hadd [])
    rw [hb, hempty, ih ⟨_, line⟩, ih ⟨[node], line⟩]
    simp

/-- There are as many new parts as calls. -/
theorem length_goOn (b : Builder) (calls : List (Part × Option Int)) :
    (b.goOn calls).parts.length = b.parts.length + calls.length := by
  induction calls generalizing b with
  | nil => rfl
  | cons call calls ih =>
    obtain ⟨node, line, hadd⟩ := b.add_eq call.1 call.2
    have hb : b.goOn (call :: calls) = goOn ⟨b.parts ++ [node], line⟩ calls :=
      congrArg (goOn · calls) (hadd b.parts)
    rw [hb, ih, List.length_append, List.length_singleton, List.length_cons]
    omega

/-- **What a call leaves whose expression cannot be attached.**  The error is the first operator of
the expression that does not exist; whether there is one or not, the statement stands behind those
made before, on its line, and holds the nodes of the expression that come before the error.  A host
that goes on has the statements of the later calls behind it, counted from its line; so it builds
another script than without the call, with one statement more. -/
theorem leaves_unfinished (b : Builder) (guard : Guard) (expr : Expr) (at_ : Option Int) :
    let line := at_.getD (b.line + 1)
    ∃ statement : Node,
      (b.add (.guarded guard expr) at_).1 = ⟨b.parts ++ [statement], line⟩ ∧
      (b.add (.guarded guard expr) at_).2 =
        (expr.symbols.find? fun s => (operator? s).isNone).map .unknownOperator ∧
      statement.planted 0 =
        ⟨0, .statement, none, line⟩ :: ⟨1, guard.kind, some guard.kind.word, line⟩ ::
          (upToError (expr.plan 2 line)).1 ∧
      ∀ later : List (Part × Option Int),
        (b.goOn ((.guarded guard expr, at_) :: later)).parts =
          b.parts ++ statement :: (goOn ⟨[], line⟩ later).parts ∧
        (b.goOn later).parts = b.parts ++ (goOn ⟨[], b.line⟩ later).parts ∧
        (b.goOn ((.guarded guard expr, at_) :: later)).parts.length =
          (b.goOn later).parts.length + 1 := by
  intro line
  have hplan := Expr.attach_plan 2 line expr
  refine ⟨_, rfl, Expr.attach_error line expr, ?_, fun later => ⟨?_, ?_, ?_⟩⟩
  · rw [hplan]
    simp [Node.planted, Node.plantedAll, line]
  · show (goOn ⟨b.parts ++ [_], line⟩ later).parts = _
    rw [parts_goOn]
    simp
  · rw [parts_goOn]
  · rw [length_goOn, length_goOn, List.length_cons, Nat.add_assoc]

/-- After `if 1 ~ 2` has failed, a piece of it stands on line 1 and `endif` comes on line 2; without
the failed call `endif` comes on line 1. -/
theorem unfinished_tilde :
    let call : Part × Option Int :=
      (.guarded .ifStart (.binary (.token (.int 1)) "~" (.token (.int 2))), none)
    let endif : Part × Option Int := (.bare .ifEnd, none)
    let kinds (s : Node) : Int × List Kind := (s.line, (s.planted 0).map Planted.kind)
    (({} : Builder).add call.1 call.2).2 = some (.unknownOperator "~") ∧
    (({} : Builder).add call.1 call.2).1.line = 1 ∧
    (({} : Builder).goOn [call, endif]).parts.map kinds =
      [(1, [.statement, .ifStart, .binary, .integer]), (2, [.statement, .ifEnd])] ∧
    (({} : Builder).goOn [endif]).parts.map kinds = [(1, [.statement, .ifEnd])] := by
  exact ⟨rfl, rfl, by decide, by decide⟩

end Builder

end Cadence
