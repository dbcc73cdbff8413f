/-
  CONSUMING — which tokens have a use, and which are passed over.

  A command, a call and each side of a comparison read their tokens in the same way: marks, a word,
  and arguments up to the next operator.

  1. **Rows** (`Row`) — such tokens.  Any tokens begin with a row that nothing but an operator
     follows, unless they are marks and nothing else (`exists_row`).

  2. **The three readers** — what each of them makes of a row and of what stands behind it.  One
     side of a comparison may also be a value that is written out (`Side`).

  3. **The crux** (`side_of_ok`, `Side.ok`) — a side takes the tokens that it says and leaves the
     others.  So a comparison that answers has taken all its tokens: two sides, and between them the
     only operator (`evaluateBinary_ok_iff`).

  4. **The headline** (`tokens_used`) — a command and a comparison go well only if each token has
     its use.  A call does not look at what stands behind its arguments.
-/
import Cadence.Proofs.Expressions.Attaching
import Cadence.Proofs.Running.Resting

namespace Cadence

open ScriptM

/-! ## Rows -/

/-- Marks, a word, and arguments. -/
structure Row where
  /-- The marks. -/
  marks : List Site
  /-- The word. -/
  head : Site
  /-- The arguments. -/
  args : List Site
  /-- The marks are marks. -/
  marks_modify : ∀ s ∈ marks, s.kind.isModifier = true
  /-- The word is none. -/
  head_plain : head.kind.isModifier = false
  /-- No argument is an operator. -/
  args_plain : ∀ s ∈ args, s.kind.endsArguments = false

/-- A mark is no operator. -/
theorem Kind.endsArguments_of_isModifier {k : Kind} (h : k.isModifier = true) :
    k.endsArguments = false := by
  revert h
  cases k <;> decide

theorem takeMarks_append {marks : List Site} (hm : ∀ s ∈ marks, s.kind.isModifier = true) {s : Site}
    (hs : s.kind.isModifier = false) (rest : List Site) (m : Marks) :
    takeMarks m (marks ++ s :: rest) = ((takeMarks m marks).1, s :: rest) := by
  induction marks generalizing m with
  | nil =>
    show takeMarks m (s :: rest) = (m, s :: rest)
    rw [takeMarks, hs]
    rfl
  | cons t marks ih =>
    obtain ⟨ht, hmarks⟩ := List.forall_mem_cons.mp hm
    rw [List.cons_append, takeMarks, if_pos ht, ih hmarks, takeMarks, if_pos ht]

/-- Behind marks and nothing else nothing is left. -/
theorem takeMarks_of_marks {marks : List Site} (hm : ∀ s ∈ marks, s.kind.isModifier = true)
    (m : Marks) : (takeMarks m marks).2 = [] := by
  induction marks generalizing m with
  | nil => rfl
  | cons t marks ih =>
    obtain ⟨ht, hmarks⟩ := List.forall_mem_cons.mp hm
    rw [takeMarks, if_pos ht]
    exact ih hmarks _

namespace Row

/-- The tokens of a row. -/
def tokens (r : Row) : List Site := r.marks ++ r.head :: r.args

/-- What the marks ask for. -/
def asked (r : Row) : Marks := (takeMarks {} r.marks).1

/-- The arguments as those of a script. -/
def arguments (owner : Nat) (r : Row) : List Argument := r.args.map fun s => ⟨owner, s⟩

variable (r : Row) {rest : List Site}

theorem takeMarks_tokens (rest : List Site) :
    takeMarks {} (r.tokens ++ rest) = (r.asked, r.head :: (r.args ++ rest)) := by
  rw [tokens, List.append_assoc, List.cons_append]
  exact takeMarks_append r.marks_modify r.head_plain _ _

theorem takeArguments_args (hrest : Outside rest) (owner : Nat) :
    takeArguments owner (r.args ++ rest) = (r.arguments owner, rest) := by
  have hargs : ∀ s ∈ r.args, (!s.kind.endsArguments) = true := fun s hs => by
    rw [r.args_plain s hs]
    rfl
  have houtside : takeArguments owner rest = ([], rest) := takeArguments_outside hrest
  obtain ⟨htake, hdrop⟩ := Prod.mk.inj houtside
  unfold takeArguments
  rw [List.takeWhile_append_of_pos hargs, List.dropWhile_append_of_pos hargs, List.map_append,
    htake, hdrop, List.append_nil]
  rfl

end Row

/-- **Any tokens begin with a row** that nothing but an operator follows, if they are not all
marks. -/
theorem exists_row (tokens : List Site) :
    (∀ s ∈ tokens, s.kind.isModifier = true) ∨
      ∃ (r : Row) (rest : List Site), tokens = r.tokens ++ rest ∧ Outside rest := by
  induction tokens with
  | nil => exact .inl fun s hs => absurd hs List.not_mem_nil
  | cons t tokens ih =>
    by_cases ht : t.kind.isModifier = true
    · rcases ih with hall | ⟨r, rest, rfl, hrest⟩
      · exact .inl (List.forall_mem_cons.mpr ⟨ht, hall⟩)
      · exact .inr ⟨{ r with
          marks := t :: r.marks
          marks_modify := List.forall_mem_cons.mpr ⟨ht, r.marks_modify⟩ }, rest, rfl, hrest⟩
    · -- the word has been reached, and its arguments go on to the next operator
      refine .inr ⟨{
        marks := []
        head := t
        args := tokens.takeWhile fun s => !s.kind.endsArguments
        marks_modify := fun s hs => absurd hs List.not_mem_nil
        head_plain := Bool.eq_false_iff.mpr ht
        args_plain := fun s hs => ?_ }, tokens.dropWhile fun s => !s.kind.endsArguments, ?_, ?_⟩
      · have hs' := List.all_eq_true.mp (List.all_takeWhile (l := tokens)) s hs
        simpa using hs'
      · show t :: tokens = t :: (_ ++ _)
        rw [List.takeWhile_append_dropWhile]
      · intro s hs
        have hfirst := List.head?_dropWhile_not (fun s : Site => !s.kind.endsArguments) tokens
        rw [hs] at hfirst
        simpa using hfirst

/-! ## Commands and calls -/

section

variable {σ ι : Type} (host : Host σ ι) (i : Nat)

/-- A row is the command that it says: its handler is called with all the arguments and answers
`b`. -/
def Row.Commands (w : World σ ι) (b : Bool) (u : World σ ι) (r : Row) : Prop :=
  ∃ word h, r.head.lexeme = some word ∧ w.registry.commands.get? word = some h ∧
    callCommand host h word (r.arguments i) r.asked w = .ok b u

/-- A row is the call that it says: its handler is called with all the arguments, and its answer
makes the call hold or not. -/
def Row.Holds (w : World σ ι) (b : Bool) (u : World σ ι) (r : Row) : Prop :=
  ∃ word h v, r.head.lexeme = some word ∧ w.registry.expressions.get? word = some h ∧
    callExpression host h word (r.arguments i) r.asked.quiet w = .ok v u ∧
    Value.compare .equal v (.bool !r.asked.negated) (some r.head) = .ok b

variable {host i} {w : World σ ι} {rest : List Site}

theorem executeCommand_of_marks {tokens : List Site} (hm : ∀ s ∈ tokens, s.kind.isModifier = true) :
    executeCommand host i tokens w = .error (.at none .invalidCommand) w := by
  unfold executeCommand
  simp only [takeMarks_of_marks hm]
  rfl

theorem evaluateUnary_of_marks {tokens : List Site} (hm : ∀ s ∈ tokens, s.kind.isModifier = true) :
    evaluateUnary host i tokens w = .error (.at none .invalidUnary) w := by
  unfold evaluateUnary
  simp only [takeMarks_of_marks hm]
  rfl

variable (host i w) in
/-- **A command** takes its row, and refuses what stands behind it before anything is called. -/
theorem executeCommand_row (r : Row) (hrest : Outside rest) :
    executeCommand host i (r.tokens ++ rest) w =
      match r.head.lexeme with
      | none => .error (.at (some r.head) .invalidCommand) w
      | some word =>
        match w.registry.commands.get? word with
        | none => .error (.at (some r.head) .unknownCommand) w
        | some h =>
          match rest with
          | [] => callCommand host h word (r.arguments i) r.asked w
          | op :: _ => .error (.at (some op) .leftoverArguments) w := by
  unfold executeCommand
  simp only [r.takeMarks_tokens, keyword?]
  cases r.head.lexeme with
  | none => rfl
  | some word =>
    simp only [Option.map_some]
    rw [get_bind]
    cases w.registry.commands.get? word with
    | none => rfl
    | some h =>
      simp only [r.takeArguments_args hrest]
      cases rest with
      | nil => rfl
      | cons op more => rfl

variable (host i w) in
/-- **A call** takes its row and does not look at what stands behind it. -/
theorem evaluateUnary_tokens (r : Row) (hrest : Outside rest) :
    evaluateUnary host i (r.tokens ++ rest) w =
      match r.head.lexeme with
      | none => .error (.at (some r.head) .invalidUnary) w
      | some word =>
        match w.registry.expressions.get? word with
        | none => .error (.at (some r.head) .unknownExpression) w
        | some h =>
          (do
            let v ← callExpression host h word (r.arguments i) r.asked.quiet
            lift (Value.compare .equal v (.bool !r.asked.negated) (some r.head)) :
              ScriptM σ ι Bool) w := by
  unfold evaluateUnary
  simp only [r.takeMarks_tokens, keyword?]
  cases r.head.lexeme with
  | none => rfl
  | some word =>
    simp only [Option.map_some, r.takeArguments_args hrest]
    unfold expressionHandler?
    show (match w.registry.expressions.get? word with | none => _ | some h => _ : ScriptM σ ι Bool)
      w = _
    cases w.registry.expressions.get? word with
    | none => rfl
    | some h => rfl

theorem lift_eq_ok_iff {α : Type} {r : Except Fault α} {a : α} {u : World σ ι} :
    (lift r : ScriptM σ ι α) w = .ok a u ↔ r = .ok a ∧ w = u := by
  cases r with
  | error fault =>
    constructor
    · intro h
      cases h
    · rintro ⟨h, -⟩
      cases h
  | ok a' =>
    constructor
    · intro h
      cases h
      exact ⟨rfl, rfl⟩
    · rintro ⟨h, rfl⟩
      cases h
      rfl

/-- A command goes well only if its tokens are a row, all of them. -/
theorem executeCommand_ok_iff {tokens : List Site} {b : Bool} {u : World σ ι} :
    executeCommand host i tokens w = .ok b u ↔
      ∃ r : Row, tokens = r.tokens ∧ r.Commands host i w b u := by
  constructor
  · intro hok
    rcases exists_row tokens with hm | ⟨r, rest, rfl, hrest⟩
    · rw [executeCommand_of_marks hm] at hok
      cases hok
    · rw [executeCommand_row host i w r hrest] at hok
      cases hword : r.head.lexeme with
      | none =>
        rw [hword] at hok
        cases hok
      | some word =>
        rw [hword] at hok
        simp only at hok
        cases hget : w.registry.commands.get? word with
        | none =>
          rw [hget] at hok
          cases hok
        | some h =>
          rw [hget] at hok
          cases rest with
          | cons op more => cases hok
          | nil => exact ⟨r, List.append_nil _, word, h, hword, hget, hok⟩
  · rintro ⟨r, rfl, word, h, hword, hget, hcall⟩
    have hrow := executeCommand_row host i w r outside_nil
    rw [List.append_nil, hword] at hrow
    simp only at hrow
    rw [hget] at hrow
    exact hrow.trans hcall

/-- A call answers exactly if a row stands in front that does, whatever follows it. -/
theorem evaluateUnary_ok_iff {tokens : List Site} {b : Bool} {u : World σ ι} :
    evaluateUnary host i tokens w = .ok b u ↔
      ∃ (r : Row) (rest : List Site), tokens = r.tokens ++ rest ∧ Outside rest ∧
        r.Holds host i w b u := by
  constructor
  · intro hok
    rcases exists_row tokens with hm | ⟨r, rest, rfl, hrest⟩
    · rw [evaluateUnary_of_marks hm] at hok
      cases hok
    · refine ⟨r, rest, rfl, hrest, ?_⟩
      rw [evaluateUnary_tokens host i w r hrest] at hok
      cases hword : r.head.lexeme with
      | none =>
        rw [hword] at hok
        cases hok
      | some word =>
        rw [hword] at hok
        simp only at hok
        cases hget : w.registry.expressions.get? word with
        | none =>
          rw [hget] at hok
          cases hok
        | some h =>
          rw [hget] at hok
          obtain ⟨v, u', hcall, hlift⟩ := bind_ok hok
          obtain ⟨hcompare, rfl⟩ := lift_eq_ok_iff.mp hlift
          exact ⟨word, h, v, hword, hget, hcall, hcompare⟩
  · rintro ⟨r, rest, rfl, hrest, word, h, v, hword, hget, hcall, hcompare⟩
    rw [evaluateUnary_tokens host i w r hrest, hword]
    simp only
    rw [hget]
    exact (bind_of_ok hcall).trans (lift_eq_ok_iff.mpr ⟨hcompare, rfl⟩)

/-! ## Comparisons -/

/-- The handler of a word on one side of a comparison, with the word. -/
def Site.query? (w : World σ ι) (s : Site) : Option (String × Handler Bundled.Query ι) :=
  if s.kind = .operand then
    s.lexeme.bind fun word => (w.registry.expressions.get? word).map fun h => (word, h)
  else none

/-- What one side of a comparison takes: a value that is written out, or a row whose handler is
called with all the arguments. -/
inductive Side (host : Host σ ι) (i : Nat) (w : World σ ι) :
    List Site → Value → World σ ι → Prop where
  /-- A value, behind marks that say nothing. -/
  | written {marks : List Site} (hm : ∀ s ∈ marks, s.kind.isModifier = true) {s : Site}
      (hs : s.kind.isModifier = false) (hword : s.query? w = none) {v : Value} {u : World σ ι}
      (hv : s.value host w = .ok v u) : Side host i w (marks ++ [s]) v u
  /-- A word with its arguments; of the marks only the wish for quiet counts. -/
  | call (r : Row) {word : String} {h : Handler Bundled.Query ι}
      (hword : r.head.query? w = some (word, h)) {v : Value} {u : World σ ι}
      (hcall : callExpression host h word (r.arguments i) r.asked.quiet w = .ok v u) :
      Side host i w r.tokens v u

theorem kind_of_query? {s : Site} {q : String × Handler Bundled.Query ι}
    (h : s.query? w = some q) : s.kind = .operand := by
  unfold Site.query? at h
  split at h
  · assumption
  · cases h

variable (host i w) in
/-- **One side of a comparison** takes a value or a row, and leaves what stands behind. -/
theorem evaluateOperand_tokens (r : Row) (hrest : Outside rest) :
    evaluateOperand host i (r.tokens ++ rest) w =
      match r.head.query? w with
      | none => (do return (← r.head.value host, r.args ++ rest) : ScriptM σ ι _) w
      | some (word, h) =>
        (do return (← callExpression host h word (r.arguments i) r.asked.quiet, rest) :
          ScriptM σ ι _) w := by
  have hplain := r.head_plain
  unfold evaluateOperand Site.query? Site.value
  simp only [r.takeMarks_tokens]
  cases hk : r.head.kind with
  | operand =>
    rw [if_pos rfl]
    cases r.head.lexeme with
    | none => rfl
    | some word =>
      simp only [Option.bind_some, r.takeArguments_args hrest]
      unfold expressionHandler?
      simp only [bind_assoc, pure_bind]
      rw [get_bind]
      cases hget : w.registry.expressions.get? word with
      | none =>
        simp only [Option.map_none]
        rw [get_bind, hget]
        rfl
      | some h => rfl
  | integer | serial | double =>
    simp only [bind_assoc, pure_bind]
    rfl
  | quiet | force | negate =>
    rw [hk] at hplain
    cases hplain
  | _ => rfl

theorem evaluateOperand_of_marks {tokens : List Site}
    (hm : ∀ s ∈ tokens, s.kind.isModifier = true) :
    evaluateOperand host i tokens w = .error (.at none .missingOperand) w := by
  unfold evaluateOperand
  simp only [takeMarks_of_marks hm]
  rfl

/-- **What a side has taken**, if it has a value. -/
theorem side_of_ok {tokens : List Site} {v : Value} {u : World σ ι}
    (hok : evaluateOperand host i tokens w = .ok (v, rest) u) :
    ∃ taken, tokens = taken ++ rest ∧ Side host i w taken v u := by
  rcases exists_row tokens with hm | ⟨r, more, rfl, hmore⟩
  · rw [evaluateOperand_of_marks hm] at hok
    cases hok
  · rw [evaluateOperand_tokens host i w r hmore] at hok
    cases hword : r.head.query? w with
    | none =>
      rw [hword] at hok
      obtain ⟨v', u', hv, hdone⟩ := bind_ok hok
      cases hdone
      refine ⟨r.marks ++ [r.head], ?_, .written r.marks_modify r.head_plain hword hv⟩
      simp [Row.tokens]
    | some q =>
      rw [hword] at hok
      obtain ⟨v', u', hcall, hdone⟩ := bind_ok hok
      cases hdone
      exact ⟨r.tokens, rfl, .call r hword hcall⟩

/-- **A side takes no more**, if nothing but an operator follows. -/
theorem Side.ok {taken : List Site} {v : Value} {u : World σ ι} (h : Side host i w taken v u)
    (hrest : Outside rest) : evaluateOperand host i (taken ++ rest) w = .ok (v, rest) u := by
  cases h with
  | @written marks hm s hs hword _ _ hv =>
    let r : Row := ⟨marks, s, [], hm, hs, fun t ht => absurd ht List.not_mem_nil⟩
    have hread := evaluateOperand_tokens host i w r hrest
    have hquery : r.head.query? w = none := hword
    rw [hquery] at hread
    exact hread.trans (bind_of_ok hv)
  | call r hword hcall =>
    rw [evaluateOperand_tokens host i w r hrest, hword]
    exact bind_of_ok hcall

/-- No token of a side is an operator. -/
theorem Side.plain {taken : List Site} {v : Value} {u : World σ ι} (h : Side host i w taken v u) :
    ∀ s ∈ taken, s.kind.endsArguments = false := by
  cases h with
  | @written marks hm s hs hword _ _ hv =>
    intro t ht
    rcases List.mem_append.mp ht with ht | ht
    · exact Kind.endsArguments_of_isModifier (hm t ht)
    · obtain rfl := List.mem_singleton.mp ht
      unfold Site.value at hv
      cases hk : t.kind with
      | integer | serial | double | string | operand => rfl
      | _ =>
        rw [hk] at hv
        cases hv
  | call r hword hcall =>
    intro t ht
    rcases List.mem_append.mp ht with ht | ht
    · exact Kind.endsArguments_of_isModifier (r.marks_modify t ht)
    · rcases List.mem_cons.mp ht with rfl | ht
      · rw [kind_of_query? hword]
        rfl
      · exact r.args_plain t ht

/-- **A comparison** has an answer exactly if its tokens are two sides with an operator between them
and nothing else. -/
theorem evaluateBinary_ok_iff {tokens : List Site} {b : Bool} {u : World σ ι} :
    evaluateBinary host i tokens w = .ok b u ↔
      ∃ left op right l r v, tokens = left ++ op :: right ∧ op.kind.isComparison = true ∧
        Side host i w left l v ∧ Side host i v right r u ∧
        Value.compare op.kind l r (some op) = .ok b := by
  constructor
  · intro hok
    unfold evaluateBinary at hok
    obtain ⟨⟨l, rest⟩, v, hleft, hop⟩ := bind_ok hok
    obtain ⟨left, rfl, hl⟩ := side_of_ok hleft
    cases rest with
    | nil => cases hop
    | cons op more =>
      simp only at hop
      cases hkind : op.kind.isComparison with
      | false =>
        rw [hkind] at hop
        cases hop
      | true =>
        rw [hkind] at hop
        obtain ⟨⟨r, extra⟩, u', hright, hdone⟩ := bind_ok hop
        obtain ⟨right, rfl, hr⟩ := side_of_ok hright
        cases extra with
        | cons op' _ => cases hdone
        | nil =>
          obtain ⟨hcompare, rfl⟩ := lift_eq_ok_iff.mp hdone
          rw [List.append_nil]
          exact ⟨left, op, right, l, r, v, rfl, hkind, hl, hr, hcompare⟩
  · rintro ⟨left, op, right, l, r, v, rfl, hop, hl, hr, hcompare⟩
    have hends : Outside (op :: right) := by
      intro s hs
      cases hs
      rw [Kind.endsArguments, hop, Bool.or_true]
    have hright := hr.ok outside_nil
    rw [List.append_nil] at hright
    unfold evaluateBinary
    rw [bind_of_ok (hl.ok hends)]
    simp only [hop]
    refine (bind_of_ok hright).trans ?_
    exact lift_eq_ok_iff.mpr ⟨hcompare, rfl⟩

/-- The operators among some tokens. -/
def operatorsIn (tokens : List Site) : List Site := tokens.filter fun s => s.kind.endsArguments

/-- Between two sides stands the only operator. -/
theorem operatorsIn_sides {left right : List Site} {op : Site} {l r : Value} {v u : World σ ι}
    (hl : Side host i w left l v) (hr : Side host i v right r u)
    (hop : op.kind.isComparison = true) : operatorsIn (left ++ op :: right) = [op] := by
  have none_of_side : ∀ {w taken v u}, Side host i w taken v u → operatorsIn taken = [] := by
    intro w taken v u h
    refine List.filter_eq_nil_iff.mpr fun s hs => ?_
    rw [h.plain s hs]
    decide
  have hends : op.kind.endsArguments = true := by rw [Kind.endsArguments, hop, Bool.or_true]
  have hright : operatorsIn (op :: right) = op :: operatorsIn right :=
    List.filter_cons_of_pos hends
  calc operatorsIn (left ++ op :: right)
      = operatorsIn left ++ operatorsIn (op :: right) := List.filter_append ..
    _ = [op] := by rw [none_of_side hl, hright, none_of_side hr, List.nil_append]

/-! ## Trees -/

/-- A statement that asks a command goes well exactly if the command does. -/
theorem executeStatement_ok_iff {t : Statement} (hs : t.site.kind = .statement)
    (hc : t.isCommand = true) {u : World σ ι} :
    executeStatement host i t w = .ok () u ↔
      ∃ b v, executeCommand host i t.site.children w = .ok b v ∧
        u = if b then v.modifyScript i Script.advance else v := by
  rw [executeStatement_of_command host hs hc]
  constructor
  · intro hok
    obtain ⟨b, v, hcommand, hdone⟩ := bind_ok hok
    refine ⟨b, v, hcommand, ?_⟩
    cases b with
    | true =>
      cases hdone
      rfl
    | false =>
      cases hdone
      rfl
  · rintro ⟨b, v, hcommand, rfl⟩
    rw [bind_of_ok hcommand]
    cases b with
    | true => rfl
    | false => rfl

/-- A call and a comparison are read from their tokens, if they have any. -/
theorem evaluate_of_tokens {s : Site} (hs : s.children ≠ []) :
    (s.kind = .unary → evaluate host i s = evaluateUnary host i s.children) ∧
    (s.kind = .binary → evaluate host i s = evaluateBinary host i s.children) := by
  have hempty : ¬ s.children.isEmpty = true := by rwa [List.isEmpty_iff]
  constructor
  · intro hk
    rw [evaluate_of_simple host (.inl hk), evaluateSimple, if_neg hempty, if_pos hk]
  · intro hk
    rw [evaluate_of_simple host (.inr hk), evaluateSimple, if_neg hempty, if_neg]
    rw [hk]
    decide

/-- Without tokens there is no answer. -/
theorem evaluate_of_no_tokens {s : Site} (hk : s.kind = .unary ∨ s.kind = .binary)
    (hs : s.children = []) : evaluate host i s w = .error (.at (some s) .emptyExpression) w := by
  rw [evaluate_of_simple host hk, evaluateSimple, if_pos (by rw [hs]; rfl)]
  rfl

theorem evaluate_ok_iff_of_unary {s : Site} (hk : s.kind = .unary) {b : Bool} {u : World σ ι} :
    evaluate host i s w = .ok b u ↔ evaluateUnary host i s.children w = .ok b u := by
  by_cases hs : s.children = []
  · rw [evaluate_of_no_tokens (.inl hk) hs, hs,
      evaluateUnary_of_marks fun t ht => absurd ht List.not_mem_nil]
    constructor
    · intro h
      cases h
    · intro h
      cases h
  · rw [(evaluate_of_tokens hs).1 hk]

theorem evaluate_ok_iff_of_binary {s : Site} (hk : s.kind = .binary) {b : Bool} {u : World σ ι} :
    evaluate host i s w = .ok b u ↔ evaluateBinary host i s.children w = .ok b u := by
  by_cases hs : s.children = []
  · rw [evaluate_of_no_tokens (.inr hk) hs, evaluateBinary_ok_iff, hs]
    constructor
    · intro h
      cases h
    · rintro ⟨left, op, right, -, -, -, htokens, -⟩
      exact absurd htokens.symm
        (List.append_ne_nil_of_right_ne_nil left (List.cons_ne_nil op right))
  · rw [(evaluate_of_tokens hs).2 hk]

/-- What does not go well fails. -/
theorem exists_error {α : Type} {x : ScriptM σ ι α} (h : ∀ a u, x w ≠ .ok a u) :
    ∃ fault u, x w = .error fault u := by
  cases hx : x w with
  | ok a u => exact absurd hx (h a u)
  | error fault u => exact ⟨fault, u, rfl⟩

/-- A second operator stops a comparison. -/
theorem evaluate_of_two_operators {s : Site} (hk : s.kind = .binary)
    (htwo : 2 ≤ (operatorsIn s.children).length) :
    ∃ fault u, evaluate host i s w = .error fault u := by
  refine exists_error fun b u hok => ?_
  obtain ⟨left, op, right, l, r, v, htokens, hop, hl, hr, -⟩ :=
    evaluateBinary_ok_iff.mp ((evaluate_ok_iff_of_binary hk).mp hok)
  rw [htokens, operatorsIn_sides hl hr hop, List.length_singleton] at htwo
  omega

end

/-! ## The headline -/

/-- **Each token has its use**, but behind the arguments of a call.

* A statement that asks a command goes well exactly if its tokens are marks, a word and arguments,
  and the handler of the word is called with all these arguments and goes well.
* A comparison has an answer exactly if its tokens are two sides with an operator between them, the
  only one, and the sides have values that can be compared.
* A call has an answer exactly if its tokens BEGIN with such a row.  What follows, from the first
  operator on, is passed over.

So an operator behind the arguments stops a command before anything is called, and a second operator
stops a comparison; but a call answers as if its tokens ended before the operator. -/
theorem tokens_used {σ ι : Type} (host : Host σ ι) (i : Nat) (w : World σ ι) :
    (∀ t : Statement, t.site.kind = .statement → t.isCommand = true → ∀ u,
      (executeStatement host i t w = .ok () u ↔
        ∃ (r : Row) (b : Bool) (v : World σ ι), t.site.children = r.tokens ∧
          r.Commands host i w b v ∧ u = if b then v.modifyScript i Script.advance else v) ∧
      ∀ (r : Row) (op : Site) (more : List Site), op.kind.endsArguments = true →
        t.site.children = r.tokens ++ op :: more →
        ∃ fault, executeStatement host i t w = .error fault w) ∧
    (∀ s : Site, s.kind = .binary →
      (∀ b u, evaluate host i s w = .ok b u ↔
        ∃ left op right l r v, s.children = left ++ op :: right ∧ operatorsIn s.children = [op] ∧
          op.kind.isComparison = true ∧ Side host i w left l v ∧ Side host i v right r u ∧
          Value.compare op.kind l r (some op) = .ok b) ∧
      (2 ≤ (operatorsIn s.children).length → ∃ fault u, evaluate host i s w = .error fault u)) ∧
    ∀ s : Site, s.kind = .unary →
      (∀ b u, evaluate host i s w = .ok b u ↔
        ∃ (r : Row) (rest : List Site), s.children = r.tokens ++ rest ∧ Outside rest ∧
          r.Holds host i w b u) ∧
      ∀ (r : Row) (op : Site) (more : List Site), op.kind.endsArguments = true →
        s.children = r.tokens ++ op :: more →
        evaluate host i s w = evaluateUnary host i r.tokens w := by
  have behind {op : Site} (hop : op.kind.endsArguments = true) (more : List Site) :
      Outside (op :: more) := by
    intro s hs
    cases hs
    exact hop
  refine ⟨fun t hs hc u => ⟨?_, ?_⟩, fun s hk => ?_, fun s hk => ⟨fun b u => ?_, ?_⟩⟩
  · rw [executeStatement_ok_iff hs hc]
    constructor
    · rintro ⟨b, v, hcommand, hu⟩
      obtain ⟨r, htokens, hr⟩ := executeCommand_ok_iff.mp hcommand
      exact ⟨r, b, v, htokens, hr, hu⟩
    · rintro ⟨r, b, v, htokens, hr, hu⟩
      exact ⟨b, v, executeCommand_ok_iff.mpr ⟨r, htokens, hr⟩, hu⟩
  · intro r op more hop htokens
    have hstops : ∃ fault, executeCommand host i t.site.children w = .error fault w := by
      rw [htokens, executeCommand_row host i w r (behind hop more)]
      cases r.head.lexeme with
      | none => exact ⟨_, rfl⟩
      | some word =>
        simp only
        cases w.registry.commands.get? word with
        | none => exact ⟨_, rfl⟩
        | some h => exact ⟨_, rfl⟩
    obtain ⟨fault, hfault⟩ := hstops
    rw [executeStatement_of_command host hs hc]
    exact ⟨fault, bind_of_error hfault⟩
  · refine ⟨fun b u => ?_, evaluate_of_two_operators hk⟩
    rw [evaluate_ok_iff_of_binary hk, evaluateBinary_ok_iff]
    constructor
    · rintro ⟨left, op, right, l, r, v, htokens, hop, hl, hr, hcompare⟩
      refine ⟨left, op, right, l, r, v, htokens, ?_, hop, hl, hr, hcompare⟩
      rw [htokens]
      exact operatorsIn_sides hl hr hop
    · rintro ⟨left, op, right, l, r, v, htokens, -, hop, hl, hr, hcompare⟩
      exact ⟨left, op, right, l, r, v, htokens, hop, hl, hr, hcompare⟩
  · rw [evaluate_ok_iff_of_unary hk, evaluateUnary_ok_iff]
  · intro r op more hop htokens
    have hsome : s.children ≠ [] := by
      rw [htokens]
      exact List.append_ne_nil_of_right_ne_nil r.tokens (List.cons_ne_nil op more)
    have halone := evaluateUnary_tokens host i w r outside_nil
    rw [List.append_nil] at halone
    rw [(evaluate_of_tokens hsome).1 hk, htokens, evaluateUnary_tokens host i w r (behind hop more),
      halone]

/-- A world with the bundled words. -/
def wordedWorld : World Unit Unit where
  host := ()
  registry := Registry.addBundled {}

/-- A word, an operator and another word. -/
def looseTokens (kind : Kind) (word : String) : List Node :=
  [{ kind, lexeme := some word }, { kind := .equal, lexeme := some "==" },
    { kind := .operand, lexeme := some "false" }]

/-- A command with an operator behind its word. -/
def looseCommand : Statement :=
  ⟨0, .root { kind := .statement, children := looseTokens .command "sysmsg" }⟩

/-- A comparison with a second operator. -/
def looseComparison : Site :=
  .root {
    kind := .binary
    children := { kind := .operand, lexeme := some "true" } ::
      { kind := .equal, lexeme := some "==" } :: looseTokens .operand "true" }

/-- A call with an operator behind its word. -/
def looseCall : Site := .root { kind := .unary, children := looseTokens .operand "true" }

/-- A word as a row of its own. -/
def Row.single (s : Site) (h : s.kind.isModifier = false) : Row where
  marks := []
  head := s
  args := []
  marks_modify _ ht := absurd ht List.not_mem_nil
  head_plain := h
  args_plain _ ht := absurd ht List.not_mem_nil

/-- The operator stops the command and the comparison, but not the call. -/
theorem tokens_used_loose :
    (∃ fault, executeStatement quietHost 0 looseCommand wordedWorld = .error fault wordedWorld) ∧
    (∃ fault u, evaluate quietHost 0 looseComparison wordedWorld = .error fault u) ∧
    evaluate quietHost 0 looseCall wordedWorld =
      evaluateUnary quietHost 0 (looseCall.children.take 1) wordedWorld := by
  obtain ⟨hcommand, hcomparison, hcall⟩ := tokens_used quietHost 0 wordedWorld
  refine ⟨?_, (hcomparison looseComparison rfl).2 (by decide), ?_⟩
  · exact (hcommand looseCommand rfl rfl wordedWorld).2 (.single (looseCommand.site.down 0 _) rfl)
      _ _ rfl rfl
  · exact (hcall looseCall rfl).2 (.single (looseCall.down 0 _) rfl) _ _ rfl rfl

/-- **An operator behind a call goes unnoticed**: the call holds, although its tokens are no row. -/
theorem unnoticed_of_looseCall :
    evaluate quietHost 0 looseCall wordedWorld = .ok true wordedWorld ∧
      ¬ ∃ r : Row, looseCall.children = r.tokens := by
  constructor
  · have hsome : looseCall.children ≠ [] := List.cons_ne_nil _ _
    rw [(evaluate_of_tokens hsome).1 rfl]
    rfl
  · rintro ⟨r, htokens⟩
    have hword : ∀ s ∈ r.tokens, s.kind.isModifier = false := by
      rw [← htokens]
      decide
    have hnone : r.marks = [] := by
      refine List.eq_nil_iff_forall_not_mem.mpr fun s hs => ?_
      have hmark := r.marks_modify s hs
      rw [hword s (List.mem_append_left _ hs)] at hmark
      cases hmark
    rw [Row.tokens, hnone, List.nil_append] at htokens
    have hargs := (List.cons.inj htokens).2
    have hplain := r.args_plain
    rw [← hargs] at hplain
    exact absurd (hplain _ List.mem_cons_self) (by decide)

end Cadence
