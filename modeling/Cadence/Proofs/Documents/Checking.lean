/-
  CHECKING — what a value must be to be a document, and what documents come out.

  1. **Trees** — the nodes of a tree are a node and the nodes below it (`Node.parts`), and the tree
     reaches so many levels down (`Node.height`).

  2. **What is good** — a tree on lines that exist is written as a value that is checked to be this
     tree (`checkNode_nodeJson`), and so is a document that keeps the rules (`check_toJson`).  Its
     value takes two levels for each level of the tree (`within_nodeJson`).

  3. **What comes out** — a value that is good is a tree of half as many levels, and however its
     lines are spelled, they are numbers from zero on that can be written again (`checkNode_sound`,
     `check_sound`).
-/
import Cadence.Document.Basic
import Cadence.Proofs.Documents.Nesting

namespace Cadence

open Text

/-! ## Trees -/

namespace Node

/-- What holds of a tree when it holds of the trees directly below holds of every tree. -/
theorem induct {P : Node → Prop}
    (h : ∀ kind lexeme line children, (∀ c ∈ children, P c) → P ⟨kind, lexeme, line, children⟩)
    (n : Node) : P n := by
  obtain ⟨kind, lexeme, line, children⟩ := n
  exact h _ _ _ _ fun c hc => induct h c
termination_by sizeOf n
decreasing_by
  have := List.sizeOf_lt_of_mem hc
  simp only [Node.mk.sizeOf_spec]
  omega

/-- The nodes of a tree. -/
def parts (n : Node) : List Node := (Site.root n).walk.map Site.node

mutual
/-- How many levels a tree has below its topmost node. -/
def height : Node → Nat
  | ⟨_, _, _, children⟩ => heights children

/-- How many levels the given trees have, side by side. -/
def heights : List Node → Nat
  | [] => 0
  | n :: rest => max (n.height + 1) (heights rest)
end

theorem heights_le {ns : List Node} {k : Nat} : heights ns ≤ k ↔ ∀ n ∈ ns, n.height + 1 ≤ k := by
  induction ns with
  | nil => simp [heights]
  | cons n rest ih => rw [heights, Nat.max_le, List.forall_mem_cons, ih]

theorem map_node_walkBelow {ns : List Node}
    (h : ∀ n ∈ ns, ∀ above, (Site.walkFrom above n).map Site.node = n.parts) (parent : Node)
    (above : List (Node × Nat)) (i : Nat) :
    (Site.walkBelow parent above i ns).map Site.node = ns.flatMap parts := by
  induction ns generalizing i with
  | nil => rfl
  | cons n rest ih =>
    rw [Site.walkBelow, List.map_append, h n List.mem_cons_self, List.flatMap_cons,
      ih fun m hm => h m (List.mem_cons_of_mem n hm)]

/-- The nodes of a tree do not depend on where it stands. -/
theorem map_node_walkFrom (n : Node) :
    ∀ above, (Site.walkFrom above n).map Site.node = n.parts := by
  induction n using induct with
  | h kind lexeme line children ih =>
    have go : ∀ above, (Site.walkFrom above ⟨kind, lexeme, line, children⟩).map Site.node =
        ⟨kind, lexeme, line, children⟩ :: children.flatMap parts := by
      intro above
      rw [Site.walkFrom, List.map_cons, map_node_walkBelow ih]
    intro above
    rw [go above]
    exact (go []).symm

theorem parts_eq (n : Node) : n.parts = n :: n.children.flatMap parts := by
  have h : n.parts = (Site.walkFrom [] n).map Site.node := rfl
  obtain ⟨kind, lexeme, line, children⟩ := n
  rw [h, Site.walkFrom, List.map_cons, map_node_walkBelow fun n _ => map_node_walkFrom n]

/-- What holds of all nodes of a tree holds of the topmost one and of the nodes of the trees
below it. -/
theorem forall_parts {P : Node → Prop} {n : Node} :
    (∀ m ∈ n.parts, P m) ↔ P n ∧ ∀ c ∈ n.children, ∀ m ∈ c.parts, P m := by
  rw [parts_eq, List.forall_mem_cons]
  simp only [List.mem_flatMap]
  constructor
  · exact fun h => ⟨h.1, fun c hc n hn => h.2 n ⟨c, hc, hn⟩⟩
  · exact fun h => ⟨h.1, fun n ⟨c, hc, hn⟩ => h.2 c hc n hn⟩

end Node

/-! ## Checks that go well -/

/-- Two checks together are good when both are. -/
theorem Checked.zipWith_eq_good {α β γ : Type} {f : α → β → γ} {a : Checked α} {b : Checked β}
    {c : γ} : a.zipWith f b = .good c ↔ ∃ x y, a = .good x ∧ b = .good y ∧ f x y = c := by
  cases a with
  | good x =>
    cases b with
    | good y => simp [Checked.zipWith]
    | bad qs => simp [Checked.zipWith]
  | bad ps => cases b <;> simp [Checked.zipWith]

namespace Document

/-- A node is good when each of its fields is, and no field is unknown. -/
theorem checkMembers_eq_good {path : List Step} {members : List (String × Json)}
    {children : Option (Checked (List Node))} {n : Node} :
    checkMembers path members children = .good n ↔
      checkKind (at_ path "type") ((Json.ofMembers members).get? "type") = .good n.kind ∧
      checkLexeme (at_ path "lexeme") ((Json.ofMembers members).get? "lexeme") = .good n.lexeme ∧
      checkLine (at_ path "line") ((Json.ofMembers members).get? "line") = .good n.line ∧
      children.getD (.good []) = .good n.children ∧
      checkKeys nodeKeys path members = .good () := by
  unfold checkMembers
  simp only [Checked.zipWith_eq_good]
  constructor
  · rintro ⟨_, u, ⟨_, cs, ⟨_, line, ⟨kind, lexeme, hk, hl, rfl⟩, hn, rfl⟩, hc, rfl⟩, hu, rfl⟩
    exact ⟨hk, hl, hn, hc, hu⟩
  · rintro ⟨hk, hl, hn, hc, hu⟩
    cases n
    exact ⟨_, _, ⟨_, _, ⟨_, _, ⟨_, _, hk, hl, rfl⟩, hn, rfl⟩, hc, rfl⟩, hu, rfl⟩

/-! ## The rules -/

theorem allLinesValid_iff {ns : List Node} :
    allLinesValid ns = true ↔ ∀ n ∈ ns, linesValid n = true := by
  induction ns with
  | nil => simp [allLinesValid]
  | cons n rest ih => rw [allLinesValid, Bool.and_eq_true, List.forall_mem_cons, ih]

theorem linesValid_iff (n : Node) : linesValid n = true ↔ ∀ m ∈ n.parts, 0 ≤ m.line := by
  induction n using Node.induct with
  | h kind lexeme line children ih =>
    rw [Node.forall_parts, linesValid, Bool.and_eq_true, allLinesValid_iff, decide_eq_true_eq]
    exact and_congr_right fun _ => forall_congr' fun c => forall_congr' fun hc => ih c hc

theorem brokenRule?_eq_none {n : Node} :
    brokenRule? n = none ↔ n.kind = .script ∧ ∀ c ∈ n.children, c.kind = .statement := by
  unfold brokenRule?
  by_cases h : n.kind = .script
  · simp [h]
  · simp [h]

/-! ## What is good -/

theorem nodesJson_eq_map (ns : List Node) : nodesJson ns = ns.map nodeJson := by
  induction ns with
  | nil => rfl
  | cons n rest ih => rw [nodesJson, ih, List.map_cons]

theorem checkItems_nodesJson {ns : List Node}
    (h : ∀ n ∈ ns, ∀ path, checkNode path (nodeJson n) = .good n) (path : List Step) (i : Nat) :
    checkItems path i (nodesJson ns) = .good ns := by
  induction ns generalizing i with
  | nil => rfl
  | cons n rest ih =>
    rw [nodesJson, checkItems, h n List.mem_cons_self,
      ih fun m hm => h m (List.mem_cons_of_mem n hm)]
    rfl

theorem checkLexeme_some (path : List Step) (lexeme : Option String) :
    checkLexeme path (some (lexeme.elim .null .text)) = .good lexeme := by
  cases lexeme with
  | none => rfl
  | some s => rfl

theorem checkLine_int {line : Int} (h : 0 ≤ line) (path : List Step) :
    checkLine path (some (.int line)) = .good line := by
  show (if line < 0 then _ else _) = _
  rw [if_neg (by omega)]

/-- The value of a tree on lines that exist is checked to be the tree. -/
theorem checkNode_nodeJson {n : Node} (h : ∀ m ∈ n.parts, 0 ≤ m.line) (path : List Step) :
    checkNode path (nodeJson n) = .good n := by
  induction n using Node.induct generalizing path with
  | h kind lexeme line children ih =>
    obtain ⟨hline, hbelow⟩ := Node.forall_parts.mp h
    have hitems : ∀ path i, checkItems path i (nodesJson children) = .good children :=
      checkItems_nodesJson fun c hc path => ih c hc (hbelow c hc) path
    have hkind : ∀ path, checkKind path (some (.text kind.tag)) = .good kind := by
      intro path
      unfold checkKind
      simp only
      rw [Kind.ofTag?_tag]
    have hlast : lastChildren (at_ path "children") [("type", .text kind.tag),
        ("lexeme", lexeme.elim .null .text), ("line", .int line),
        ("children", .array (nodesJson children))] =
        some (checkItems (at_ path "children") 0 (nodesJson children)) := rfl
    rw [nodeJson, checkNode, hlast, checkMembers_eq_good]
    exact ⟨hkind _, checkLexeme_some _ lexeme, checkLine_int hline _, hitems _ _, rfl⟩

/-- A root is good when its node is and keeps the rules about the uppermost levels. -/
theorem checkRoot_eq_good {v : Option Json} {n : Node} :
    checkRoot v = .good n ↔
      ∃ u, v = some u ∧ checkNode [.key "root"] u = .good n ∧ brokenRule? n = none := by
  cases v with
  | none => exact ⟨nofun, fun ⟨_, h, _⟩ => absurd h nofun⟩
  | some v =>
    simp only [checkRoot, Option.some.injEq, exists_eq_left']
    cases hv : checkNode [.key "root"] v with
    | bad ps => exact ⟨nofun, fun ⟨h, _⟩ => absurd h nofun⟩
    | good root =>
      simp only [Checked.good.injEq]
      cases hr : brokenRule? root with
      | none =>
        simp only [Checked.good.injEq]
        exact ⟨fun h => ⟨h, h ▸ hr⟩, And.left⟩
      | some defect =>
        refine ⟨nofun, fun ⟨h, hn⟩ => ?_⟩
        rw [← h, hr] at hn
        exact absurd hn nofun

/-- A document is good when each of its fields is, and no field is unknown. -/
theorem check_object_eq_good {members : List (String × Json)} {d : Document} :
    check (.object members) = .good d ↔
      checkName ((Json.ofMembers members).get? "name") = .good d.name ∧
      checkVersion ((Json.ofMembers members).get? "version") = .good () ∧
      checkRoot ((Json.ofMembers members).get? "root") = .good d.root ∧
      checkKeys documentKeys [] members = .good () := by
  unfold check
  simp only [Checked.zipWith_eq_good]
  constructor
  · rintro ⟨_, u, ⟨_, root, ⟨name, _, hn, hv, rfl⟩, hr, rfl⟩, hu, rfl⟩
    exact ⟨hn, hv, hr, hu⟩
  · rintro ⟨hn, hv, hr, hu⟩
    exact ⟨_, _, ⟨_, _, ⟨_, _, hn, hv, rfl⟩, hr, rfl⟩, hu, rfl⟩

/-- **The value of a document that keeps the rules is checked to be the document.** -/
theorem check_toJson {d : Document} (hrules : brokenRule? d.root = none)
    (hlines : ∀ n ∈ d.root.parts, 0 ≤ n.line) : check (toJson d) = .good d := by
  have hroot : checkRoot (some (nodeJson d.root)) = .good d.root :=
    checkRoot_eq_good.mpr ⟨_, rfl, checkNode_nodeJson hlines _, hrules⟩
  exact check_object_eq_good.mpr ⟨rfl, rfl, hroot, rfl⟩

/-- The value of a tree takes two levels for each level of the tree: an object, and the array of
its children. -/
theorem within_nodeJson {n : Node} {k : Nat} (hh : n.height ≤ k)
    (hs : ∀ m ∈ n.parts, IsShort m.line) : Json.Within Json.Plain (2 * k + 2) (nodeJson n) := by
  induction n using Node.induct generalizing k with
  | h kind lexeme line children ih =>
    obtain ⟨hline, hbelow⟩ := Node.forall_parts.mp hs
    have hlow : ∀ c ∈ children, c.height + 1 ≤ k := Node.heights_le.mp hh
    rw [nodeJson]
    intro m hm
    simp only [List.mem_cons, List.not_mem_nil, or_false] at hm
    obtain rfl | rfl | rfl | rfl := hm
    · exact trivial
    · cases lexeme <;> exact trivial
    · exact hline
    · show ∀ v ∈ nodesJson children, Json.Within Json.Plain (2 * k) v
      intro v hv
      rw [nodesJson_eq_map, List.mem_map] at hv
      obtain ⟨c, hc, rfl⟩ := hv
      have hk : 2 * k = 2 * (k - 1) + 2 := by
        have := hlow c hc
        omega
      rw [hk]
      exact ih c hc (by have := hlow c hc; omega) (hbelow c hc)

/-! ## What comes out -/

/-- Digits that pass the tests for a whole number write a short one. -/
theorem isShort_of_tests {negative : Bool} {ds : List Char} {n : Int} {p : Prop} [Decidable p]
    (h : (if p then Except.error Defect.notDigits
      else if Json.tooLong negative (ds.takeWhile isDigit) then .error .oversized
      else if ds.isEmpty ∨ !ds.all isDigit then .error .notDigits
      else .ok (Double.signed negative (digitsValue ds))) = .ok n) : IsShort n := by
  split at h
  · exact absurd h nofun
  split at h
  · exact absurd h nofun
  rename_i hlong
  split at h
  · exact absurd h nofun
  rename_i hdigits
  obtain ⟨hne, hall⟩ := not_or.mp hdigits
  have hall : ds.all isDigit = true := by simpa using hall
  have htake : ds.takeWhile isDigit = ds := by
    have happend : (ds ++ []).takeWhile isDigit = ds ++ [].takeWhile isDigit :=
      List.takeWhile_append_of_pos (List.all_eq_true.mp hall)
    simpa using happend
  rw [htake, Bool.not_eq_true] at hlong
  cases h
  exact isShort_signed hall (fun hnil => hne (List.isEmpty_iff.mpr hnil)) hlong

/-- The whole number that a text writes is short. -/
theorem isShort_of_textNumber {s : String} {n : Int} (h : textNumber s = .ok n) : IsShort n := by
  unfold textNumber at h
  simp only at h
  split at h
  · exact absurd h nofun
  · split at h <;> exact isShort_of_tests h

theorem wordLimit_le_digitBound : Double.wordLimit ≤ digitBound := by
  unfold Double.wordLimit digitBound
  rw [Int.ofNat_le]
  have hpow : ∀ k, 63 ≤ k → Nat.pow 2 63 ≤ Nat.pow 10 k := fun k hk =>
    Nat.le_trans (Nat.pow_le_pow_left (by decide) 63) (Nat.pow_le_pow_right (by decide) hk)
  exact hpow digitLimit (by decide)

theorem one_lt_digitBound : (1 : Int) < digitBound :=
  Int.lt_of_lt_of_le (by decide) wordLimit_le_digitBound

/-- However a line is spelled, it is small enough to be written again. -/
theorem wholeNumber_lt {v : Json} {n : Int} (hv : ∀ m, v = .int m → IsShort m)
    (h : wholeNumber v = .ok n) (hn : 0 ≤ n) : n < digitBound := by
  have hone := one_lt_digitBound
  have hword := wordLimit_le_digitBound
  unfold wholeNumber at h
  split at h
  case h_1 m =>
    cases h
    exact (isShort_iff_lt hn).mp (hv n rfl)
  case h_2 b => cases b <;> cases h <;> omega
  case h_3 x =>
    split at h
    · split at h
      · exact absurd h nofun
      · split at h
        · rename_i hlt
          cases h
          omega
        · exact absurd h nofun
    · exact absurd h nofun
  case h_4 s => exact (isShort_iff_lt hn).mp (isShort_of_textNumber h)
  case h_5 => exact absurd h nofun

/-- A line that is good can be written again. -/
theorem checkLine_sound {path : List Step} {v : Option Json} {n : Int}
    (hv : ∀ m, v = some (.int m) → IsShort m) (h : checkLine path v = .good n) :
    0 ≤ n ∧ n < digitBound := by
  cases v with
  | none =>
    have hone := one_lt_digitBound
    cases h
    omega
  | some v =>
    unfold checkLine at h
    simp only at h
    split at h
    · rename_i m hm
      split at h
      · exact absurd h nofun
      · rename_i hneg
        cases h
        have hn : 0 ≤ n := by omega
        exact ⟨hn, wholeNumber_lt (fun m hm => hv m (congrArg some hm)) hm hn⟩
    · exact absurd h nofun

/-- What stands under a key is one of the members. -/
theorem mem_of_get? {members : List (String × Json)} {key : String} {v : Json}
    (h : (Json.ofMembers members).get? key = some v) : (key, v) ∈ members := by
  -- the induction is on the members that are left, after those before them are in a table
  have go : ∀ (members : List (String × Json)) (t : Table Json),
      (members.foldl (fun t m => t.insert m.1 m.2) t).get? key = some v →
        (key, v) ∈ members ∨ t.get? key = some v := by
    intro members
    induction members with
    | nil => exact fun t ht => .inr ht
    | cons m rest ih =>
      intro t ht
      rcases ih _ ht with hmem | hget
      · exact .inl (List.mem_cons_of_mem m hmem)
      · rw [Table.get?_insert] at hget
        split at hget
        · rename_i hkey
          cases hkey
          cases hget
          exact .inl List.mem_cons_self
        · exact .inr hget
  exact (go members .empty h).resolve_right nofun

/-- The children of a node are what one of its members is checked to be. -/
theorem lastChildren_eq_some {path : List Step} {members : List (String × Json)}
    {c : Checked (List Node)} (h : lastChildren path members = some c) :
    ∃ m ∈ members, checkChildren path m.2 = c := by
  induction members with
  | nil => exact absurd h nofun
  | cons m rest ih =>
    obtain ⟨k, v⟩ := m
    rw [lastChildren] at h
    cases hrest : lastChildren path rest with
    | some c' =>
      rw [hrest] at h ih
      obtain ⟨m, hm, hc⟩ := ih h
      exact ⟨m, List.mem_cons_of_mem _ hm, hc⟩
    | none =>
      rw [hrest] at h
      simp only at h
      split at h
      · cases h
        exact ⟨(k, v), List.mem_cons_self, rfl⟩
      · exact absurd h nofun

/-- Each of several good nodes is what one of the values is checked to be. -/
theorem of_checkItems {path : List Step} {i : Nat} {items : List Json} {ns : List Node}
    (h : checkItems path i items = .good ns) {n : Node} (hn : n ∈ ns) :
    ∃ v ∈ items, ∃ path, checkNode path v = .good n := by
  induction items generalizing i ns with
  | nil =>
    cases h
    exact absurd hn List.not_mem_nil
  | cons v rest ih =>
    rw [checkItems, Checked.zipWith_eq_good] at h
    obtain ⟨first, others, hfirst, hothers, rfl⟩ := h
    rcases List.mem_cons.mp hn with rfl | hmem
    · exact ⟨v, List.mem_cons_self, _, hfirst⟩
    · obtain ⟨u, hu, hnode⟩ := ih hothers hmem
      exact ⟨u, List.mem_cons_of_mem v hu, hnode⟩

/-- The children of a good node come from the items of an array among its members. -/
theorem of_checkMembers {path path' : List Step} {members : List (String × Json)} {n c : Node}
    (h : checkMembers path members (lastChildren path' members) = .good n) (hc : c ∈ n.children) :
    ∃ m ∈ members, ∃ items, m.2 = .array items ∧
      ∃ v ∈ items, ∃ path, checkNode path v = .good c := by
  obtain ⟨_, _, _, hchildren, _⟩ := checkMembers_eq_good.mp h
  cases hlast : lastChildren path' members with
  | none =>
    rw [hlast] at hchildren
    cases n
    cases hchildren
    exact absurd hc List.not_mem_nil
  | some cs =>
    rw [hlast] at hchildren
    obtain ⟨m, hm, hcheck⟩ := lastChildren_eq_some hlast
    rw [Option.getD_some, ← hcheck] at hchildren
    cases hitems : m.2 with
    | array items =>
      rw [hitems] at hchildren
      exact ⟨m, hm, items, hitems, of_checkItems hchildren hc⟩
    | _ =>
      rw [hitems] at hchildren
      exact absurd hchildren nofun

/-- The whole numbers within the limit are short. -/
theorem isShort_of_within {room : Nat} {n : Int} (h : Json.Within Json.OneWord room (.int n)) :
    IsShort n := by
  cases room <;> exact h

/-- **A value that is good is a tree of half as many levels**, on lines that can be written. -/
theorem checkNode_sound {room : Nat} {v : Json} {path : List Step} {n : Node}
    (hv : Json.Within Json.OneWord room v) (h : checkNode path v = .good n) :
    2 * n.height + 1 ≤ room ∧ ∀ m ∈ n.parts, 0 ≤ m.line ∧ m.line < digitBound := by
  induction room using Nat.strongRecOn generalizing v path n with
  | ind room ih =>
    cases v with
    | object members =>
      cases room with
      | zero => exact hv.elim
      | succ r =>
        rw [checkNode] at h
        have hline := (checkMembers_eq_good.mp h).2.2.1
        have hshort := checkLine_sound (fun m hm => isShort_of_within (hv _ (mem_of_get? hm))) hline
        -- a child is an item of an array among the members: it has two levels less
        have hchild : ∀ c ∈ n.children, 2 * c.height + 3 ≤ r + 1 ∧
            ∀ m ∈ c.parts, 0 ≤ m.line ∧ m.line < digitBound := by
          intro c hc
          obtain ⟨m, hm, items, hitems, u, hu, path, hnode⟩ := of_checkMembers h hc
          have harray := hv m hm
          rw [hitems] at harray
          cases r with
          | zero => exact harray.elim
          | succ r =>
            obtain ⟨hlow, hlines⟩ := ih r (by omega) (harray u hu) hnode
            exact ⟨by omega, hlines⟩
        refine ⟨?_, Node.forall_parts.mpr ⟨hshort, fun c hc => (hchild c hc).2⟩⟩
        have hheight : n.height ≤ r / 2 := by
          cases n
          exact Node.heights_le.mpr fun c hc => by
            have := (hchild c hc).1
            omega
        omega
    | _ => exact absurd h nofun

/-- **A document that comes out** keeps the rules, its tree has at most half of the levels that are
left for it, and its lines can be written. -/
theorem check_sound {room : Nat} {v : Json} {d : Document}
    (hv : Json.Within Json.OneWord (room + 1) v) (h : check v = .good d) :
    brokenRule? d.root = none ∧ 2 * d.root.height + 1 ≤ room ∧
      ∀ n ∈ d.root.parts, 0 ≤ n.line ∧ n.line < digitBound := by
  cases v with
  | object members =>
    obtain ⟨_, _, hroot, _⟩ := check_object_eq_good.mp h
    obtain ⟨u, hu, hnode, hrules⟩ := checkRoot_eq_good.mp hroot
    exact ⟨hrules, checkNode_sound (hv _ (mem_of_get? hu)) hnode⟩
  | _ => exact absurd h nofun

end Document

end Cadence
