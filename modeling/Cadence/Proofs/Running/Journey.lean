/-
  JOURNEYS — in all worlds that ticks and operations lead to, scripts refer to their own trees only.

  A JOURNEY goes from world to world by ticks, failing or not, by operations on cursors and trees,
  and by anything that writes none of this.  Whatever a host does in the middle of a tick is a
  journey of its own, and there it may also run scripts.  So journeys and the hosts that are DOCILE
  in this sense are defined together, and it is proved of both together that they leave all scripts
  in their trees (`Journey.upholds`, `Docile.upholding`).

  The result is `Journey.present`.  It needs that no guard of a further branch loads a tree into the
  script that asks it, and `clings_to_replaced` is what happens where one does.
-/
import Cadence.Proofs.Running.Apart
import Cadence.Proofs.Running.Bearings

namespace Cadence

open ScriptM

section

variable {σ ι : Type} {mild : Site → Prop}

/-! ## What ticks and operations lead to -/

/-- What moves a cursor or loads a tree, by the number of a script or for the active one. -/
inductive Control (ι : Type) where
  | goto (i : Nat) (line : Int)
  | comeBack (i : Nat)
  | advance (i : Nat)
  | reset (i : Nat)
  | replace (i : Nat) (root : Node)
  | create (name : String) (root : Node)
  | active (h : Helper ι)

/-- Carries it out. -/
def Control.perform : Control ι → ScriptM σ ι Unit
  | .goto i line => do let _ ← gotoScript i line
  | .comeBack i => modifyScript i Script.returnFromGoto
  | .advance i => modifyScript i Script.advance
  | .reset i => modifyScript i Script.reset
  | .replace i root => modifyScript i (·.replace root)
  | .create name root => modify fun w => { w with scripts := w.scripts.push (.start name root) }
  | .active h => h.perform

/-- The tree that is loaded. -/
def Control.root? : Control ι → Option Node
  | .replace _ root | .create _ root => some root
  | _ => none

/-- **No operation takes a script out of its tree**, and one that loads a tree takes it there. -/
theorem Control.upholds (o : Control ι) (ho : ∀ root, o.root? = some root → root.Guards mild) :
    Keeps (Upholds mild) (o.perform : ScriptM σ ι Unit) := by
  cases o with
  | goto i line => exact .bind upholds_tolerant (upholds_roams.gotoScript i line) fun _ => fun _ => id
  | comeBack i => exact upholds_returnFromGoto i
  | advance i => exact upholds_advance
  | reset i => exact fun w => upholds_modifyScript_of_root i w rfl fun h => h.reset
  | replace i root =>
    exact fun w => upholds_modifyScript i w fun _ => ⟨.replace _ root, ho root rfl⟩
  | create name root =>
    intro w hw i
    have hpushed : (Control.perform (.create name root)).after w =
        { w with scripts := w.scripts.push (.start name root) } := rfl
    rw [hpushed, World.script_push]
    split
    · exact ⟨.start name root, ho root rfl⟩
    · exact hw i
  | active h => exact upholds_roams.helper h

mutual

/-- The ways from a world to another: ticks, failing or not, what moves cursors and loads trees, and
anything that writes none of this. -/
inductive Journey (mild : Site → Prop) : World σ ι → World σ ι → Prop where
  | refl (w : World σ ι) : Journey mild w w
  | control {u v : World σ ι} (o : Control ι) : Journey mild u v →
      (∀ root, o.root? = some root → root.Guards mild) → Journey mild u (o.perform.after v)
  | aside {u v w : World σ ι} : Journey mild u v → (∀ i, Same Script.control i v w) →
      Journey mild u w
  | tick {u v : World σ ι} {host : Host σ ι} (i : Nat) : Docile mild host → Journey mild u v →
      Journey mild u ((tick host i).after v)

/-- Whatever a host does is made of such steps, its own ticks of scripts included; and the guards
of further branches do not load a tree into the script that asks. -/
inductive Docile (mild : Site → Prop) : Host σ ι → Prop where
  | intro {host : Host σ ι}
      (command : ∀ t word args quiet force w,
        Journey mild w ((host.command t word args quiet force).after w))
      (expression : ∀ t word args quiet w,
        Journey mild w ((host.expression t word args quiet).after w))
      (computedAlias : ∀ t name w, Journey mild w ((host.computedAlias t name).after w))
      (listener : ∀ t e w, Journey mild w ((host.listener t e).after w))
      (rule : ∀ t c w, Journey mild w ((host.rule t c).after w))
      (callback : ∀ t w, Journey mild w ((host.callback t).after w))
      (write : ∀ line w, Journey mild w ((host.write line).after w))
      (guard : ∀ i head, head.kind = .elseIf → mild head →
        Keeps (SameTree i) (evaluateGuard host i head)) :
      Docile mild host

end

mutual

/-- Every step leaves all scripts in their trees. -/
theorem Journey.upholds {u w : World σ ι} (h : Journey mild u w) : Upholds mild u w :=
  match h with
  | .refl _ => id
  | .control o h ho => fun hu => o.upholds ho _ (h.upholds hu)
  | .aside h hs => fun hu i => by
    refine ⟨(h.upholds hu i).1.of_control (hs i), ?_⟩
    rw [Script.root_of_tree (Script.tree_of_control (hs i))]
    exact (h.upholds hu i).2
  | .tick i ht h => fun hu => ht.upholding.tick i _ (h.upholds hu)

theorem Docile.upholding {host : Host σ ι} (h : Docile mild host) : Upholding mild host :=
  match h with
  | .intro command expression computedAlias listener rule callback write guard =>
    { around :=
        { expression := fun t word args quiet w => (expression t word args quiet w).upholds
          computedAlias := fun t name w => (computedAlias t name w).upholds
          listener := fun t e w => (listener t e w).upholds
          rule := fun t c w => (rule t c w).upholds
          write := fun line w => (write line w).upholds }
      command := fun t word args quiet force w => (command t word args quiet force w).upholds
      callback := fun t w => (callback t w).upholds
      guard := guard }

end

/-- **A script refers to the tree that it has loaded, and to no other**: in all worlds that begin
without scripts, whatever ticks and operations lead there. -/
theorem Journey.present {w₀ w : World σ ι} (h₀ : w₀.scripts = #[]) (h : Journey mild w₀ w)
    (i : Nat) :
    (w.script i).Present ∧
      ∀ line, (∀ t, (w.script i).statementOn? line = some t →
          (w.script i).tree.Has t ∧ t.line = line) ∧
        ((w.script i).statementOn? line = none → ∀ t, (w.script i).tree.Has t → t.line ≠ line) := by
  have hw₀ : w₀.Present mild := by
    intro j
    have hj : w₀.script j = default := by
      rw [World.script, h₀]
      rfl
    rw [hj]
    exact ⟨.default, Node.guards_of_bare rfl⟩
  exact ⟨(h.upholds hw₀ i).1, fun line => ⟨fun _ => Script.has_of_statementOn?,
    fun hnone _ => Script.line_ne_of_statementOn? hnone⟩⟩

end

/-! ## A tree that is loaded in the middle of a tick -/

/-- A host whose tokens are trees: a command loads its tree into the first script. -/
def loadingHost : Host Unit Node where
  command root _ _ _ _ := do
    modifyScript 0 (·.replace root)
    return .null
  expression _ _ _ _ := return .null
  computedAlias _ _ := return .null
  listener _ _ := return
  rule _ _ := return
  callback _ := return .null
  write _ := return

theorem loadingHost_docile : Docile (fun _ => True) loadingHost := by
  refine .intro (fun root _ _ _ _ w => ?_) (fun _ _ _ _ w => .refl w) (fun _ _ w => .refl w)
    (fun _ _ w => .refl w) (fun _ _ w => .refl w) (fun _ w => .refl w) (fun _ w => .refl w)
    fun i head _ _ => ?_
  · exact .control (.replace 0 root) (.refl w) fun _ _ _ _ _ _ _ _ => trivial
  · have hL := sameTree_tolerant (σ := Unit) (ι := Node) i
    have hserves : loadingHost.Serves (SameTree i) :=
      ⟨fun _ _ _ _ w => hL.refl w, fun _ _ w => hL.refl w, fun _ w => hL.refl w⟩
    exact keeps_evaluateGuard hL i hserves head

/-- Is one the same as a number? -/
def oneIs (n : String) : Node where
  kind := .binary
  children := [{ kind := .integer, lexeme := some "1" }, { kind := .equal },
    { kind := .integer, lexeme := some n }]

/-- A choice whose second branch is taken if its guard holds. -/
def secondRoot (guard : Node) : Node where
  kind := .script
  children :=
    [{ kind := .statement, line := 1, children := [{ kind := .ifStart, children := [oneIs "2"] }] },
     { kind := .statement, line := 2, children := [{ kind := .elseIf, children := [guard] }] },
     { kind := .statement, line := 3
       children := [{ kind := .command, lexeme := some "load" }] },
     { kind := .statement, line := 4, children := [{ kind := .ifEnd }] }]

/-- A world with a command that loads a script of one line, and an expression that stands for a
script of none. -/
def loadingWorld : World Unit Node where
  host := ()
  registry :=
    { commands := Table.empty.insert "load" (.host
        { kind := .script
          children := [{ kind := .statement, line := 7, children := [{ kind := .stop }] }] })
      expressions := Table.empty.insert "probe" (.host { kind := .script }) }

/-- The choice is loaded. -/
def choiceWorld (guard : Node) : World Unit Node :=
  (Control.perform (.create "choice" (secondRoot guard))).after loadingWorld

/-- Its second branch has been entered, and then the script was sent to the line where it is. -/
def sentWorld : World Unit Node :=
  (Control.perform (.goto 0 3)).after ((tick loadingHost 0).after (choiceWorld (oneIs "1")))

/-- The script has a frame and a return point of the tree that its command replaces, and neither of
them afterwards. -/
theorem present_loaded :
    Docile (fun _ => True) loadingHost ∧
    Journey (fun _ => True) loadingWorld ((tick loadingHost 0).after sentWorld) ∧
    (sentWorld.script 0).returnDepth = 1 ∧ (sentWorld.script 0).frames.toList.length = 2 ∧
    (((tick loadingHost 0).after sentWorld).script 0).currentLine = 7 ∧
    (((tick loadingHost 0).after sentWorld).script 0).Present := by
  have hcreated : Journey (fun _ => True) loadingWorld (choiceWorld (oneIs "1")) :=
    .control _ (.refl _) fun _ _ _ _ _ _ _ _ => trivial
  have hsent : Journey (fun _ => True) loadingWorld sentWorld :=
    .control _ (.tick 0 loadingHost_docile hcreated) nofun
  have hloaded := hsent.tick 0 loadingHost_docile
  exact ⟨loadingHost_docile, hloaded, by decide +kernel, by decide +kernel, by decide +kernel,
    (Journey.present rfl hloaded 0).1⟩

/-- The host that also loads a tree when an expression is evaluated. -/
def probingHost : Host Unit Node :=
  { loadingHost with
    expression := fun root _ _ _ => do
      modifyScript 0 (·.replace root)
      return .bool true }

/-- A guard that probes. -/
def probe : Node where
  kind := .unary
  children := [{ kind := .operand, lexeme := some "probe" }]

/-- A guard of a further branch loads a tree without statements and holds: the cursor goes into the
branch, in the tree that was replaced. -/
theorem clings_to_replaced :
    (((tick probingHost 0).after (choiceWorld probe)).script 0).root.children.length = 0 ∧
    (((tick probingHost 0).after (choiceWorld probe)).script 0).currentLine = 3 ∧
    ¬ (((tick probingHost 0).after (choiceWorld probe)).script 0).Present := by
  have hempty :
      (((tick probingHost 0).after (choiceWorld probe)).script 0).root.children.length = 0 := by
    decide +kernel
  refine ⟨hempty, by decide +kernel, fun hpresent => ?_⟩
  have hsome :
      (((tick probingHost 0).after (choiceWorld probe)).script 0).cursor.isSome = true := by
    decide +kernel
  obtain ⟨t, ht⟩ := Option.isSome_iff_exists.mp hsome
  obtain ⟨k, hk⟩ := hpresent.cursor t ht
  obtain ⟨n, hn, -⟩ := Tree.statement?_eq_some.mp hk
  obtain ⟨hlt, -⟩ := List.getElem?_eq_some_iff.mp hn
  exact absurd (hempty ▸ hlt) (Nat.not_lt_zero k)

end Cadence
