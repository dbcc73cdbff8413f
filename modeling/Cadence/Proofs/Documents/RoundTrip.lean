/-
  ROUND TRIP — what is written reads back, and what was read is written.

  A document can be WRITTEN when its tree keeps the rules (`dump_eq_ok`).  Its text reads back as
  the document when the tree has no more levels and its lines no more digits than the reader takes
  (`Fits.parse_print`), and every document that is read is such a one (`fits_of_parse`).  The two
  facts meet at the same limits, so a text that is read can be written again without loss, also one
  that leaves out what is written.
-/
import Cadence.Proofs.Documents.Checking

namespace Cadence.Document

/-- A document with few enough levels and few enough digits to be read. -/
structure Fits (d : Document) : Prop where
  /-- The document keeps the rules about the uppermost levels. -/
  rules : brokenRule? d.root = none
  /-- Each level takes two of the reader's levels, and the document itself takes one more. -/
  height : d.root.height ≤ 99
  /-- The lines exist. -/
  exist : ∀ n ∈ d.root.parts, 0 ≤ n.line
  /-- They are written with few enough digits. -/
  short : ∀ n ∈ d.root.parts, n.line < digitBound

/-- What is written is the value of a document that keeps the rules. -/
theorem dump_eq_ok {d : Document} {text : String} :
    dump d = .ok text ↔
      (∀ n ∈ d.root.parts, 0 ≤ n.line) ∧ brokenRule? d.root = none ∧ (toJson d).print = text := by
  unfold dump
  rw [← linesValid_iff]
  by_cases hl : linesValid d.root = true
  · rw [if_pos hl]
    cases hr : brokenRule? d.root with
    | none => simp [hl]
    | some defect => simp
  · rw [if_neg hl]
    simp [hl]

/-- A document is written unless it breaks a rule or stands on a line that does not exist. -/
theorem dump_eq_error {d : Document} :
    (∃ ps, dump d = .error ps) ↔
      d.root.kind ≠ .script ∨ (∃ c ∈ d.root.children, c.kind ≠ .statement) ∨
        ∃ n ∈ d.root.parts, n.line < 0 := by
  have hok : (∃ ps, dump d = .error ps) ↔ ¬ ∃ text, dump d = .ok text := by
    cases dump d <;> simp
  have hrules : (brokenRule? d.root = none) ↔
      ¬ (d.root.kind ≠ .script ∨ ∃ c ∈ d.root.children, c.kind ≠ .statement) := by
    rw [brokenRule?_eq_none]
    simp
  rw [hok]
  simp only [dump_eq_ok, exists_and_left, exists_eq', and_true, hrules]
  rw [← or_assoc]
  constructor
  · intro h
    by_cases hr : d.root.kind ≠ .script ∨ ∃ c ∈ d.root.children, c.kind ≠ .statement
    · exact .inl hr
    · refine .inr (Classical.byContradiction fun hn => h ⟨fun n hn' => ?_, hr⟩)
      exact Int.not_lt.mp fun hlt => hn ⟨n, hn', hlt⟩
  · rintro (hr | ⟨n, hn, hlt⟩) ⟨hl, hnr⟩
    · exact hnr hr
    · exact absurd (hl n hn) (Int.not_le.mpr hlt)

/-- The value of a document that fits lies within the levels of the reader. -/
theorem Fits.within_toJson {d : Document} (h : d.Fits) :
    Json.Within Json.Plain Json.depthLimit (toJson d) := by
  have hshort : ∀ n ∈ d.root.parts, IsShort n.line := fun n hn =>
    (isShort_iff_lt (h.exist n hn)).mpr (h.short n hn)
  show ∀ m : String × Json, m ∈ _ → Json.Within Json.Plain 200 m.2
  intro m hm
  simp only [List.mem_cons, List.not_mem_nil, or_false] at hm
  obtain rfl | rfl | rfl := hm
  · exact trivial
  · exact (isShort_iff_lt (n := 1) (by decide)).mpr one_lt_digitBound
  · exact within_nodeJson h.height hshort

/-- **What fits reads back.** -/
theorem Fits.parse_print {d : Document} (h : d.Fits) : parse (toJson d).print = .ok d := by
  unfold parse
  rw [Json.read?_print h.within_toJson]
  simp only [check_toJson h.rules h.exist]

/-- **What is read fits.** -/
theorem fits_of_parse {text : String} {d : Document} (h : parse text = .ok d) : d.Fits := by
  unfold parse at h
  split at h
  · exact absurd h nofun
  · rename_i v hv
    split at h
    · rename_i d' hd
      cases h
      have hwithin : Json.Within Json.OneWord (200 + 1) v := Json.within_of_read? hv
      obtain ⟨hrules, hheight, hlines⟩ := check_sound hwithin hd
      exact ⟨hrules, by omega, fun n hn => (hlines n hn).1, fun n hn => (hlines n hn).2⟩
    · exact absurd h nofun

/-! ## There and back -/

/-- **A tree is refused exactly when it breaks a rule, and what is written reads back exactly when
the reader takes so many levels and digits.** -/
theorem parse_of_dump (d : Document) :
    ((∃ ps, dump d = .error ps) ↔
      d.root.kind ≠ .script ∨ (∃ c ∈ d.root.children, c.kind ≠ .statement) ∨
        ∃ n ∈ d.root.parts, n.line < 0) ∧
    ∀ text, dump d = .ok text →
      (parse text = .ok d ↔ d.root.height ≤ 99 ∧ ∀ n ∈ d.root.parts, n.line < digitBound) := by
  refine ⟨dump_eq_error, fun text htext => ?_⟩
  obtain ⟨hlines, hrules, rfl⟩ := dump_eq_ok.mp htext
  constructor
  · intro h
    exact ⟨(fits_of_parse h).height, (fits_of_parse h).short⟩
  · rintro ⟨hheight, hshort⟩
    exact Fits.parse_print ⟨hrules, hheight, hlines, hshort⟩

/-- A script of one command whose text needs escapes. -/
def said : Document where
  name := "a \"name\""
  root := ⟨.script, none, 0, [⟨.statement, none, 1, [⟨.command, some "say\n\\é", 1, []⟩]⟩]⟩

theorem parse_of_dump_said :
    dump said = .ok (toJson said).print ∧ parse (toJson said).print = .ok said := by
  have hlines : ∀ n ∈ said.root.parts, 0 ≤ n.line ∧ n.line ≤ 1 := by
    simp [said, Node.parts_eq]
  have hdump : dump said = .ok (toJson said).print :=
    dump_eq_ok.mpr ⟨fun n hn => (hlines n hn).1, rfl, rfl⟩
  refine ⟨hdump, ((parse_of_dump said).2 _ hdump).mpr ⟨by decide, fun n hn => ?_⟩⟩
  exact Int.lt_of_le_of_lt (hlines n hn).2 one_lt_digitBound

/-- A script without statements that stands on the given line. -/
def lone (line : Int) : Document where
  root := ⟨.script, none, line, []⟩

theorem dump_lone {line : Int} (h : 0 ≤ line) :
    dump (lone line) = .ok (toJson (lone line)).print :=
  dump_eq_ok.mpr ⟨Node.forall_parts.mpr ⟨h, nofun⟩, rfl, rfl⟩

theorem lt_of_parse_lone {line : Int} {text : String} (h : parse text = .ok (lone line)) :
    line < digitBound :=
  (Node.forall_parts.mp (fits_of_parse h).short).1

/-- The limit on digits is a limit: a script on the first line with too many of them is written, and
its text does not read back. -/
theorem parse_of_dump_lone :
    (lone digitBound).root.height = 0 ∧
      ∃ text, dump (lone digitBound) = .ok text ∧ parse text ≠ .ok (lone digitBound) :=
  ⟨rfl, _, dump_lone (Int.natCast_nonneg _), fun h => Int.lt_irrefl _ (lt_of_parse_lone h)⟩

/-- **What was read can be written, and reads back as it was**, so that writing it once more changes
nothing. -/
theorem dump_of_parse {t : String} {d : Document} (h : parse t = .ok d) :
    ∃ text, dump d = .ok text ∧ parse text = .ok d ∧
      ∀ d', parse text = .ok d' → dump d' = .ok text := by
  have hfits := fits_of_parse h
  have hback := hfits.parse_print
  have hdump : dump d = .ok (toJson d).print := dump_eq_ok.mpr ⟨hfits.exist, hfits.rules, rfl⟩
  refine ⟨_, hdump, hback, fun d' hd' => ?_⟩
  rw [hback] at hd'
  cases hd'
  exact hdump

/-- A text that spells a line in its own way, gives a key twice and leaves out the rest. -/
def terse : String :=
  "\x7b\"root\": \x7b\"type\": \"IF\", \"line\": \" +0_2.0\", \"type\": \"SCRIPT\"\x7d\x7d"

theorem dump_of_parse_terse :
    ∃ d text, parse terse = .ok d ∧ d.root.line = 2 ∧ dump d = .ok text ∧ parse text = .ok d := by
  have hread : (parse terse).toOption.map (fun d => d.root.line) = some 2 := by decide +kernel
  cases hd : parse terse with
  | error e =>
    rw [hd] at hread
    exact absurd hread nofun
  | ok d =>
    rw [hd] at hread
    obtain ⟨text, hdump, hback, _⟩ := dump_of_parse hd
    exact ⟨d, text, rfl, Option.some.inj hread, hdump, hback⟩

end Cadence.Document
