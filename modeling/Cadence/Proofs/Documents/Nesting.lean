/-
  NESTING — which values a text can write, and that the text of such a value reads back.

  A value lies WITHIN a number of levels when its arrays and objects are nested no deeper and what
  stands at the leaves is admitted (`Within`).

  1. **Spelling** — a value has a spelling in tokens (`spelling`), and the text it is printed as
     consists of just these tokens, wherever it stands (`words_printAt`).

  2. **Reading on** — the reader takes the spelling of a value as that value, as long as the open
     arrays and objects leave room for its levels (`run_spelling`).  So a printed value reads back
     (`read?_print`).

  3. **Nothing else is read** — whatever a reader holds lies within the room that was left for it
     (`Machine.Sound`), so every value that is read lies within the limit, and its whole numbers are
     short (`within_of_read?`).
-/
import Cadence.Json.Reader
import Cadence.Proofs.Documents.Words

namespace Cadence.Json

/-- Arrays and objects are nested at most so many levels deep, and the other values inside satisfy
the test. -/
def Within (p : Json → Prop) : Nat → Json → Prop
  | 0, .array _ => False
  | 0, .object _ => False
  | room + 1, .array items => ∀ v ∈ items, Within p room v
  | room + 1, .object members => ∀ m ∈ members, Within p room m.2
  | _, v => p v

/-- A value in one word that is written without loss: any but a real. -/
def Plain : Json → Prop
  | .real _ => False
  | v => v.OneWord

/-- A value in one word takes no level. -/
theorem OneWord.within {v : Json} (h : v.OneWord) (room : Nat) : Within OneWord room v := by
  cases v with
  | array items => exact h.elim
  | object members => exact h.elim
  | null => cases room <;> exact h
  | bool b => cases room <;> exact h
  | int n => cases room <;> exact h
  | real x => cases room <;> exact h
  | text s => cases room <;> exact h

/-! ## Spelling -/

mutual
/-- The tokens of a value. -/
def spelling : Json → List Token
  | .text s => [.text s]
  | .array [] => [.openArray, .closeArray]
  | .array (v :: rest) => .openArray :: spelling v ++ spellingItems rest ++ [.closeArray]
  | .object [] => [.openObject, .closeObject]
  | .object ((k, v) :: rest) =>
    .openObject :: .text k :: .colon :: spelling v ++ spellingMembers rest ++ [.closeObject]
  | v => [.atom v]

/-- The tokens of the items after the first. -/
def spellingItems : List Json → List Token
  | [] => []
  | v :: rest => .comma :: spelling v ++ spellingItems rest

/-- The tokens of the members after the first. -/
def spellingMembers : List (String × Json) → List Token
  | [] => []
  | (k, v) :: rest => .comma :: .text k :: .colon :: spelling v ++ spellingMembers rest
end

/-- The characters of a value are the tokens of its spelling, wherever it stands. -/
def Spells (v : Json) : Prop :=
  ∀ depth more, Delimited more →
    words (printAt plainEscape depth v ++ more) = (words more).map (spelling v ++ ·)

theorem Delimited.newline (depth : Nat) (cs : List Char) : Delimited (newline depth ++ cs) := by
  intro c hc
  exact .inr (Option.some.inj hc).symm

theorem delimited_printItems (depth : Nat) (items : List Json) {more : List Char}
    (h : Delimited more) : Delimited (printItems plainEscape depth items ++ more) := by
  cases items with
  | nil => exact h
  | cons v rest =>
    intro c hc
    exact .inl (Option.some.inj hc).symm

theorem delimited_printMembers (depth : Nat) (members : List (String × Json)) {more : List Char}
    (h : Delimited more) : Delimited (printMembers plainEscape depth members ++ more) := by
  cases members with
  | nil => exact h
  | cons m rest =>
    intro c hc
    exact .inl (Option.some.inj hc).symm

theorem words_printItems {items : List Json} (hs : ∀ v ∈ items, Spells v) (depth : Nat)
    {more : List Char} (h : Delimited more) :
    words (printItems plainEscape depth items ++ more) =
      (words more).map (spellingItems items ++ ·) := by
  induction items with
  | nil => simp [printItems, spellingItems]
  | cons v rest ih =>
    have hrest := ih fun u hu => hs u (List.mem_cons_of_mem v hu)
    have hv := hs v List.mem_cons_self depth _ (delimited_printItems depth rest h)
    simp only [printItems, spellingItems, List.cons_append, List.append_assoc]
    rw [words_structural (t := .comma) rfl rfl, words_newline, hv, hrest]
    simp only [Option.map_map]
    rfl

theorem words_member (k : String) {v : Json} (hv : Spells v) (depth : Nat) {more : List Char}
    (h : Delimited more) :
    words (quotedWith plainEscape k ++ ':' :: ' ' :: (printAt plainEscape depth v ++ more)) =
      (words more).map fun ts => .text k :: .colon :: (spelling v ++ ts) := by
  rw [words_quoted, words_structural (t := .colon) rfl rfl, words_space rfl, hv depth more h]
  simp only [Option.map_map]
  rfl

theorem words_printMembers {members : List (String × Json)} (hs : ∀ m ∈ members, Spells m.2)
    (depth : Nat) {more : List Char} (h : Delimited more) :
    words (printMembers plainEscape depth members ++ more) =
      (words more).map (spellingMembers members ++ ·) := by
  induction members with
  | nil => simp [printMembers, spellingMembers]
  | cons m rest ih =>
    obtain ⟨k, v⟩ := m
    have hrest := ih fun u hu => hs u (List.mem_cons_of_mem _ hu)
    have hv := words_member k (hs _ List.mem_cons_self) depth (delimited_printMembers depth rest h)
    simp only [printMembers, spellingMembers, List.cons_append, List.append_assoc]
    rw [words_structural (t := .comma) rfl rfl, words_newline, hv, hrest]
    simp only [Option.map_map]
    rfl

/-- A value in one word is one token. -/
theorem spells_of_plain {v : Json} (hv : v.Plain) : Spells v := by
  intro depth more h
  cases v with
  | null => exact words_literal (w := "null".toList) (by simp) more
  | bool b =>
    cases b with
    | false => exact words_literal (w := "false".toList) (by simp) more
    | true => exact words_literal (w := "true".toList) (by simp) more
  | int n => exact words_intText hv h
  | real x => exact hv.elim
  | text s => exact words_quoted s more
  | array items => exact hv.elim
  | object members => exact hv.elim

/-- **The text of a value is its spelling.** -/
theorem words_printAt {room : Nat} {v : Json} (hv : Within Plain room v) : Spells v := by
  induction room generalizing v with
  | zero =>
    cases v with
    | array items => exact hv.elim
    | object members => exact hv.elim
    | _ => exact spells_of_plain hv
  | succ room ih =>
    intro depth more h
    cases v with
    | array items =>
      cases items with
      | nil =>
        show words ('[' :: ']' :: more) = _
        rw [words_structural (t := .openArray) rfl rfl, words_structural (t := .closeArray) rfl rfl,
          Option.map_map]
        rfl
      | cons v rest =>
        have hitems : ∀ u ∈ v :: rest, Spells u := fun u hu => ih (hv u hu)
        have hclose : Delimited (newline depth ++ (']' :: more)) := .newline _ _
        have hfirst := hitems v List.mem_cons_self (depth + 1) _
          (delimited_printItems (depth + 1) rest hclose)
        have hrest := words_printItems (fun u hu => hitems u (List.mem_cons_of_mem v hu))
          (depth + 1) hclose
        simp only [printAt, spelling, List.cons_append, List.append_assoc, List.nil_append]
        rw [words_structural (t := .openArray) rfl rfl, words_newline, hfirst, hrest,
          words_newline, words_structural (t := .closeArray) rfl rfl]
        simp only [Option.map_map]
        rfl
    | object members =>
      cases members with
      | nil =>
        show words ('\x7b' :: '\x7d' :: more) = _
        rw [words_structural (t := .openObject) rfl rfl,
          words_structural (t := .closeObject) rfl rfl, Option.map_map]
        rfl
      | cons m rest =>
        obtain ⟨k, v⟩ := m
        have hmembers : ∀ u ∈ (k, v) :: rest, Spells u.2 := fun u hu => ih (hv u hu)
        have hclose : Delimited (newline depth ++ ('\x7d' :: more)) := .newline _ _
        have hfirst := words_member k (hmembers _ List.mem_cons_self) (depth + 1)
          (delimited_printMembers (depth + 1) rest hclose)
        have hrest := words_printMembers (fun u hu => hmembers u (List.mem_cons_of_mem _ hu))
          (depth + 1) hclose
        simp only [printAt, spelling, List.cons_append, List.append_assoc, List.nil_append]
        rw [words_structural (t := .openObject) rfl rfl, words_newline, hfirst, hrest,
          words_newline, words_structural (t := .closeObject) rfl rfl]
        simp only [Option.map_map]
        rfl
    | _ => exact spells_of_plain hv depth more h

/-! ## Reading on -/

/-- A reader that has room for so many levels, and may begin with a value, takes the spelling of the
value as the value. -/
def Taken (limit room : Nat) (v : Json) : Prop :=
  ∀ (stack : List Frame) (mode : Mode) (ts : List Token), mode = .value ∨ mode = .valueOrClose →
    stack.length + room ≤ limit →
      Machine.run limit ⟨stack, mode⟩ (spelling v ++ ts) = Machine.run limit ⟨stack, .complete v⟩ ts

theorem run_items {limit room : Nat} {items : List Json} (ht : ∀ v ∈ items, Taken limit room v)
    (done : List Json) (v : Json) {stack : List Frame} (hr : stack.length + 1 + room ≤ limit)
    (ts : List Token) :
    Machine.run limit ⟨.items done :: stack, .complete v⟩
        (spellingItems items ++ .closeArray :: ts) =
      Machine.run limit ⟨stack, .complete (.array (done.reverse ++ v :: items))⟩ ts := by
  induction items generalizing done v with
  | nil =>
    show Machine.run limit ⟨stack, .complete (.array (v :: done).reverse)⟩ ts = _
    rw [List.reverse_cons]
  | cons u rest ih =>
    simp only [spellingItems, List.cons_append, List.append_assoc]
    show Machine.run limit ⟨.items (v :: done) :: stack, .value⟩ _ = _
    rw [ht u List.mem_cons_self (.items (v :: done) :: stack) .value _ (.inl rfl) hr,
      ih fun u hu => ht u (List.mem_cons_of_mem _ hu), List.reverse_cons, List.append_assoc]
    rfl

theorem run_members {limit room : Nat} {members : List (String × Json)}
    (ht : ∀ m ∈ members, Taken limit room m.2) (done : List (String × Json)) (k : String)
    (v : Json) {stack : List Frame} (hr : stack.length + 1 + room ≤ limit) (ts : List Token) :
    Machine.run limit ⟨.member done k :: stack, .complete v⟩
        (spellingMembers members ++ .closeObject :: ts) =
      Machine.run limit ⟨stack, .complete (.object (done.reverse ++ (k, v) :: members))⟩ ts := by
  induction members generalizing done k v with
  | nil =>
    show Machine.run limit ⟨stack, .complete (.object ((k, v) :: done).reverse)⟩ ts = _
    rw [List.reverse_cons]
  | cons m rest ih =>
    obtain ⟨k', u⟩ := m
    simp only [spellingMembers, List.cons_append, List.append_assoc]
    show Machine.run limit ⟨.member ((k, v) :: done) k' :: stack, .value⟩ _ = _
    rw [ht _ List.mem_cons_self (.member ((k, v) :: done) k' :: stack) .value _ (.inl rfl) hr,
      ih fun u hu => ht u (List.mem_cons_of_mem _ hu), List.reverse_cons, List.append_assoc]
    rfl

theorem taken_of_oneWord {v : Json} (hv : v.OneWord) (limit room : Nat) : Taken limit room v := by
  intro stack mode ts hm _
  cases v with
  | array items => exact hv.elim
  | object members => exact hv.elim
  | _ => rcases hm with rfl | rfl <;> rfl

theorem Plain.oneWord {v : Json} (h : v.Plain) : v.OneWord := by
  cases v with
  | real x => exact h.elim
  | _ => exact h

/-- An array or an object begins where a value may begin and one more level is allowed. -/
theorem step_open {limit : Nat} {stack : List Frame} {mode : Mode}
    (hm : mode = .value ∨ mode = .valueOrClose) (h : stack.length < limit) :
    Machine.step limit ⟨stack, mode⟩ .openArray = some ⟨.items [] :: stack, .valueOrClose⟩ ∧
    Machine.step limit ⟨stack, mode⟩ .openObject = some ⟨.members [] :: stack, .keyOrClose⟩ := by
  rcases hm with rfl | rfl
  all_goals exact ⟨if_pos h, if_pos h⟩

/-- **The spelling of a value is taken as the value**, where there is room for its levels. -/
theorem run_spelling {limit room : Nat} {v : Json} (hv : Within Plain room v) :
    Taken limit room v := by
  induction room generalizing v with
  | zero =>
    cases v with
    | array items => exact hv.elim
    | object members => exact hv.elim
    | _ => exact taken_of_oneWord (Plain.oneWord hv) limit 0
  | succ room ih =>
    intro stack mode ts hm hr
    have hlt : stack.length < limit := by omega
    obtain ⟨harray, hobject⟩ := step_open hm hlt
    cases v with
    | array items =>
      cases items with
      | nil =>
        simp only [spelling, List.cons_append, Machine.run, harray, Option.bind_some]
        rfl
      | cons v rest =>
        have hitems : ∀ u ∈ v :: rest, Taken limit room u := fun u hu => ih (hv u hu)
        have hroom : (Frame.items [] :: stack).length + room ≤ limit := by
          rw [List.length_cons]
          omega
        simp only [spelling, List.cons_append, List.append_assoc, Machine.run, harray,
          Option.bind_some]
        rw [hitems v List.mem_cons_self _ _ _ (.inr rfl) hroom]
        exact run_items (fun u hu => hitems u (List.mem_cons_of_mem v hu)) [] v hroom ts
    | object members =>
      cases members with
      | nil =>
        simp only [spelling, List.cons_append, Machine.run, hobject, Option.bind_some]
        rfl
      | cons m rest =>
        obtain ⟨k, v⟩ := m
        have hmembers : ∀ u ∈ (k, v) :: rest, Taken limit room u.2 := fun u hu => ih (hv u hu)
        have hroom : (Frame.member [] k :: stack).length + room ≤ limit := by
          rw [List.length_cons]
          omega
        simp only [spelling, List.cons_append, List.append_assoc, Machine.run, hobject,
          Option.bind_some]
        show Machine.run limit ⟨.member [] k :: stack, .value⟩ _ = _
        rw [hmembers _ List.mem_cons_self _ _ _ (.inl rfl) hroom]
        exact run_members (fun u hu => hmembers u (List.mem_cons_of_mem _ hu)) [] k v hroom ts
    | _ => exact taken_of_oneWord (Plain.oneWord hv) limit _ stack mode ts hm hr

/-- **A printed value reads back.** -/
theorem read?_print {limit : Nat} {v : Json} (hv : Within Plain limit v) :
    read? v.print limit = some v := by
  have hwords : words (printAt plainEscape 0 v) = some (spelling v) := by
    have := words_printAt hv 0 [] nofun
    simpa using this
  have hrun := run_spelling hv [] .value [] (.inl rfl) (Nat.le_of_eq (Nat.zero_add limit))
  rw [List.append_nil] at hrun
  unfold read? tokens print
  rw [String.toList_ofList]
  show ((words (printAt plainEscape 0 v)).bind fun ts =>
    (Machine.run limit ⟨[], .value⟩ ts).bind Machine.result?) = _
  rw [hwords, Option.bind_some, hrun]
  rfl

/-! ## Nothing else is read -/

/-- The values that an open array or object has so far. -/
def Frame.contents : Frame → List Json
  | .items done => done
  | .members done => done.map Prod.snd
  | .member done _ => done.map Prod.snd

/-- What the open arrays and objects hold lies within the levels that each of them leaves. -/
def Held (limit : Nat) : List Frame → Prop
  | [] => True
  | f :: below =>
    (below.length < limit ∧ ∀ v ∈ f.contents, Within OneWord (limit - (below.length + 1)) v) ∧
      Held limit below

/-- What a reader holds lies within the limit. -/
structure Machine.Sound (limit : Nat) (m : Machine) : Prop where
  /-- So does what is open. -/
  held : Held limit m.stack
  /-- So does the value that has just been completed. -/
  complete : ∀ v, m.mode = .complete v → Within OneWord (limit - m.stack.length) v

namespace Machine

variable {limit : Nat}

/-- An array that closes lies within one level more than its items. -/
theorem within_array {below : Nat} (h : below < limit) {items : List Json}
    (hv : ∀ v ∈ items, Within OneWord (limit - (below + 1)) v) :
    Within OneWord (limit - below) (.array items) := by
  have hroom : limit - below = limit - (below + 1) + 1 := by omega
  rw [hroom]
  exact hv

/-- So does an object that closes. -/
theorem within_object {below : Nat} (h : below < limit) {members : List (String × Json)}
    (hv : ∀ v ∈ members.map Prod.snd, Within OneWord (limit - (below + 1)) v) :
    Within OneWord (limit - below) (.object members) := by
  have hroom : limit - below = limit - (below + 1) + 1 := by omega
  rw [hroom]
  exact fun m hm => hv m.2 (List.mem_map_of_mem hm)

/-- A reader that has completed an array or an object. -/
theorem Sound.closed {stack : List Frame} {v : Json} (hs : Held limit stack)
    (hv : Within OneWord (limit - stack.length) v) : Sound limit ⟨stack, .complete v⟩ :=
  ⟨hs, fun u hu => by cases hu; exact hv⟩

theorem Sound.begin {stack : List Frame} {t : Token} {m : Machine} (hs : Held limit stack)
    (ht : ∀ v, t = .atom v → v.OneWord) (h : Machine.begin limit stack t = some m) :
    m.Sound limit := by
  unfold Machine.begin at h
  split at h
  · rename_i v
    cases h
    exact ⟨hs, fun u hu => by cases hu; exact (ht v rfl).within _⟩
  · cases h
    exact ⟨hs, fun u hu => by cases hu; exact OneWord.within (v := .text _) trivial _⟩
  · split at h
    · rename_i hlt
      cases h
      exact ⟨⟨⟨hlt, nofun⟩, hs⟩, nofun⟩
    · exact absurd h nofun
  · split at h
    · rename_i hlt
      cases h
      exact ⟨⟨⟨hlt, nofun⟩, hs⟩, nofun⟩
    · exact absurd h nofun
  · exact absurd h nofun

/-- **A token keeps what a reader holds within the limit.** -/
theorem Sound.step {m m' : Machine} {t : Token} (hm : m.Sound limit)
    (ht : ∀ v, t = .atom v → v.OneWord) (h : m.step limit t = some m') : m'.Sound limit := by
  obtain ⟨stack, mode⟩ := m
  obtain ⟨hheld, hcomplete⟩ := hm
  unfold Machine.step at h
  simp only at h hheld hcomplete
  split at h
  -- a value begins
  case h_1 | h_3 => exact .begin hheld ht h
  -- what has just been opened is closed
  case h_2 =>
    cases h
    obtain ⟨⟨hlt, hdone⟩, hbelow⟩ := hheld
    exact .closed hbelow (within_array hlt fun v hv => hdone v (List.mem_reverse.mp hv))
  case h_4 =>
    cases h
    obtain ⟨⟨hlt, hdone⟩, hbelow⟩ := hheld
    refine .closed hbelow (within_object hlt fun v hv => hdone v ?_)
    rw [List.map_reverse] at hv
    exact List.mem_reverse.mp hv
  -- a key and a colon add no value
  case h_5 | h_6 | h_7 =>
    cases h
    exact ⟨hheld, nofun⟩
  -- a completed value goes to what is open, which stays open or is closed
  case h_8 v done below =>
    cases h
    obtain ⟨⟨hlt, hdone⟩, hbelow⟩ := hheld
    exact ⟨⟨⟨hlt, List.forall_mem_cons.mpr ⟨hcomplete v rfl, hdone⟩⟩, hbelow⟩, nofun⟩
  case h_9 v done below =>
    cases h
    obtain ⟨⟨hlt, hdone⟩, hbelow⟩ := hheld
    refine .closed hbelow (within_array hlt fun u hu => ?_)
    exact List.forall_mem_cons.mpr ⟨hcomplete v rfl, hdone⟩ u (List.mem_reverse.mp hu)
  case h_10 v done k below =>
    cases h
    obtain ⟨⟨hlt, hdone⟩, hbelow⟩ := hheld
    exact ⟨⟨⟨hlt, List.forall_mem_cons.mpr ⟨hcomplete v rfl, hdone⟩⟩, hbelow⟩, nofun⟩
  case h_11 v done k below =>
    cases h
    obtain ⟨⟨hlt, hdone⟩, hbelow⟩ := hheld
    refine .closed hbelow (within_object hlt fun u hu => ?_)
    rw [List.map_reverse] at hu
    exact List.forall_mem_cons.mpr ⟨hcomplete v rfl, hdone⟩ u (List.mem_reverse.mp hu)
  case h_12 => exact absurd h nofun

/-- What a reader holds lies within the limit after any tokens. -/
theorem Sound.run {m m' : Machine} {ts : List Token} (hm : m.Sound limit)
    (ht : ∀ v, Token.atom v ∈ ts → v.OneWord) (h : m.run limit ts = some m') : m'.Sound limit := by
  induction ts generalizing m with
  | nil =>
    cases h
    exact hm
  | cons t rest ih =>
    obtain ⟨u, hu, hrest⟩ := Option.bind_eq_some_iff.mp h
    have hatom : ∀ v, t = .atom v → v.OneWord := by
      rintro v rfl
      exact ht v List.mem_cons_self
    exact ih (hm.step hatom hu) (fun v hv => ht v (List.mem_cons_of_mem t hv)) hrest

end Machine

/-- The values among the tokens of a text are in one word. -/
theorem oneWord_of_tokensIn {n : Nat} {cs : List Char} {ts : List Token}
    (h : tokensIn n cs = some ts) {v : Json} (hv : Token.atom v ∈ ts) : v.OneWord := by
  induction n generalizing cs ts with
  | zero => exact absurd h nofun
  | succ n ih =>
    unfold tokensIn at h
    split at h
    · cases h
      exact absurd hv List.not_mem_nil
    · obtain ⟨⟨t, r⟩, hread, hmap⟩ := Option.bind_eq_some_iff.mp h
      obtain ⟨us, hus, rfl⟩ := Option.map_eq_some_iff.mp hmap
      rcases List.mem_cons.mp hv with ht | hmem
      · exact (readToken_eq_some hread).2 v ht.symm
      · exact ih hus hmem

/-- **Every value that is read lies within the limit**, and its whole numbers are short. -/
theorem within_of_read? {s : String} {limit : Nat} {v : Json} (h : read? s limit = some v) :
    Within OneWord limit v := by
  obtain ⟨ts, hts, h⟩ := Option.bind_eq_some_iff.mp h
  obtain ⟨m, hrun, hresult⟩ := Option.bind_eq_some_iff.mp h
  have hstart : Machine.Sound limit {} := ⟨trivial, nofun⟩
  have hm := hstart.run (fun v hv => oneWord_of_tokensIn hts hv) hrun
  unfold Machine.result? at hresult
  split at hresult
  · cases hresult
    exact hm.complete v rfl
  · exact absurd hresult nofun

end Cadence.Json
