import Mathlib.Data.List.Nodup
import Mathlib.Data.List.ReduceOption

/-!
# Reading CSV files

The reader of Python's `csv` module in its default dialect, as a machine that takes a file
character by character, and `csv.DictReader` over it. The file is opened with `newline=""`, so its
lines keep their ends.

* `Csv.Bare` — the texts that can stand in a file as they are.
* `Csv.records_textLine` — a line of bare texts is read back.
* `Csv.bare_of_reads` — conversely, a text that is read back was bare: what a quote takes away
  cannot come back, as the fields that it swallows bring their commas with them.
-/

namespace Csv

/-! ## The machine -/

/-- A text without separators of fields or lines. -/
def Plain (s : String) : Prop := ∀ c ∈ s.toList, c ≠ ',' ∧ c ≠ '\n' ∧ c ≠ '\r'

instance (s : String) : Decidable (Plain s) := List.decidableBAll _ _

/-- `csv.field_size_limit()` -/
def fieldLimit : ℕ := 131072

/-- A text that stands in a file as it is: no separators, no quote in front, not too long. -/
def Bare (s : String) : Prop :=
  Plain s ∧ s.toList.head? ≠ some '"' ∧ s.toList.length ≤ fieldLimit

inductive ReaderState where
  | startRecord
  | startField
  | inField
  | inQuotedField
  | quoteInQuotedField
  | eatCrnl
  deriving DecidableEq

/-- `csv.Error` -/
inductive CsvError where
  | fieldLimit
  | newlineInUnquotedField
  deriving DecidableEq

structure Reader where
  state : ReaderState := .startRecord
  field : List Char := []
  fields : List String := []

def Reader.addChar (r : Reader) (c : Char) : Except CsvError Reader :=
  if fieldLimit ≤ r.field.length then .error .fieldLimit
  else .ok { r with field := r.field ++ [c] }

def Reader.saveField (r : Reader) : Reader :=
  { r with field := [], fields := r.fields ++ [String.ofList r.field] }

def isNewline (c : Char) : Bool := c = '\n' || c = '\r'

/-- The first character of a field. -/
def startField (r : Reader) (c : Char) : Except CsvError Reader :=
  if isNewline c then .ok { r.saveField with state := .eatCrnl }
  else if c = '"' then .ok { r with state := .inQuotedField }
  else if c = ',' then .ok { r.saveField with state := .startField }
  else { r with state := .inField }.addChar c

/-- One character of the file. -/
def processChar (r : Reader) (c : Char) : Except CsvError Reader :=
  match r.state with
  | .startRecord =>
    if isNewline c then .ok { r with state := .eatCrnl } else startField r c
  | .startField => startField r c
  | .inField =>
    if isNewline c then .ok { r.saveField with state := .eatCrnl }
    else if c = ',' then .ok { r.saveField with state := .startField }
    else r.addChar c
  | .inQuotedField =>
    if c = '"' then .ok { r with state := .quoteInQuotedField } else r.addChar c
  | .quoteInQuotedField =>
    if c = '"' then { r with state := .inQuotedField }.addChar c
    else if c = ',' then .ok { r.saveField with state := .startField }
    else if isNewline c then .ok { r.saveField with state := .eatCrnl }
    else { r with state := .inField }.addChar c
  | .eatCrnl => if isNewline c then .ok r else .error .newlineInUnquotedField

/-- The end of a line. -/
def processEol (r : Reader) : Reader :=
  match r.state with
  | .startRecord => r
  | .startField | .inField | .quoteInQuotedField => { r.saveField with state := .startRecord }
  | .inQuotedField => r
  | .eatCrnl => { r with state := .startRecord }

/-- A file with a mark, `none`, at the end of each of its lines: after `\n`, after `\r` alone, and
after the last character. -/
def marked : List Char → List (Option Char)
  | [] => []
  | c :: cs =>
    if cs = [] ∨ c = '\n' ∨ (c = '\r' ∧ cs.head? ≠ some '\n') then some c :: none :: marked cs
    else some c :: marked cs

/-- The records of a file. The one that is open when the file ends counts if it has an open field;
it does not if nothing has been read of one. -/
def records (r : Reader) : List (Option Char) → Except CsvError (List (List String))
  | [] =>
    if r.field ≠ [] ∨ r.state = .inQuotedField then .ok [r.saveField.fields] else .ok []
  | some c :: cs => do
    let r ← processChar r c
    records r cs
  | none :: cs =>
    let r := processEol r
    if r.state = .startRecord then do
      let rest ← records {} cs
      .ok (r.fields :: rest)
    else records r cs

/-- A row of a `DictReader`: its entries in the order in which they are set, and the fields beyond
the last name. -/
structure DictRow where
  entries : List (String × Option String)
  restKey : List String

/-- `row[key]`, which the last entry of the key decides -/
def DictRow.get (row : DictRow) (key : String) : Option (Option String) :=
  row.entries.reverse.lookup key

/-- Each name has the field at its place, `None` where the record has none. -/
def dictRow (fieldnames record : List String) : DictRow where
  entries := fieldnames.zipIdx.map fun (key, i) => (key, record[i]?)
  restKey := record.drop fieldnames.length

/-- `list(csv.DictReader(f))`: the first record has the names, blank records are passed over. -/
def dictReader (file : String) : Except CsvError (List DictRow) := do
  match ← records {} (marked file.toList) with
  | [] => .ok []
  | fieldnames :: rows => .ok ((rows.filter (· ≠ [])).map (dictRow fieldnames))

theorem plain_append {s s' : String} (h : Plain s) (h' : Plain s') : Plain (s ++ s') := by
  intro c hc
  rw [String.toList_append, List.mem_append] at hc
  exact hc.elim (h c) (h' c)

/-! ## Reading bare texts -/

theorem isNewline_eq_false {c : Char} : isNewline c = false ↔ c ≠ '\n' ∧ c ≠ '\r' := by
  simp [isNewline]

theorem marked_cons {c : Char} {cs : List Char} (hc : isNewline c = false) (hcs : cs ≠ []) :
    marked (c :: cs) = some c :: marked cs := by
  obtain ⟨hn, hr⟩ := isNewline_eq_false.1 hc
  rw [marked, if_neg]
  rintro (h | h | h)
  · exact hcs h
  · exact hn h
  · exact hr h.1

theorem marked_newline (cs : List Char) : marked ('\n' :: cs) = some '\n' :: none :: marked cs := by
  rw [marked, if_pos (Or.inr (Or.inl rfl))]

theorem records_some {r s : Reader} {c : Char} (h : processChar r c = .ok s)
    (cs : List (Option Char)) : records r (some c :: cs) = records s cs := by
  rw [records, h]
  rfl

/-- A reader in an open field. -/
def inField (fields : List String) (w : List Char) : Reader :=
  { state := .inField, field := w, fields := fields }

/-- Plain characters are added to the open field. -/
theorem records_append {fields : List String} {w cs rest : List Char}
    (hplain : ∀ c ∈ cs, c ≠ ',' ∧ c ≠ '\n' ∧ c ≠ '\r')
    (hlimit : w.length + cs.length ≤ fieldLimit) (hrest : rest ≠ []) :
    records (inField fields w) (marked (cs ++ rest))
      = records (inField fields (w ++ cs)) (marked rest) := by
  induction cs generalizing w with
  | nil => rw [List.nil_append, List.append_nil]
  | cons c cs ih =>
    obtain ⟨hcomma, hnewline⟩ := hplain c List.mem_cons_self
    have hc : isNewline c = false := isNewline_eq_false.2 hnewline
    rw [List.length_cons] at hlimit
    have hstep : processChar (inField fields w) c = .ok (inField fields (w ++ [c])) := by
      simp only [processChar, inField, hc, Bool.false_eq_true, if_false, if_neg hcomma,
        Reader.addChar]
      exact if_neg (by omega)
    have hlimit' : (w ++ [c]).length + cs.length ≤ fieldLimit := by
      rw [List.length_append, List.length_singleton]
      omega
    rw [List.cons_append, marked_cons hc (by simp [hrest]), records_some hstep,
      ih (fun d hd => hplain d (List.mem_cons_of_mem c hd)) hlimit', List.append_assoc,
      List.singleton_append]

/-- A reader at the beginning of a field. -/
def atField (fields : List String) : Reader := { state := .startField, fields := fields }

/-- A bare text is the field up to the next separator. -/
theorem records_bare {fields : List String} {cell : String} (h : Bare cell) {rest : List Char}
    (hrest : rest ≠ []) :
    records (atField fields) (marked (cell.toList ++ rest)) =
      if cell.toList = [] then records (atField fields) (marked rest)
      else records (inField fields cell.toList) (marked rest) := by
  obtain ⟨hplain, hquote, hlimit⟩ := h
  unfold Plain at hplain
  cases hcell : cell.toList with
  | nil => rw [if_pos rfl, List.nil_append]
  | cons c cs =>
    rw [hcell] at hplain hquote hlimit
    obtain ⟨hcomma, hnewline⟩ := hplain c List.mem_cons_self
    have hc : isNewline c = false := isNewline_eq_false.2 hnewline
    have hstep : processChar (atField fields) c
        = .ok (inField fields [c]) := by
      have hnotquote : c ≠ '"' := fun h => hquote (h ▸ rfl)
      simp only [processChar, atField, startField, hc, Bool.false_eq_true, if_false,
        if_neg hcomma, if_neg hnotquote, Reader.addChar]
      exact if_neg (by simp [fieldLimit])
    rw [if_neg (List.cons_ne_nil c cs), List.cons_append, marked_cons hc (by simp [hrest]),
      records_some hstep, records_append (fun d hd => hplain d (List.mem_cons_of_mem c hd)) _ hrest]
    · rfl
    · simp only [List.length_cons, List.length_nil] at hlimit ⊢
      omega

theorem records_bare_comma {fields : List String} {cell : String} (h : Bare cell)
    {rest : List Char} (hrest : rest ≠ []) :
    records (atField fields) (marked (cell.toList ++ ',' :: rest))
      = records (atField (fields ++ [cell])) (marked rest) := by
  rw [records_bare h (List.cons_ne_nil _ _), marked_cons (by decide) hrest]
  split
  next hempty =>
    refine records_some ?_ _
    rw [← String.ofList_toList (s := cell), hempty]
    rfl
  next =>
    refine records_some ?_ _
    show Except.ok (atField (fields ++ [String.ofList cell.toList])) = _
    rw [String.ofList_toList]

theorem records_bare_newline {fields : List String} {cell : String} (h : Bare cell)
    (rest : List Char) :
    records (atField fields) (marked (cell.toList ++ '\n' :: rest))
      = records {} (marked rest) >>= fun rs => .ok ((fields ++ [cell]) :: rs) := by
  rw [records_bare h (List.cons_ne_nil _ _), marked_newline]
  split
  next hempty =>
    rw [records_some (s := { state := .eatCrnl, fields := fields ++ [cell] }) ?_]
    · rfl
    · rw [← String.ofList_toList (s := cell), hempty]
      rfl
  next =>
    rw [records_some (s := { state := .eatCrnl, fields := fields ++ [cell] }) ?_]
    · rfl
    · show Except.ok (⟨.eatCrnl, [], fields ++ [String.ofList cell.toList]⟩ : Reader) = _
      rw [String.ofList_toList]

/-- A line of texts with commas between them, and what follows it. -/
def textLine (cells : List String) (last : String) (rest : List Char) : List Char :=
  cells.flatMap (fun cell => cell.toList ++ [',']) ++ (last.toList ++ '\n' :: rest)

theorem textLine_cons (cell : String) (cells : List String) (last : String) (rest : List Char) :
    textLine (cell :: cells) last rest = cell.toList ++ ',' :: textLine cells last rest := by
  simp [textLine]

theorem toList_intercalate (cells : List String) (last : String) (rest : List Char) :
    (",".intercalate (cells ++ [last])).toList ++ '\n' :: rest = textLine cells last rest := by
  induction cells with
  | nil => simp [textLine]
  | cons cell cells ih =>
    rw [textLine_cons, ← ih, List.cons_append, String.intercalate_cons_of_ne_nil (by simp)]
    simp [String.toList_append]

/-- A line of bare texts is a record. -/
theorem records_atField_textLine {fields cells : List String} {last : String}
    (hcells : ∀ cell ∈ cells, Bare cell) (hlast : Bare last) (rest : List Char) :
    records (atField fields) (marked (textLine cells last rest))
      = records {} (marked rest) >>= fun rs => .ok ((fields ++ cells ++ [last]) :: rs) := by
  induction cells generalizing fields with
  | nil =>
    rw [textLine, List.flatMap_nil, List.nil_append, records_bare_newline hlast, List.append_nil]
  | cons cell cells ih =>
    rw [textLine_cons, records_bare_comma (hcells cell List.mem_cons_self) (by simp [textLine]),
      ih fun d hd => hcells d (List.mem_cons_of_mem cell hd)]
    simp

/-- A record that does not begin with an empty line begins with a field. -/
theorem records_start {c : Char} (hc : isNewline c = false) (cs : List Char) :
    records {} (marked (c :: cs)) = records (atField []) (marked (c :: cs)) := by
  have hstep : processChar {} c = processChar (atField []) c := by
    simp only [processChar, atField, hc, Bool.false_eq_true, if_false, startField]
    rfl
  rw [marked]
  split <;>
    · rw [records, records, hstep]

/-- The same, for a line whose first text is bare. -/
theorem records_textLine_eq_atField {cell : String} (h : Bare cell) (cells : List String)
    (last : String) (rest : List Char) :
    records {} (marked (textLine (cell :: cells) last rest))
      = records (atField []) (marked (textLine (cell :: cells) last rest)) := by
  obtain ⟨hplain, -, -⟩ := h
  unfold Plain at hplain
  rw [textLine_cons]
  cases hcell : cell.toList with
  | nil => exact records_start (by decide) _
  | cons c cs => exact records_start (isNewline_eq_false.2 (hplain c (by simp [hcell])).2) _

theorem records_textLine {cells : List String} {last : String} (hne : cells ≠ [])
    (hcells : ∀ cell ∈ cells, Bare cell) (hlast : Bare last) (rest : List Char) :
    records {} (marked (textLine cells last rest))
      = records {} (marked rest) >>= fun rs => .ok ((cells ++ [last]) :: rs) := by
  obtain ⟨cell, cells, rfl⟩ := List.exists_cons_of_ne_nil hne
  rw [records_textLine_eq_atField (hcells cell List.mem_cons_self),
    records_atField_textLine hcells hlast, List.nil_append]

/-! ## What is read back was bare -/

/-- What the reader has taken of the characters `c` for a field falls behind them: some are
missing, but no comma. -/
def Behind (w c : List Char) : Prop := w.length < c.length ∧ w.count ',' = c.count ','

/-- The characters of a field, as they stand in the file or behind them. -/
def Taken (w c : List Char) : Prop := (w = c ∧ Bare (String.ofList c)) ∨ Behind w c

theorem Behind.add {w c : List Char} (h : Behind w c) (x : Char) :
    Behind (w ++ [x]) (c ++ [x]) := by
  refine ⟨by simpa using h.1, ?_⟩
  rw [List.count_append, List.count_append, h.2]

theorem Taken.skip {w c : List Char} (h : Taken w c) {x : Char} (hx : x ≠ ',') :
    Behind w (c ++ [x]) := by
  have hcount : (c ++ [x]).count ',' = c.count ',' := by
    rw [List.count_append, List.count_singleton, if_neg (by simpa using hx), Nat.add_zero]
  rw [Behind, hcount, List.length_append, List.length_singleton]
  rcases h with ⟨rfl, -⟩ | ⟨hlength, hcount⟩
  · exact ⟨Nat.lt_succ_self _, rfl⟩
  · exact ⟨by omega, hcount⟩

/-- A field that stands as it is goes on with a plain character, which is no quote in front. -/
theorem Taken.add {w c : List Char} (h : Taken w c) {x : Char}
    (hx : x ≠ ',' ∧ x ≠ '\n' ∧ x ≠ '\r') (hquote : c = [] → x ≠ '"')
    (hlimit : w.length < fieldLimit) : Taken (w ++ [x]) (c ++ [x]) := by
  rcases h with ⟨rfl, hplain, hhead, -⟩ | hbehind
  · refine Or.inl ⟨rfl, ?_, ?_, ?_⟩
    · intro d hd
      rw [String.toList_ofList, List.mem_append, List.mem_singleton] at hd
      rcases hd with hd | rfl
      · exact hplain d (by rwa [String.toList_ofList])
      · exact hx
    · rw [String.toList_ofList] at hhead ⊢
      cases w with
      | nil => simpa using hquote rfl
      | cons d w => exact hhead
    · rw [String.toList_ofList, List.length_append, List.length_singleton]
      exact hlimit
  · exact Or.inr (hbehind.add x)

/-- A text that was read back was bare: behind the characters of the file there is no text that
ends before the next comma. -/
theorem Taken.bare {cell : String} {c rest : List Char} (h : Taken cell.toList c)
    (hc : c <+: cell.toList ++ ',' :: rest) : Bare cell := by
  rcases h with ⟨heq, hbare⟩ | ⟨hlength, hcount⟩
  · rwa [← heq, String.ofList_toList] at hbare
  · have hpre : cell.toList ++ [','] <+: c := by
      refine List.prefix_of_prefix_length_le ⟨rest, by simp⟩ hc ?_
      rw [List.length_append, List.length_singleton]
      exact hlength
    have hle := hpre.sublist.count_le ','
    rw [List.count_append, List.count_singleton_self, ← hcount] at hle
    omega

/-- A reader in the middle of a field, which has come past the characters `c` since the fields
before it. -/
structure Reads (fields : List String) (c : List Char) (r : Reader) : Prop where
  fields_eq : r.fields = fields
  taken : Taken r.field c
  shape : match r.state with
    | .startRecord | .eatCrnl => fields = [] ∧ r.field = []
    | .startField => r.field = []
    | .inField => c ≠ []
    | .inQuotedField | .quoteInQuotedField => Behind r.field c

theorem taken_nil : Taken [] [] :=
  Or.inl ⟨rfl, by simp [Plain], by simp, by simp⟩

theorem reads_atField (fields : List String) : Reads fields [] (atField fields) :=
  ⟨rfl, taken_nil, rfl⟩

theorem addChar_eq_ok {r r' : Reader} {x : Char} :
    r.addChar x = .ok r' ↔ r.field.length < fieldLimit ∧
    { r with field := r.field ++ [x] } = r' := by
  unfold Reader.addChar
  split <;> simp <;> omega

/-- The field is saved, as the reader has taken it. -/
def Saves (fields : List String) (c : List Char) (r : Reader) : Prop :=
  ∃ w, Taken w c ∧ r.fields = fields ++ [String.ofList w]

theorem Reads.saves {fields : List String} {c : List Char} {r : Reader} (h : Reads fields c r)
    (state : ReaderState) : Saves fields c { r.saveField with state := state } :=
  ⟨r.field, h.taken, by rw [← h.fields_eq]; rfl⟩

theorem Reads.startField {fields : List String} {c : List Char} {r r' : Reader}
    (h : Reads fields c r) {x : Char} (hstep : startField r x = .ok r') :
    Reads fields (c ++ [x]) r' ∨ Saves fields c r' := by
  unfold Csv.startField at hstep
  split_ifs at hstep with hnewline hquote hcomma
  · rw [Except.ok.injEq] at hstep
    exact Or.inr (hstep ▸ h.saves _)
  · rw [Except.ok.injEq] at hstep
    have hbehind := h.taken.skip (x := x) (by rw [hquote]; decide)
    exact Or.inl (hstep ▸ ⟨h.fields_eq, Or.inr hbehind, hbehind⟩)
  · rw [Except.ok.injEq] at hstep
    exact Or.inr (hstep ▸ h.saves _)
  · obtain ⟨hlimit, rfl⟩ := addChar_eq_ok.1 hstep
    have hplain := isNewline_eq_false.1 (by simpa using hnewline)
    have hadd := h.taken.add ⟨hcomma, hplain⟩ (fun _ => hquote) hlimit
    exact Or.inl ⟨h.fields_eq, hadd, List.append_ne_nil_of_right_ne_nil c (by simp)⟩

/-- An empty line before the first field is passed over. -/
theorem Reads.eatCrnl {fields : List String} {c : List Char} {r : Reader} (h : Reads fields c r)
    (hempty : fields = [] ∧ r.field = []) {x : Char} (hx : isNewline x = true) :
    Reads fields (c ++ [x]) { r with state := .eatCrnl } := by
  have hcomma : x ≠ ',' := by
    rintro rfl
    exact absurd hx (by decide)
  exact ⟨h.fields_eq, Or.inr (h.taken.skip hcomma), hempty⟩

/-- A character goes to the field, or is left out of it and is no comma, or ends it. -/
theorem Reads.processChar {fields : List String} {c : List Char} {r r' : Reader}
    (h : Reads fields c r) {x : Char} (hstep : processChar r x = .ok r') :
    Reads fields (c ++ [x]) r' ∨ Saves fields c r' := by
  have hshape := h.shape
  unfold Csv.processChar at hstep
  cases hstate : r.state <;> simp only [hstate] at hstep hshape
  case startRecord =>
    split_ifs at hstep with hnewline
    · rw [Except.ok.injEq] at hstep
      exact Or.inl (hstep ▸ h.eatCrnl hshape hnewline)
    · exact h.startField hstep
  case startField => exact h.startField hstep
  case inField =>
    split_ifs at hstep with hnewline hcomma
    · rw [Except.ok.injEq] at hstep
      exact Or.inr (hstep ▸ h.saves _)
    · rw [Except.ok.injEq] at hstep
      exact Or.inr (hstep ▸ h.saves _)
    · obtain ⟨hlimit, rfl⟩ := addChar_eq_ok.1 hstep
      have hplain := isNewline_eq_false.1 (by simpa using hnewline)
      have hadd := h.taken.add ⟨hcomma, hplain⟩ (fun hc => absurd hc hshape) hlimit
      refine Or.inl ⟨h.fields_eq, hadd, ?_⟩
      simp only [hstate]
      exact List.append_ne_nil_of_right_ne_nil c (by simp)
  case inQuotedField =>
    split_ifs at hstep with hquote
    · rw [Except.ok.injEq] at hstep
      have hbehind := h.taken.skip (x := x) (by rw [hquote]; decide)
      exact Or.inl (hstep ▸ ⟨h.fields_eq, Or.inr hbehind, hbehind⟩)
    · obtain ⟨-, rfl⟩ := addChar_eq_ok.1 hstep
      have hbehind := hshape.add x
      refine Or.inl ⟨h.fields_eq, Or.inr hbehind, ?_⟩
      simpa only [hstate] using hbehind
  case quoteInQuotedField =>
    split_ifs at hstep with hquote hcomma hnewline
    · obtain ⟨-, rfl⟩ := addChar_eq_ok.1 hstep
      have hbehind := hshape.add x
      exact Or.inl ⟨h.fields_eq, Or.inr hbehind, hbehind⟩
    · rw [Except.ok.injEq] at hstep
      exact Or.inr (hstep ▸ h.saves _)
    · rw [Except.ok.injEq] at hstep
      exact Or.inr (hstep ▸ h.saves _)
    · obtain ⟨-, rfl⟩ := addChar_eq_ok.1 hstep
      have hbehind := hshape.add x
      exact Or.inl ⟨h.fields_eq, Or.inr hbehind, List.append_ne_nil_of_right_ne_nil c (by simp)⟩
  case eatCrnl =>
    split_ifs at hstep with hnewline
    rw [Except.ok.injEq] at hstep
    have hreads := h.eatCrnl hshape hnewline
    rw [← hstate, hstep] at hreads
    exact Or.inl hreads

theorem Reads.processEol {fields : List String} {c : List Char} {r : Reader}
    (h : Reads fields c r) :
    Reads fields c (processEol r) ∨ Saves fields c (processEol r) := by
  have hshape := h.shape
  unfold Csv.processEol
  cases hstate : r.state <;> simp only [hstate] at hshape ⊢
  case startRecord => exact Or.inl h
  case startField => exact Or.inr (h.saves _)
  case inField => exact Or.inr (h.saves _)
  case inQuotedField => exact Or.inl h
  case quoteInQuotedField => exact Or.inr (h.saves _)
  case eatCrnl => exact Or.inl ⟨h.fields_eq, h.taken, hshape⟩

/-! ## Records -/

theorem saveField_fields (r : Reader) : r.fields <+: r.saveField.fields :=
  List.prefix_append r.fields _

theorem addChar_fields {fields : List String} {r r' : Reader} {x : Char}
    (h : r.addChar x = .ok r') (hfields : fields <+: r.fields) : fields <+: r'.fields := by
  obtain ⟨-, rfl⟩ := addChar_eq_ok.1 h
  exact hfields

theorem startField_fields {r r' : Reader} {x : Char} (h : startField r x = .ok r') :
    r.fields <+: r'.fields := by
  unfold startField at h
  split_ifs at h
  · exact Except.ok.inj h ▸ saveField_fields r
  · exact Except.ok.inj h ▸ List.prefix_refl _
  · exact Except.ok.inj h ▸ saveField_fields r
  · exact addChar_fields h (List.prefix_refl _)

/-- A field that is saved stays. -/
theorem processChar_fields {r r' : Reader} {x : Char} (h : processChar r x = .ok r') :
    r.fields <+: r'.fields := by
  unfold processChar at h
  cases hstate : r.state <;> simp only [hstate] at h
  case startRecord =>
    split_ifs at h
    · exact Except.ok.inj h ▸ List.prefix_refl _
    · exact startField_fields h
  case startField => exact startField_fields h
  case inField =>
    split_ifs at h
    · exact Except.ok.inj h ▸ saveField_fields r
    · exact Except.ok.inj h ▸ saveField_fields r
    · exact addChar_fields h (List.prefix_refl _)
  case inQuotedField =>
    split_ifs at h
    · exact Except.ok.inj h ▸ List.prefix_refl _
    · exact addChar_fields h (List.prefix_refl _)
  case quoteInQuotedField =>
    split_ifs at h
    · exact addChar_fields h (List.prefix_refl _)
    · exact Except.ok.inj h ▸ saveField_fields r
    · exact Except.ok.inj h ▸ saveField_fields r
    · exact addChar_fields h (List.prefix_refl _)
  case eatCrnl =>
    split_ifs at h
    exact Except.ok.inj h ▸ List.prefix_refl _

theorem processEol_fields (r : Reader) : r.fields <+: (processEol r).fields := by
  unfold processEol
  cases hstate : r.state
  case startField => exact saveField_fields r
  case inField => exact saveField_fields r
  case quoteInQuotedField => exact saveField_fields r
  all_goals exact List.prefix_refl _

/-- The record that is open goes on with the fields that are saved. -/
theorem prefix_of_records {r : Reader} {cs : List (Option Char)} {rows : List (List String)}
    (h : records r cs = .ok rows) {row : List String} (hrow : row ∈ rows.head?) :
    r.fields <+: row := by
  induction cs generalizing r with
  | nil =>
    rw [records] at h
    split_ifs at h <;> rw [Except.ok.injEq] at h
    · rw [← h, List.head?_cons, Option.mem_some_iff] at hrow
      exact hrow ▸ saveField_fields r
    · simp [← h] at hrow
  | cons item cs ih =>
    cases item with
    | some x =>
      rw [records] at h
      cases hstep : processChar r x with
      | error e => simp [hstep, bind, Except.bind] at h
      | ok r' =>
        rw [hstep] at h
        exact (processChar_fields hstep).trans (ih h)
    | none =>
      rw [records] at h
      split_ifs at h with hstate
      · cases hrest : records {} cs with
        | error e => simp [hrest, bind, Except.bind] at h
        | ok rest =>
          rw [hrest] at h
          obtain rfl : (processEol r).fields :: rest = rows := Except.ok.inj h
          rw [List.head?_cons, Option.mem_some_iff] at hrow
          exact hrow ▸ processEol_fields r
      · exact (processEol_fields r).trans (ih h)

/-- A field that is saved stands at its place in the first record that is not blank. -/
theorem Saves.prefix_row {fields : List String} {c : List Char} {r : Reader} (h : Saves fields c r)
    {rows : List (List String)} (hfirst : ∀ first ∈ rows.head?, r.fields <+: first)
    {row : List String} (hrow : row ∈ (rows.filter (· ≠ [])).head?) :
    ∃ w, Taken w c ∧ fields ++ [String.ofList w] <+: row := by
  obtain ⟨w, htaken, hfields⟩ := h
  rw [hfields] at hfirst
  refine ⟨w, htaken, ?_⟩
  cases rows with
  | nil => simp at hrow
  | cons first rows =>
    have hpre := hfirst first rfl
    have hblank : first ≠ [] := by
      rintro rfl
      simp at hpre
    rw [List.filter_cons_of_pos (by simpa using hblank), List.head?_cons,
      Option.mem_some_iff] at hrow
    exact hrow ▸ hpre

/-- **The field that is open.** The first record that is not blank has as its next field what the
reader takes of some of the characters that come. -/
theorem Reads.first_row {fields : List String} {c : List Char} {r : Reader}
    {cs : List (Option Char)} {rows : List (List String)} (h : Reads fields c r)
    (hrun : records r cs = .ok rows) {row : List String}
    (hrow : row ∈ (rows.filter (· ≠ [])).head?) :
    ∃ w c', Taken w c' ∧ c' <+: c ++ cs.reduceOption ∧ fields ++ [String.ofList w] <+: row := by
  induction cs generalizing r c rows with
  | nil =>
    rw [records] at hrun
    split_ifs at hrun <;> obtain rfl := Except.ok.inj hrun
    · obtain ⟨w, htaken, hpre⟩ := (h.saves r.state).prefix_row (by simp) hrow
      exact ⟨w, c, htaken, by simp, hpre⟩
    · simp at hrow
  | cons item cs ih =>
    cases item with
    | some x =>
      rw [records] at hrun
      rw [List.reduceOption_cons_of_some]
      cases hstep : Csv.processChar r x with
      | error e => simp [hstep, bind, Except.bind] at hrun
      | ok r' =>
        rw [hstep] at hrun
        rcases h.processChar hstep with hreads | hsaves
        · obtain ⟨w, c', htaken, hc', hpre⟩ := ih hreads hrun hrow
          exact ⟨w, c', htaken, by simpa using hc', hpre⟩
        · obtain ⟨w, htaken, hpre⟩ := hsaves.prefix_row (fun _ => prefix_of_records hrun) hrow
          exact ⟨w, c, htaken, List.prefix_append _ _, hpre⟩
    | none =>
      rw [records] at hrun
      rw [List.reduceOption_cons_of_none]
      split_ifs at hrun with hstate
      · cases hrest : records {} cs with
        | error e => simp [hrest, bind, Except.bind] at hrun
        | ok rest =>
          rw [hrest] at hrun
          obtain rfl : (Csv.processEol r).fields :: rest = rows := Except.ok.inj hrun
          rcases h.processEol with hreads | hsaves
          · -- a blank record, before the first field
            have hshape := hreads.shape
            rw [hstate] at hshape
            obtain ⟨rfl, hfield⟩ := hshape
            have htaken := hreads.taken
            rw [hfield] at htaken
            rw [hreads.fields_eq, List.filter_cons_of_neg (by simp)] at hrow
            exact ih (r := {}) ⟨rfl, htaken, rfl, rfl⟩ hrest hrow
          · obtain ⟨w, htaken, hpre⟩ := hsaves.prefix_row (by simp) hrow
            exact ⟨w, c, htaken, List.prefix_append _ _, hpre⟩
      · rcases h.processEol with hreads | hsaves
        · exact ih hreads hrun hrow
        · obtain ⟨w, htaken, hpre⟩ := hsaves.prefix_row (fun _ => prefix_of_records hrun) hrow
          exact ⟨w, c, htaken, List.prefix_append _ _, hpre⟩

theorem reduceOption_marked (cs : List Char) : (marked cs).reduceOption = cs := by
  induction cs with
  | nil => rfl
  | cons c cs ih =>
    rw [marked]
    split <;> simp [ih]

/-- A text that stands before a comma and is read back was bare. -/
theorem bare_of_reads {fields : List String} {r : Reader} (h : Reads fields [] r) {cell : String}
    {rest : List Char} {rows : List (List String)}
    (hrun : records r (marked (cell.toList ++ ',' :: rest)) = .ok rows) {row : List String}
    (hrow : row ∈ (rows.filter (· ≠ [])).head?) (hcell : row[fields.length]? = some cell) :
    Bare cell := by
  obtain ⟨w, c, htaken, hc, tail, rfl⟩ := h.first_row hrun hrow
  rw [reduceOption_marked, List.nil_append] at hc
  rw [List.append_assoc, List.getElem?_append_right (Nat.le_refl _), Nat.sub_self] at hcell
  obtain rfl : String.ofList w = cell := by simpa using hcell
  rw [String.toList_ofList] at hc
  refine Taken.bare (c := c) ?_ (by rwa [String.toList_ofList])
  rwa [String.toList_ofList]

/-- Texts that are read back, but for some that are known to be bare, are bare. -/
theorem forall_bare {fields cells : List String} {last : String} {rest : List Char}
    {rows : List (List String)}
    (hrun : records (atField fields) (marked (textLine cells last rest)) = .ok rows)
    {row : List String} (hrow : row ∈ (rows.filter (· ≠ [])).head?)
    (h : ∀ i cell, cells[i]? = some cell → Bare cell ∨ row[fields.length + i]? = some cell) :
    ∀ cell ∈ cells, Bare cell := by
  induction cells generalizing fields with
  | nil => simp
  | cons cell cells ih =>
    rw [textLine_cons] at hrun
    have hbare : Bare cell := by
      rcases h 0 cell rfl with hbare | hcell
      · exact hbare
      · exact bare_of_reads (reads_atField fields) hrun hrow hcell
    rw [records_bare_comma hbare (by simp [textLine])] at hrun
    intro d hd
    rcases List.mem_cons.1 hd with rfl | hd
    · exact hbare
    · refine ih hrun (fun i e he => ?_) d hd
      have hi := h (i + 1) e he
      rwa [List.length_append, List.length_singleton, Nat.add_assoc, Nat.add_comm 1 i]

/-- The same, for the first line. -/
theorem forall_bare_textLine {cells : List String} {last : String} {rest : List Char}
    {rows : List (List String)}
    (hrun : records {} (marked (textLine cells last rest)) = .ok rows)
    {row : List String} (hrow : row ∈ (rows.filter (· ≠ [])).head?)
    (h : ∀ (i : ℕ) cell, cells[i]? = some cell → Bare cell ∨ row[i]? = some cell) :
    ∀ cell ∈ cells, Bare cell := by
  cases cells with
  | nil => simp
  | cons cell cells =>
    have hbare : Bare cell := by
      rcases h 0 cell rfl with hbare | hcell
      · exact hbare
      · rw [textLine_cons] at hrun
        have hreads : Reads [] [] {} := ⟨rfl, taken_nil, rfl, rfl⟩
        exact bare_of_reads hreads hrun hrow hcell
    rw [records_textLine_eq_atField hbare] at hrun
    exact forall_bare hrun hrow fun i d hd => by simpa using h i d hd

/-! ## Rows of a `DictReader` -/

/-- Under a name of its own a row has the field at the place of the name. -/
theorem get_dictRow {fieldnames record : List String} (hnodup : fieldnames.Nodup) {i : ℕ}
    {key : String} (hkey : fieldnames[i]? = some key) :
    (dictRow fieldnames record).get key = some record[i]? := by
  have hkeys : ((dictRow fieldnames record).entries.reverse.map Prod.fst).Nodup := by
    have hentries : (dictRow fieldnames record).entries.map Prod.fst = fieldnames := by
      rw [dictRow, List.map_map]
      exact List.zipIdx_map_fst 0 fieldnames
    rw [List.map_reverse, hentries]
    exact List.nodup_reverse.2 hnodup
  have hmem : (key, record[i]?) ∈ (dictRow fieldnames record).entries.reverse :=
    List.mem_reverse.2 (List.mem_map.2 ⟨(key, i), List.mk_mem_zipIdx_iff_getElem?.2 hkey, rfl⟩)
  obtain ⟨before, after, hsplit⟩ := List.append_of_mem hmem
  rw [hsplit, List.map_append, List.map_cons] at hkeys
  refine List.lookup_eq_some_iff.2 ⟨before, after, hsplit, fun p hp => ?_⟩
  rw [bne_iff_ne]
  exact fun heq => (List.nodup_append.1 hkeys).2.2 p.1 (List.mem_map_of_mem hp) key
    List.mem_cons_self heq.symm

/-- A record with as many fields as there are names, read under all of them -/
theorem map_get_dictRow {fieldnames record : List String} (hnodup : fieldnames.Nodup)
    (hlength : fieldnames.length = record.length) :
    fieldnames.map (dictRow fieldnames record).get = record.map fun cell => some (some cell) := by
  refine List.ext_getElem? fun i => ?_
  rw [List.getElem?_map, List.getElem?_map]
  cases hkey : fieldnames[i]? with
  | none =>
    have hnone : record[i]? = none := by
      rw [List.getElem?_eq_none_iff] at hkey ⊢
      omega
    rw [hnone]
    rfl
  | some key =>
    have hi : i < record.length := by
      rw [← hlength]
      exact (List.getElem?_eq_some_iff.1 hkey).1
    rw [Option.map_some, get_dictRow hnodup hkey, List.getElem?_eq_getElem hi]
    rfl

/-- A line of names and a line of values are read as the rows of the second line. -/
theorem dictReader_lines {names cells : List String} {name last : String} (hne : names ≠ [])
    (hnames : ∀ key ∈ names, Bare key) (hname : Bare name) :
    dictReader ((",".intercalate (names ++ [name]) ++ "\n")
        ++ (",".intercalate (cells ++ [last]) ++ "\n"))
      = records {} (marked (textLine cells last [])) >>= fun rows =>
        .ok ((rows.filter (· ≠ [])).map (dictRow (names ++ [name]))) := by
  have hfile : ((",".intercalate (names ++ [name]) ++ "\n")
      ++ (",".intercalate (cells ++ [last]) ++ "\n")).toList
      = textLine names name (textLine cells last []) := by
    rw [← toList_intercalate, ← toList_intercalate]
    simp only [String.toList_append, List.append_assoc]
    rfl
  rw [dictReader, hfile, records_textLine hne hnames hname]
  cases records {} (marked (textLine cells last [])) <;> rfl

/-! ## Tables -/

/-- A line of texts -/
def line (cells : List String) : String := ",".intercalate cells ++ "\n"

/-- The texts can stand in one line, and do not look like a blank one. -/
def BareLine (cells : List String) : Prop := 1 < cells.length ∧ ∀ cell ∈ cells, Bare cell

/-- A line of bare texts is a record, whatever follows it. -/
theorem records_line {cells : List String} (h : BareLine cells) (rest : List Char) :
    records {} (marked ((line cells).toList ++ rest))
      = records {} (marked rest) >>= fun rs => .ok (cells :: rs) := by
  obtain ⟨hlength, hbare⟩ := h
  have hne : cells ≠ [] := by
    rintro rfl
    simp at hlength
  obtain ⟨init, last, rfl⟩ := (List.eq_nil_or_concat' cells).resolve_left hne
  have hinit : init ≠ [] := by
    rintro rfl
    simp at hlength
  have hline : (line (init ++ [last])).toList ++ rest = textLine init last rest := by
    rw [line, String.toList_append, List.append_assoc, ← toList_intercalate]
    rfl
  rw [hline, records_textLine hinit (fun cell hcell => hbare cell (by simp [hcell]))
    (hbare last (by simp))]

theorem records_lines {lines : List (List String)} (h : ∀ cells ∈ lines, BareLine cells) :
    records {} (marked (lines.flatMap fun cells => (line cells).toList)) = .ok lines := by
  induction lines with
  | nil => rfl
  | cons cells lines ih =>
    rw [List.flatMap_cons, records_line (h cells List.mem_cons_self),
      ih fun d hd => h d (List.mem_cons_of_mem cells hd)]
    rfl

/-- **A table of bare texts is read back**: a line of names, and lines of values. -/
theorem dictReader_table {names : List String} {lines : List (List String)} {file : String}
    (hfile : file.toList = (names :: lines).flatMap fun cells => (line cells).toList)
    (hnames : BareLine names) (hlines : ∀ cells ∈ lines, BareLine cells) :
    dictReader file = .ok (lines.map (dictRow names)) := by
  have hnonempty : lines.filter (· ≠ []) = lines := by
    refine List.filter_eq_self.2 fun cells hcells => ?_
    obtain ⟨hlength, -⟩ := hlines cells hcells
    rw [decide_eq_true_eq]
    rintro rfl
    simp at hlength
  rw [dictReader, hfile, records_lines fun cells hcells => ?_]
  · show Except.ok _ = Except.ok _
    rw [hnonempty]
  · rcases List.mem_cons.1 hcells with rfl | hcells
    · exact hnames
    · exact hlines cells hcells

/-- **A row is read back if and only if its texts are bare.** Here some of the columns are asked
for, and what stands under the others is bare. -/
theorem reads_row_iff {names cells : List String} {name last : String} {columns : List String}
    (hne : names ≠ []) (hlength : names.length = cells.length)
    (hnodup : (names ++ [name]).Nodup) (hnames : ∀ key ∈ names, Bare key) (hname : Bare name)
    (hlast : Bare last)
    (hother : ∀ p ∈ (names ++ [name]).zip (cells ++ [last]), p.1 ∉ columns → Bare p.2) :
    (∃ row, dictReader ((",".intercalate (names ++ [name]) ++ "\n")
          ++ (",".intercalate (cells ++ [last]) ++ "\n")) = .ok [row] ∧
        ∀ p ∈ (names ++ [name]).zip (cells ++ [last]), p.1 ∈ columns →
          row.get p.1 = some (some p.2)) ↔
      ∀ cell ∈ cells, Bare cell := by
  have hplace : ∀ {i : ℕ} {cell : String}, (cells ++ [last])[i]? = some cell →
      ∃ key, (names ++ [name])[i]? = some key ∧
      (key, cell) ∈ (names ++ [name]).zip (cells ++ [last])
        := by
    intro i cell hcell
    obtain ⟨hi, -⟩ := List.getElem?_eq_some_iff.1 hcell
    have hi' : i < (names ++ [name]).length := by simpa [hlength] using hi
    have hkey : (names ++ [name])[i]? = some (names ++ [name])[i] := List.getElem?_eq_getElem hi'
    exact ⟨_, hkey, List.mem_iff_getElem?.2 ⟨i, List.getElem?_zip_eq_some.2 ⟨hkey, hcell⟩⟩⟩
  rw [dictReader_lines hne hnames hname]
  constructor
  · rintro ⟨row, hread, hcolumns⟩
    cases hrun : records {} (marked (textLine cells last [])) with
    | error e => simp [hrun, bind, Except.bind] at hread
    | ok rows =>
      rw [hrun] at hread
      have hrows : (rows.filter (· ≠ [])).map (dictRow (names ++ [name])) = [row] :=
        Except.ok.inj hread
      obtain ⟨record, hrecord, rfl⟩ := List.map_eq_singleton_iff.1 hrows
      have hfirst : record ∈ (rows.filter (· ≠ [])).head? := by
        rw [hrecord]
        rfl
      refine forall_bare_textLine hrun hfirst fun i cell hcell => ?_
      have hcell' : (cells ++ [last])[i]? = some cell := by
        rw [List.getElem?_append_left (List.getElem?_eq_some_iff.1 hcell).1, hcell]
      obtain ⟨key, hkey, hmem⟩ := hplace hcell'
      by_cases hcolumn : key ∈ columns
      · have hget := hcolumns _ hmem hcolumn
        rw [get_dictRow hnodup hkey, Option.some.injEq] at hget
        exact Or.inr hget
      · exact Or.inl (hother _ hmem hcolumn)
  · intro hcells
    have hcells_ne : cells ≠ [] := by
      rintro rfl
      exact hne (List.length_eq_zero_iff.1 hlength)
    rw [records_textLine hcells_ne hcells hlast]
    refine ⟨dictRow (names ++ [name]) (cells ++ [last]), ?_, fun p hp _ => ?_⟩
    · show Except.ok _ = Except.ok _
      simp
    · obtain ⟨i, hi⟩ := List.mem_iff_getElem?.1 hp
      obtain ⟨hkey, hcell⟩ := List.getElem?_zip_eq_some.1 hi
      rw [get_dictRow hnodup hkey, hcell]

end Csv
