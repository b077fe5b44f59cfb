import JustKV.Csv.Scan
import JustKV.Store.Lookup

/-!
# Writing quoted records

`toCsv` is the rendering of the tests: every field in quotes, its own quotes doubled.  Read back by
the grammar it gives the same fields, whatever bytes they contain.
-/

namespace JustKV

open Csv

/-- Every quote of a field is written twice. -/
def doubleQuotes (field : Bytes) : Bytes :=
  field.flatMap fun byte ↦ if byte = quote then [quote, quote] else [byte]

/-- The comma of the rendering. -/
def comma : UInt8 := 44

/-- One line of the rendering. -/
def toRow (pair : Bytes × Bytes) : Bytes :=
  [quote] ++ doubleQuotes pair.1 ++ [quote, comma, quote] ++ doubleQuotes pair.2 ++ [quote, lf]

/-- Render pairs so that commas, quotes and line ends survive. -/
def toCsv (pairs : Dataset) : Bytes := pairs.flatMap toRow

@[simp] theorem doubleQuotes_cons_quote (rest : Bytes) :
    doubleQuotes (quote :: rest) = quote :: quote :: doubleQuotes rest := rfl

theorem doubleQuotes_cons_of_ne {byte : UInt8} (h : byte ≠ quote) (rest : Bytes) :
    doubleQuotes (byte :: rest) = byte :: doubleQuotes rest := by
  rw [doubleQuotes, List.flatMap_cons, if_neg h]
  rfl

/-- Inside quotes a field with doubled quotes is read as the field itself. -/
theorem scan_doubleQuotes {delimiter : UInt8} (fields : List Bytes) (field text : Bytes)
    (began lfs : ℕ) :
    scan delimiter ⟨.inQuotedField, fields, field, began, lfs⟩ (doubleQuotes text) =
      (⟨.inQuotedField, fields, field ++ text, began, lfs + text.count lf⟩, []) := by
  induction text generalizing field lfs with
  | nil => simp [doubleQuotes]
  | cons byte rest ih =>
    by_cases hquote : byte = quote
    · subst hquote
      have hstep := ih (field ++ [quote]) lfs
      have hcount : (quote :: rest).count lf = rest.count lf := rfl
      rw [doubleQuotes_cons_quote, hcount]
      simpa [scan, State.step, State.consume, State.push, quote, lf] using hstep
    · have hstep : State.step delimiter ⟨.inQuotedField, fields, field, began, lfs⟩ byte =
          (⟨.inQuotedField, fields, field ++ [byte], began, if byte = lf then lfs + 1 else lfs⟩,
            none) := by
        simp [State.step, State.consume, State.push, hquote]
      rw [doubleQuotes_cons_of_ne hquote, scan, hstep]
      dsimp only
      rw [ih, List.append_assoc, List.singleton_append]
      by_cases hlf : byte = lf
      · simp [hlf, Nat.add_right_comm, Nat.add_assoc]
      · simp [hlf]

/-- A line of the rendering is read as one record, whatever line the read began on. -/
theorem scan_toRow (pair : Bytes × Bytes) (began lfs : ℕ) :
    scan comma ⟨.startRecord, [], [], began, lfs⟩ (toRow pair) =
      (⟨.startRecord, [], [], lfs + pair.1.count lf + pair.2.count lf + 2,
        lfs + pair.1.count lf + pair.2.count lf + 1⟩, [⟨[pair.1, pair.2], some began⟩]) := by
  have hopen : scan comma ⟨.startRecord, [], [], began, lfs⟩ [quote] =
      (⟨.inQuotedField, [], [], began, lfs⟩, []) := rfl
  have hbetween : scan comma ⟨.inQuotedField, [], pair.1, began, lfs + pair.1.count lf⟩
      [quote, comma, quote] =
        (⟨.inQuotedField, [pair.1], [], began, lfs + pair.1.count lf⟩, []) := rfl
  have hclose : scan comma
      ⟨.inQuotedField, [pair.1], pair.2, began, lfs + pair.1.count lf + pair.2.count lf⟩
        [quote, lf] =
      (⟨.startRecord, [], [], lfs + pair.1.count lf + pair.2.count lf + 2,
        lfs + pair.1.count lf + pair.2.count lf + 1⟩, [⟨[pair.1, pair.2], some began⟩]) := rfl
  have hkey := scan_append_of hopen (scan_doubleQuotes [] [] pair.1 began lfs)
  have hvalue := scan_append_of (scan_append_of hkey hbetween)
    (scan_doubleQuotes [pair.1] [] pair.2 began (lfs + pair.1.count lf))
  exact scan_append_of hvalue hclose

/-- The whole rendering is read as the pairs, and nothing is left open. -/
theorem scan_toCsv (pairs : Dataset) (began lfs : ℕ) :
    (scan comma ⟨.startRecord, [], [], began, lfs⟩ (toCsv pairs)).1.mode = .startRecord ∧
      (scan comma ⟨.startRecord, [], [], began, lfs⟩ (toCsv pairs)).2.map ByteRecord.fields =
        pairs.map fun pair ↦ [pair.1, pair.2] := by
  induction pairs generalizing began lfs with
  | nil => exact ⟨rfl, rfl⟩
  | cons pair rest ih =>
    have hsplit : toCsv (pair :: rest) = toRow pair ++ toCsv rest := rfl
    rw [hsplit, scan_append, scan_toRow]
    refine ⟨(ih _ _).1, ?_⟩
    rw [List.map_append, (ih _ _).2]
    rfl

/-- A rendering has no byte order mark at its start: it is empty or begins with a quote. -/
theorem dropBom_toCsv (pairs : Dataset) : dropBom (toCsv pairs) = toCsv pairs := by
  cases pairs <;> rfl

/-- The grammar reads the rendering of pairs as these pairs. -/
theorem fields_toCsv (pairs : Dataset) :
    (grammar ⟨comma, false⟩ (toCsv pairs)).records.map ByteRecord.fields =
      pairs.map fun pair ↦ [pair.1, pair.2] := by
  obtain ⟨hmode, hfields⟩ := scan_toCsv pairs 1 0
  calc
    _ = (readAll comma .start (toCsv pairs)).map ByteRecord.fields := by
      rw [grammar, dropBom_toCsv]
      rfl
    _ = (scan comma .start (toCsv pairs)).2.map ByteRecord.fields := by
      rw [readAll_eq_scan, State.atEnd, State.start, if_pos hmode, List.append_nil]
    _ = _ := hfields

end JustKV
