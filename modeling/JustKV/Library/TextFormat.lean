import Mathlib.Data.List.Basic

/-!
# The text format of expositions

An exposition is a text of lines.  A line announces a metric with a help text or a type, or it is a
sample: a name, a bound in the label `le` for the buckets of a histogram, and a value.  Reading
undoes writing for all lines whose parts do not contain what separates them.
-/

namespace TextFormat

inductive Item
  | help (name text : List Char)
  | type (name kind : List Char)
  | sample (name : List Char) (le : Option (List Char)) (value : List Char)
  deriving DecidableEq

/-- The line without its end. -/
def Item.write : Item → List Char
  | .help name text => '#' :: ' ' :: 'H' :: 'E' :: 'L' :: 'P' :: ' ' :: (name ++ ' ' :: text)
  | .type name kind => '#' :: ' ' :: 'T' :: 'Y' :: 'P' :: 'E' :: ' ' :: (name ++ ' ' :: kind)
  | .sample name none value => name ++ ' ' :: value
  | .sample name (some le) value =>
      name ++ '\x7b' :: 'l' :: 'e' :: '=' :: '\x22' :: (le ++ '\x22' :: '\x7d' :: ' ' :: value)

def writeAll (items : List Item) : List Char := items.flatMap fun item ↦ item.write ++ ['\n']

/-- The characters of metric names. -/
def isNameChar (char : Char) : Bool := char.isAlphanum || char == '_' || char == ':'

/-- The parts before and after the first separator. -/
def cut (separator : Char) : List Char → Option (List Char × List Char)
  | [] => none
  | char :: rest =>
    if char = separator then some ([], rest)
    else (cut separator rest).map fun parts ↦ (char :: parts.1, parts.2)

def readSample (line : List Char) : Option Item :=
  let name := line.takeWhile isNameChar
  match line.dropWhile isNameChar with
  | ' ' :: value => if name = [] then none else some (.sample name none value)
  | '\x7b' :: 'l' :: 'e' :: '=' :: '\x22' :: rest => do
    let (le, rest) ← cut '\x22' rest
    match rest with
    | '\x7d' :: ' ' :: value => if name = [] then none else some (.sample name (some le) value)
    | _ => none
  | _ => none

def readItem : List Char → Option Item
  | '#' :: ' ' :: 'H' :: 'E' :: 'L' :: 'P' :: ' ' :: rest =>
      (cut ' ' rest).map fun parts ↦ .help parts.1 parts.2
  | '#' :: ' ' :: 'T' :: 'Y' :: 'P' :: 'E' :: ' ' :: rest =>
      (cut ' ' rest).map fun parts ↦ .type parts.1 parts.2
  | line => readSample line

/-- The lines of a text; the last one need not be ended. -/
def lines : List Char → List (List Char)
  | [] => []
  | char :: rest =>
    if char = '\n' then [] :: lines rest
    else match lines rest with
      | [] => [[char]]
      | line :: others => (char :: line) :: others

def readAll (text : List Char) : Option (List Item) := (lines text).mapM readItem

/-- The parts of a line do not contain what separates them. -/
def Item.Wellformed : Item → Prop
  | .help name text => ' ' ∉ name ∧ '\n' ∉ name ∧ '\n' ∉ text
  | .type name kind => ' ' ∉ name ∧ '\n' ∉ name ∧ '\n' ∉ kind
  | .sample name le value => name ≠ [] ∧ (∀ char ∈ name, isNameChar char = true) ∧
      (∀ bound ∈ le, '\x22' ∉ bound ∧ '\n' ∉ bound) ∧ '\n' ∉ value

theorem cut_append {separator : Char} {left : List Char} (h : separator ∉ left)
    (right : List Char) : cut separator (left ++ separator :: right) = some (left, right) := by
  induction left with
  | nil => simp [cut]
  | cons char left ih =>
    rw [List.mem_cons, not_or] at h
    rw [List.cons_append, cut, if_neg (Ne.symm h.1), ih h.2]
    rfl

theorem lines_append {line : List Char} (h : '\n' ∉ line) (rest : List Char) :
    lines (line ++ '\n' :: rest) = line :: lines rest := by
  induction line with
  | nil => simp [lines]
  | cons char line ih =>
    rw [List.mem_cons, not_or] at h
    rw [List.cons_append, lines, if_neg (Ne.symm h.1), ih h.2]

/-- Lines that are ended one by one are the lines of the text. -/
theorem lines_flatMap {texts : List (List Char)} (h : ∀ text ∈ texts, '\n' ∉ text) :
    lines (texts.flatMap fun text ↦ text ++ ['\n']) = texts := by
  induction texts with
  | nil => rfl
  | cons text texts ih =>
    rw [List.flatMap_cons, List.append_assoc, List.singleton_append,
      lines_append (h text List.mem_cons_self),
      ih fun other hother ↦ h other (List.mem_cons_of_mem _ hother)]

/-- A name ends at the first character that no name has. -/
theorem span_name {name : List Char} (hname : ∀ char ∈ name, isNameChar char = true) (stop : Char)
    (hstop : isNameChar stop = false) (rest : List Char) :
    (name ++ stop :: rest).takeWhile isNameChar = name ∧
      (name ++ stop :: rest).dropWhile isNameChar = stop :: rest := by
  rw [List.takeWhile_append_of_pos hname, List.dropWhile_append_of_pos hname]
  simp [hstop]

/-- A line that begins with a name is read as a sample. -/
theorem readItem_of_name {line : List Char} {char : Char} (hchar : isNameChar char = true) :
    readItem (char :: line) = readSample (char :: line) := by
  have hmark : char ≠ '#' := by
    rintro rfl
    exact absurd hchar (by decide)
  unfold readItem
  split
  case h_1 heq => exact absurd (List.cons.inj heq).1 hmark
  case h_2 heq => exact absurd (List.cons.inj heq).1 hmark
  case h_3 => rfl

theorem readItem_write {item : Item} (h : item.Wellformed) : readItem item.write = some item := by
  cases item with
  | help name text =>
    rw [Item.write, readItem, cut_append h.1]
    rfl
  | type name kind =>
    rw [Item.write, readItem, cut_append h.1]
    rfl
  | sample name le value =>
    obtain ⟨hne, hname, hle, _⟩ := h
    obtain ⟨char, rest, rfl⟩ := List.exists_cons_of_ne_nil hne
    have hchar := hname char List.mem_cons_self
    cases le with
    | none =>
      obtain ⟨htake, hdrop⟩ := span_name hname ' ' rfl value
      rw [Item.write, List.cons_append, readItem_of_name hchar, ← List.cons_append, readSample,
        htake, hdrop]
      simp
    | some bound =>
      have hbound := (hle bound rfl).1
      obtain ⟨htake, hdrop⟩ := span_name hname '\x7b' rfl
        ('l' :: 'e' :: '=' :: '\x22' :: (bound ++ '\x22' :: '\x7d' :: ' ' :: value))
      rw [Item.write, List.cons_append, readItem_of_name hchar, ← List.cons_append, readSample,
        htake, hdrop]
      simp [cut_append hbound]

/-- A written line does not end before its end. -/
theorem newline_notMem_write {item : Item} (h : item.Wellformed) : '\n' ∉ item.write := by
  cases item with
  | help name text =>
    obtain ⟨_, hname, htext⟩ := h
    simp [Item.write, hname, htext]
  | type name kind =>
    obtain ⟨_, hname, hkind⟩ := h
    simp [Item.write, hname, hkind]
  | sample name le value =>
    obtain ⟨_, hname, hle, hvalue⟩ := h
    have hnewline : '\n' ∉ name := fun hmem ↦ absurd (hname _ hmem) (by decide)
    cases le with
    | none => simp [Item.write, hnewline, hvalue]
    | some bound => simp [Item.write, hnewline, hvalue, (hle bound rfl).2]

theorem mapM_readItem {items : List Item} (h : ∀ item ∈ items, item.Wellformed) :
    (items.map Item.write).mapM readItem = some items := by
  induction items with
  | nil => rfl
  | cons item items ih =>
    rw [List.map_cons, List.mapM_cons, readItem_write (h item List.mem_cons_self),
      ih fun other hother ↦ h other (List.mem_cons_of_mem _ hother)]
    rfl

/-- Reading a written text gives back its lines. -/
theorem readAll_writeAll {items : List Item} (h : ∀ item ∈ items, item.Wellformed) :
    readAll (writeAll items) = some items := by
  have htext : writeAll items = (items.map Item.write).flatMap fun line ↦ line ++ ['\n'] := by
    rw [List.flatMap_map]
    rfl
  have hlines : ∀ line ∈ items.map Item.write, '\n' ∉ line := by
    intro line hline
    obtain ⟨item, hitem, rfl⟩ := List.mem_map.mp hline
    exact newline_notMem_write (h item hitem)
  rw [readAll, htext, lines_flatMap hlines, mapM_readItem h]

/-- All lines of one metric. -/
structure Family where
  name : List Char
  help : List Char
  kind : List Char
  samples : List Item

/-- The metric is announced before its samples. -/
def Family.items (family : Family) : List Item :=
  .help family.name family.help :: .type family.name family.kind :: family.samples

/-- A counter or a gauge has one sample of its own name; a histogram has buckets of which the last
is unbounded, a sum and a count. -/
inductive Family.Valid : Family → Prop
  | single {name help kind value : List Char}
      (hkind : kind = "counter".toList ∨ kind = "gauge".toList) :
      Family.Valid ⟨name, help, kind, [.sample name none value]⟩
  | histogram {name help : List Char} (buckets : List (List Char × List Char))
      {total sum count : List Char} :
      Family.Valid ⟨name, help, "histogram".toList,
        (buckets.map fun bucket ↦ .sample (name ++ "_bucket".toList) (some bucket.1) bucket.2) ++
          [.sample (name ++ "_bucket".toList) (some "+Inf".toList) total,
            .sample (name ++ "_sum".toList) none sum, .sample (name ++ "_count".toList) none count]⟩

end TextFormat
