import JustKV.Library.Checked

/-!
# Hash tables that leave the hash and the equality test to their caller

The table holds elements, each under the hash it was inserted with.  A search calls the given
test on every element with the searched hash, possibly also on elements with another hash, in an
order of its own, and stops at the first success.  An insertion may move elements already
present, and then it asks the given hasher for their hashes again.  Which elements are tested,
in which order, and which elements move when, is left open in `Layout`: it may depend on the
whole history of the table, on the hash and on the test itself.
-/

namespace HashTable

open Checked

/-- The elements of a table in insertion order, each with the hash it is filed under. -/
abbrev Slots (T : Type) := List (UInt64 × T)

/-- The choices of one hash table implementation. -/
structure Layout (T : Type) where
  /-- The elements a search tests, in order, as long as the test keeps failing. -/
  probe : Slots T → UInt64 → (T → Run Bool) → List T
  /-- Whether an insertion moves the given element. -/
  moves : Slots T → UInt64 × T → Bool
  mem_of_mem_probe : ∀ {slots hash test element},
    element ∈ probe slots hash test → ∃ filed, (filed, element) ∈ slots
  mem_probe : ∀ {slots hash test element},
    (hash, element) ∈ slots → element ∈ probe slots hash test

/-- A table together with the implementation that runs it. -/
structure Table (T : Type) where
  layout : Layout T
  slots : Slots T

variable {T K : Type}

/-- `HashTable::new()`. -/
def Table.new (layout : Layout T) : Table T := ⟨layout, []⟩

/-- `table.find(hash, test)`. -/
def Table.find (table : Table T) (hash : UInt64) (test : T → Run Bool) : Run (Option T) :=
  (table.layout.probe table.slots hash test).findM? test

/-- `table.insert_unique(hash, element, hasher)`: moved elements are filed under the hash the
hasher answers now. -/
def Table.insertUnique (table : Table T) (hash : UInt64) (element : T) (hasher : T → Run UInt64) :
    Run (Table T) := do
  let slots ← table.slots.mapM fun slot ↦
    if table.layout.moves table.slots slot then do
      let rehashed ← hasher slot.2
      pure (rehashed, slot.2)
    else pure slot
  pure ⟨table.layout, slots ++ [(hash, element)]⟩

/-- `table.len()`. -/
def Table.len (table : Table T) : ℕ := table.slots.length

/-- Elements in insertion order. -/
def Table.elements (table : Table T) : List T := table.slots.map Prod.snd

@[simp] theorem length_elements (table : Table T) : table.elements.length = table.len := by
  simp [Table.elements, Table.len]

theorem mem_elements {table : Table T} {element : T} :
    element ∈ table.elements ↔ ∃ filed, (filed, element) ∈ table.slots := by
  simp [Table.elements]

/-- If the hasher confirms the filed hashes, an insertion only appends. -/
theorem insertUnique_eq_ok {table : Table T} {hash : UInt64} {element : T}
    {hasher : T → Run UInt64} (hhasher : ∀ slot ∈ table.slots, hasher slot.2 = .ok slot.1) :
    table.insertUnique hash element hasher =
      .ok ⟨table.layout, table.slots ++ [(hash, element)]⟩ := by
  have hmoved : (table.slots.mapM fun slot ↦
      if table.layout.moves table.slots slot then do
        let rehashed ← hasher slot.2
        pure (rehashed, slot.2)
      else pure slot) = (.ok table.slots : Run (Slots T)) := by
    apply mapM_eq_ok_self
    intro slot hslot
    by_cases hmoves : table.layout.moves table.slots slot
    · rw [if_pos hmoves, hhasher slot hslot]
      rfl
    · rw [if_neg hmoves]
      rfl
  rw [Table.insertUnique, hmoved]
  rfl

/-- A search whose test returns on every element returns; what it finds passes the test, and it
misses no element filed under the searched hash. -/
theorem find_spec {table : Table T} {test : T → Run Bool} {p : T → Bool}
    (htest : ∀ element ∈ table.elements, test element = .ok (p element)) (hash : UInt64) :
    ∃ found, table.find hash test = .ok found ∧
      (∀ element, found = some element → element ∈ table.elements ∧ p element) ∧
      (found = none → ∀ element, (hash, element) ∈ table.slots → p element = false) := by
  have hprobe : ∀ element ∈ table.layout.probe table.slots hash test, element ∈ table.elements :=
    fun element h ↦ mem_elements.mpr (table.layout.mem_of_mem_probe h)
  refine ⟨_, findM?_eq_ok fun element h ↦ htest element (hprobe element h), ?_, ?_⟩
  · intro element hfound
    exact ⟨hprobe element (List.mem_of_find?_eq_some hfound), List.find?_some hfound⟩
  · intro hnone element hslot
    simpa using List.find?_eq_none.mp hnone element (table.layout.mem_probe hslot)

/-- Every element is filed under the hash of its own key. -/
def Table.FiledBy (table : Table T) (hashOf : K → UInt64) (keyOf : T → K) : Prop :=
  ∀ slot ∈ table.slots, slot.1 = hashOf (keyOf slot.2)

variable [DecidableEq K]

/-- Searching a keyed table for a key finds an element with that key, and finds none only when
there is none.  Which of several such elements is found depends on the layout. -/
theorem find_key {table : Table T} {hashOf : K → UInt64} {keyOf : T → K} {test : T → Run Bool}
    {key : K} (hfiled : table.FiledBy hashOf keyOf)
    (htest : ∀ element ∈ table.elements, test element = .ok (decide (keyOf element = key))) :
    ∃ found, table.find (hashOf key) test = .ok found ∧
      (∀ element, found = some element → element ∈ table.elements ∧ keyOf element = key) ∧
      (found = none → ∀ element ∈ table.elements, keyOf element ≠ key) := by
  obtain ⟨found, hfind, hsome, hnone⟩ := find_spec htest (hashOf key)
  refine ⟨found, hfind, ?_, ?_⟩
  · intro element hfound
    obtain ⟨hmem, hkey⟩ := hsome element hfound
    exact ⟨hmem, of_decide_eq_true hkey⟩
  · intro hfound element hmem hkey
    obtain ⟨filed, hslot⟩ := mem_elements.mp hmem
    have hfiledKey : filed = hashOf key := by rw [← hkey]; exact hfiled _ hslot
    have hfalse := hnone hfound element (hfiledKey ▸ hslot)
    exact of_decide_eq_false hfalse hkey

/-- One chain for each hash, searched from its oldest element; every insertion moves everything. -/
def chained (T : Type) : Layout T where
  probe slots hash _ := (slots.filter fun slot ↦ slot.1 = hash).map Prod.snd
  moves _ _ := true
  mem_of_mem_probe {slots hash _ element} h := by
    obtain ⟨slot, hslot, rfl⟩ := List.mem_map.mp h
    exact ⟨slot.1, List.mem_of_mem_filter hslot⟩
  mem_probe {slots hash _ element} h := by
    apply List.mem_map.mpr
    exact ⟨(hash, element), List.mem_filter.mpr ⟨h, by simp⟩, rfl⟩

/-- The same chains searched from their newest element; nothing ever moves. -/
def stacked (T : Type) : Layout T where
  probe slots hash test := ((chained T).probe slots hash test).reverse
  moves _ _ := false
  mem_of_mem_probe h := (chained T).mem_of_mem_probe (List.mem_reverse.mp h)
  mem_probe h := List.mem_reverse.mpr ((chained T).mem_probe h)

instance : Inhabited (Layout T) := ⟨chained T⟩

end HashTable
