import Mathlib.Data.List.Basic
import Mathlib.Data.List.Nodup
import Mathlib.Data.List.Induction

/-!
# First occurrences of a key

Items of a list may carry a key.  `withEarlier` pairs each item with the items before it, and
`firsts` keeps the items whose key no earlier item carries.  The first occurrences have pairwise
distinct keys, and searching them for a key finds what searching the whole list finds.
-/

namespace FirstOccurrence

variable {α K : Type}

/-- Each item together with the items before it; `earlier` comes before them all. -/
def withEarlier : List α → List α → List (List α × α)
  | _, [] => []
  | earlier, item :: rest => (earlier, item) :: withEarlier (earlier ++ [item]) rest

@[simp] theorem withEarlier_nil (earlier : List α) : withEarlier earlier [] = [] := rfl

theorem withEarlier_append (earlier left right : List α) :
    withEarlier earlier (left ++ right) =
      withEarlier earlier left ++ withEarlier (earlier ++ left) right := by
  induction left generalizing earlier with
  | nil => simp
  | cons item left ih =>
    simp only [List.cons_append, withEarlier, ih, List.append_assoc, List.nil_append]

@[simp] theorem map_snd_withEarlier (earlier items : List α) :
    (withEarlier earlier items).map Prod.snd = items := by
  induction items generalizing earlier with
  | nil => rfl
  | cons item rest ih => simp only [withEarlier, List.map_cons, ih]

variable [DecidableEq K] (keyOf : α → Option K)

/-- The earliest item that carries the key. -/
def firstWith (items : List α) (key : K) : Option α :=
  items.find? fun item ↦ decide (keyOf item = some key)

/-- The item carries a key and no earlier item carries the same. -/
def isFirst (earlier : List α) (item : α) : Bool :=
  match keyOf item with
  | some key => (firstWith keyOf earlier key).isNone
  | none => false

/-- The items that are the first to carry their key. -/
def firsts (items : List α) : List α :=
  ((withEarlier [] items).filter fun pair ↦ isFirst keyOf pair.1 pair.2).map Prod.snd

theorem firsts_append_singleton (items : List α) (item : α) :
    firsts keyOf (items ++ [item]) =
      firsts keyOf items ++ if isFirst keyOf items item then [item] else [] := by
  rw [firsts, withEarlier_append, List.filter_append, List.map_append]
  cases h : isFirst keyOf items item <;> simp [firsts, withEarlier, h]

variable {keyOf}

theorem firstWith_eq_none {items : List α} {key : K} :
    firstWith keyOf items key = none ↔ ∀ item ∈ items, keyOf item ≠ some key := by
  simp [firstWith]

theorem firstWith_eq_some {items : List α} {key : K} {item : α}
    (h : firstWith keyOf items key = some item) : item ∈ items ∧ keyOf item = some key :=
  ⟨List.mem_of_find?_eq_some h, of_decide_eq_true
    (List.find?_some (p := fun item ↦ decide (keyOf item = some key)) h)⟩

theorem isFirst_eq_true {earlier : List α} {item : α} {key : K} (hkey : keyOf item = some key) :
    isFirst keyOf earlier item = true ↔ ∀ other ∈ earlier, keyOf other ≠ some key := by
  rw [isFirst, hkey, ← firstWith_eq_none, Option.isNone_iff_eq_none]

variable (keyOf)

/-- Searching the first occurrences is searching the whole list. -/
theorem firstWith_firsts (items : List α) (key : K) :
    firstWith keyOf (firsts keyOf items) key = firstWith keyOf items key := by
  induction items using List.reverseRecOn with
  | nil => rfl
  | append_singleton items item ih =>
    have hsplit (left right : List α) : firstWith keyOf (left ++ right) key =
        (firstWith keyOf left key).or (firstWith keyOf right key) := List.find?_append
    rw [firsts_append_singleton, hsplit, hsplit, ih]
    by_cases hkey : keyOf item = some key
    · -- A repeated key is dropped, but then the search has already succeeded.
      simp only [isFirst, hkey]
      cases hfound : firstWith keyOf items key <;> simp
    · have hmiss : firstWith keyOf [item] key = none := by simp [firstWith, hkey]
      cases isFirst keyOf items item with
      | true => rw [if_pos rfl]
      | false => rw [if_neg Bool.false_ne_true, hmiss]; rfl

theorem mem_of_mem_firsts {items : List α} {item : α} (h : item ∈ firsts keyOf items) :
    item ∈ items := by
  obtain ⟨pair, hpair, rfl⟩ := List.mem_map.mp h
  have hmem := List.mem_map_of_mem (f := Prod.snd) (List.mem_of_mem_filter hpair)
  rwa [map_snd_withEarlier] at hmem

theorem isSome_of_mem_firsts {items : List α} {item : α} (h : item ∈ firsts keyOf items) :
    (keyOf item).isSome := by
  obtain ⟨pair, hpair, rfl⟩ := List.mem_map.mp h
  have hfirst := (List.mem_filter.mp hpair).2
  cases hkey : keyOf pair.2 with
  | none => simp [isFirst, hkey] at hfirst
  | some key => rfl

theorem nodup_firsts (items : List α) : ((firsts keyOf items).filterMap keyOf).Nodup := by
  induction items using List.reverseRecOn with
  | nil => exact List.nodup_nil
  | append_singleton items item ih =>
    rw [firsts_append_singleton]
    cases hfirst : isFirst keyOf items item with
    | false => simpa using ih
    | true =>
      obtain ⟨key, hkey⟩ : ∃ key, keyOf item = some key := by
        cases hkey : keyOf item with
        | none => simp [isFirst, hkey] at hfirst
        | some key => exact ⟨key, rfl⟩
      rw [if_pos rfl, List.filterMap_append, List.filterMap_cons_some hkey, List.filterMap_nil]
      apply ih.append (List.nodup_singleton key)
      intro other hother hnew
      obtain ⟨item', hitem', hkey'⟩ := List.mem_filterMap.mp hother
      rw [List.mem_singleton.mp hnew] at hkey'
      exact (isFirst_eq_true hkey).mp hfirst item' (mem_of_mem_firsts keyOf hitem') hkey'

/-- The key of the item if an earlier item carries it as well. -/
def repeats (earlier : List α) (item : α) : Option K :=
  if isFirst keyOf earlier item then none else keyOf item

/-- The keys of the items that are not the first with their key. -/
def repeated (items : List α) : List K :=
  (withEarlier [] items).filterMap fun pair ↦ repeats keyOf pair.1 pair.2

/-- Every key belongs to a first item or to one that repeats it. -/
theorem repeated_append_firsts (items : List α) :
    (repeated keyOf items ++ (firsts keyOf items).filterMap keyOf).Perm
      (items.filterMap keyOf) := by
  induction items using List.reverseRecOn with
  | nil => exact .nil
  | append_singleton items item ih =>
    have hrepeated : repeated keyOf (items ++ [item]) =
        repeated keyOf items ++ (repeats keyOf items item).toList := by
      rw [repeated, withEarlier_append, List.filterMap_append]
      cases hrepeats : repeats keyOf items item <;> simp [repeated, withEarlier, hrepeats]
    rw [hrepeated, firsts_append_singleton, List.filterMap_append, List.filterMap_append, repeats]
    cases isFirst keyOf items item with
    | true =>
      rw [if_pos rfl, if_pos rfl, Option.toList_none, List.append_nil, ← List.append_assoc]
      exact ih.append_right _
    | false =>
      have hitem : (keyOf item).toList = [item].filterMap keyOf := by
        cases hkey : keyOf item <;> simp [hkey]
      rw [if_neg Bool.false_ne_true, if_neg Bool.false_ne_true, List.filterMap_nil,
        List.append_nil, hitem, List.append_assoc]
      refine (List.perm_append_comm.append_left _).trans ?_
      rw [← List.append_assoc]
      exact ih.append_right _

theorem mem_keys_firsts {items : List α} {key : K} :
    key ∈ (firsts keyOf items).filterMap keyOf ↔ key ∈ items.filterMap keyOf := by
  simp only [List.mem_filterMap]
  constructor
  · rintro ⟨item, hitem, hkey⟩
    exact ⟨item, mem_of_mem_firsts keyOf hitem, hkey⟩
  · rintro ⟨item, hitem, hkey⟩
    cases hfound : firstWith keyOf (firsts keyOf items) key with
    | some first =>
      obtain ⟨hfirst, hsame⟩ := firstWith_eq_some hfound
      exact ⟨first, hfirst, hsame⟩
    | none =>
      rw [firstWith_firsts] at hfound
      exact absurd hkey (firstWith_eq_none.mp hfound item hitem)

/-- Which keys come first somewhere, and how often keys are repeated, does not depend on the order
of the items. -/
theorem keys_firsts_perm {items items' : List α} (h : items.Perm items') :
    ((firsts keyOf items).filterMap keyOf).Perm ((firsts keyOf items').filterMap keyOf) := by
  refine (List.perm_ext_iff_of_nodup (nodup_firsts keyOf items) (nodup_firsts keyOf items')).mpr ?_
  intro key
  rw [mem_keys_firsts, mem_keys_firsts]
  exact (h.filterMap keyOf).mem_iff

theorem repeated_perm {items items' : List α} (h : items.Perm items') :
    (repeated keyOf items).Perm (repeated keyOf items') := by
  have hkeys := (repeated_append_firsts keyOf items).trans
    ((h.filterMap keyOf).trans (repeated_append_firsts keyOf items').symm)
  have hfirsts := (keys_firsts_perm keyOf h).append_left (repeated keyOf items)
  exact (List.perm_append_right_iff _).mp (hfirsts.symm.trans hkeys)

section Map

variable {β : Type} (f : β → α)

theorem withEarlier_map (earlier items : List β) :
    withEarlier (earlier.map f) (items.map f) =
      (withEarlier earlier items).map fun step ↦ (step.1.map f, f step.2) := by
  induction items generalizing earlier with
  | nil => rfl
  | cons item rest ih =>
    have hsnoc : earlier.map f ++ [f item] = (earlier ++ [item]).map f := by simp
    rw [List.map_cons, withEarlier, hsnoc, ih]
    rfl

theorem firstWith_map (items : List β) (key : K) :
    firstWith keyOf (items.map f) key =
      (firstWith (fun item ↦ keyOf (f item)) items key).map f :=
  List.find?_map

theorem isFirst_map (earlier : List β) (item : β) :
    isFirst keyOf (earlier.map f) (f item) = isFirst (fun item ↦ keyOf (f item)) earlier item := by
  simp only [isFirst, firstWith_map]
  cases keyOf (f item) <;> simp

theorem repeated_map (items : List β) :
    repeated keyOf (items.map f) = repeated (fun item ↦ keyOf (f item)) items := by
  have hsteps := withEarlier_map f [] items
  rw [List.map_nil] at hsteps
  rw [repeated, hsteps, List.filterMap_map]
  apply List.filterMap_congr
  intro step _
  rw [Function.comp_apply, repeats, repeats, isFirst_map]

theorem firsts_map (items : List β) :
    firsts keyOf (items.map f) = (firsts (fun item ↦ keyOf (f item)) items).map f := by
  have hsteps := withEarlier_map f [] items
  rw [List.map_nil] at hsteps
  rw [firsts, firsts, hsteps, List.filter_map, List.map_map, List.map_map]
  congr 1
  apply List.filter_congr
  intro step _
  exact isFirst_map keyOf f step.1 step.2

end Map

end FirstOccurrence
