import Mathlib.Data.List.Basic
import Mathlib.Tactic.Ring

/-!
# Arithmetic and slicing that can stop the program

Slicing, indexing and plain integer arithmetic stop a program when they go out of range.  A
computation is a value of `Checked`: either its result or the `Fault` that stopped it.  The
machine word is a parameter, so that code computing in `usize` can be read at 32 and at 64 bits;
`checkedAdd` and `checkedMul` are the operations that report an overflow as an ordinary value
instead of stopping.
-/

namespace Checked

/-- The ways a step of a program can stop it. -/
inductive Fault
  | overflow
  | sliceRange
  | indexRange
  | capacity
  deriving DecidableEq, Repr

/-- A computation that returns a result or stops the program. -/
abbrev Run := Except Fault

variable {α β : Type}

@[simp] theorem ok_bind (value : α) (next : α → Run β) :
    ((Except.ok value : Run α) >>= next) = next value := rfl

@[simp] theorem error_bind (fault : Fault) (next : α → Run β) :
    ((Except.error fault : Run α) >>= next) = .error fault := rfl

@[simp] theorem pure_eq_ok (value : α) : (pure value : Run α) = .ok value := rfl

/-- A sequenced computation returns exactly when both of its parts do. -/
theorem bind_eq_ok {first : Run α} {next : α → Run β} {result : β} :
    (first >>= next) = .ok result ↔ ∃ value, first = .ok value ∧ next value = .ok result := by
  cases first with
  | error fault => simp
  | ok value => simp

/-- `&data[lo..hi]`. -/
def slice (data : List α) (lo hi : ℕ) : Run (List α) :=
  if lo ≤ hi ∧ hi ≤ data.length then .ok ((data.drop lo).take (hi - lo))
  else .error .sliceRange

theorem slice_eq_ok {data : List α} {lo hi : ℕ} (hle : lo ≤ hi) (hhi : hi ≤ data.length) :
    slice data lo hi = .ok ((data.drop lo).take (hi - lo)) :=
  if_pos ⟨hle, hhi⟩

/-- `data[i]`. -/
def index (data : List α) (i : ℕ) : Run α :=
  match data[i]? with
  | some value => .ok value
  | none => .error .indexRange

theorem index_eq_ok {data : List α} {i : ℕ} {value : α} (h : data[i]? = some value) :
    index data i = .ok value := by
  simp only [index, h]

/-- `a + b` on `u32`. -/
def addU32 (a b : UInt32) : Run UInt32 :=
  if a.toNat + b.toNat < 2 ^ 32 then .ok (a + b) else .error .overflow

theorem addU32_eq_ok {a b : UInt32} (h : a.toNat + b.toNat < 2 ^ 32) :
    addU32 a b = .ok (a + b) :=
  if_pos h

theorem toNat_add_of_lt {a b : UInt32} (h : a.toNat + b.toNat < 2 ^ 32) :
    (a + b).toNat = a.toNat + b.toNat := by
  rw [UInt32.toNat_add, Nat.mod_eq_of_lt h]

/-- Narrowing is lossless below the word size. -/
theorem toNat_ofNat_of_lt {n : ℕ} (h : n < 2 ^ 32) : (UInt32.ofNat n).toNat = n := by
  rw [UInt32.toNat_ofNat', Nat.mod_eq_of_lt h]

/-- The width of `usize`. -/
inductive Width
  | w32
  | w64
  deriving DecidableEq, Repr

/-- The number of `usize` values. -/
def Width.size : Width → ℕ
  | .w32 => 2 ^ 32
  | .w64 => 2 ^ 64

/-- `isize::MAX`, the largest number of bytes one allocation or slice can have. -/
def Width.isizeMax : Width → ℕ
  | .w32 => 2 ^ 31 - 1
  | .w64 => 2 ^ 63 - 1

variable (w : Width)

/-- `a.checked_add(b)`. -/
def checkedAdd (a b : ℕ) : Option ℕ := if a + b < w.size then some (a + b) else none

/-- `a.checked_mul(b)`. -/
def checkedMul (a b : ℕ) : Option ℕ := if a * b < w.size then some (a * b) else none

/-- `a + b` on `usize`. -/
def add (a b : ℕ) : Run ℕ := if a + b < w.size then .ok (a + b) else .error .overflow

/-- `a * b` on `usize`. -/
def mul (a b : ℕ) : Run ℕ := if a * b < w.size then .ok (a * b) else .error .overflow

/-- `Vec::with_capacity(count)` for elements of `width` bytes. -/
def withCapacity (width count : ℕ) : Run Unit :=
  if width * count ≤ w.isizeMax then .ok () else .error .capacity

variable {w}

theorem add_eq_ok {a b : ℕ} (h : a + b < w.size) : add w a b = .ok (a + b) := if_pos h

theorem mul_eq_ok {a b : ℕ} (h : a * b < w.size) : mul w a b = .ok (a * b) := if_pos h

theorem withCapacity_eq_ok {width count : ℕ} (h : width * count ≤ w.isizeMax) :
    withCapacity w width count = .ok () := if_pos h

theorem isizeMax_lt_size : w.isizeMax < w.size := by
  cases w <;> simp [Width.isizeMax, Width.size]

/-- A monadic search whose test never stops the program is the pure search. -/
theorem findM?_eq_ok {test : α → Run Bool} {p : α → Bool} {items : List α}
    (htest : ∀ x ∈ items, test x = .ok (p x)) : items.findM? test = .ok (items.find? p) := by
  induction items with
  | nil => rfl
  | cons head tail ih =>
    have htail := ih fun x hx ↦ htest x (List.mem_cons_of_mem _ hx)
    have hhead := htest head List.mem_cons_self
    rw [List.findM?, hhead, ok_bind, List.find?_cons]
    cases p head with
    | true => rfl
    | false => exact htail

/-- A monadic map whose body never stops the program is the pure map. -/
theorem mapM_eq_ok {β : Type} {body : α → Run β} {f : α → β} {items : List α}
    (hbody : ∀ x ∈ items, body x = .ok (f x)) : items.mapM body = .ok (items.map f) := by
  induction items with
  | nil => rfl
  | cons head tail ih =>
    have htail := ih fun x hx ↦ hbody x (List.mem_cons_of_mem _ hx)
    rw [List.mapM_cons, hbody head List.mem_cons_self, ok_bind, htail]
    rfl

theorem mapM_eq_ok_self {body : α → Run α} {items : List α}
    (hbody : ∀ x ∈ items, body x = .ok x) : items.mapM body = .ok items := by
  have hmap := mapM_eq_ok (f := id) hbody
  rwa [List.map_id] at hmap

end Checked
