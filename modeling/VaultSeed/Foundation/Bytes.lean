import Mathlib.Data.List.DropRight
import Mathlib.Data.List.Basic
import Mathlib.Tactic.Linarith

/-! # Byte strings with Python's indexing

Slice bounds are integers: a negative bound counts from the end, a bound outside
the string is clipped. Fixed-width big-endian integers and the removal of a
trailing byte follow `int.to_bytes`, `int.from_bytes` and `bytes.rstrip`.
-/

namespace Python

/-- A byte string. -/
abbrev Bytes := List UInt8

/-- A text string, as its sequence of code points. -/
abbrev Text := List Char

/-- The exceptions library operations raise, with their texts. -/
inductive Exn where
  | osError
  | valueError (message : String)
  | typeError (message : String)
  | indexError
  | keyError
  | nameError
  | zeroDivisionError
  deriving DecidableEq, Repr

variable {α : Type}

/-- The position a slice bound denotes in a sequence of the given length. -/
def bound (length : Nat) (index : Int) : Nat :=
  if index < 0 then (length + index).toNat else index.toNat

/-- `data[:stop]`. -/
def sliceTo (data : List α) (stop : Int) : List α := data.take (bound data.length stop)

/-- `data[start:]`. -/
def sliceFrom (data : List α) (start : Int) : List α := data.drop (bound data.length start)

@[simp] theorem bound_natCast (length index : Nat) : bound length (index : Int) = index := by
  simp [bound]

/-- A negative bound counts from the end. -/
theorem bound_neg (length count : Nat) (positive : 0 < count) :
    bound length (-(count : Int)) = length - count := by
  unfold bound
  split <;> omega

/-- The two halves of a slice at one bound recover the whole sequence. -/
@[simp] theorem sliceTo_append_sliceFrom (data : List α) (index : Int) :
    sliceTo data index ++ sliceFrom data index = data :=
  List.take_append_drop _ _

/-- Dropping a suffix by its length. -/
theorem sliceTo_append (front back : List α) (count : Nat) (positive : 0 < count)
    (length : back.length = count) : sliceTo (front ++ back) (-(count : Int)) = front := by
  unfold sliceTo
  rw [bound_neg _ _ positive, List.length_append, length, Nat.add_sub_cancel]
  exact List.take_left' rfl

/-- Reading a suffix by its length. -/
theorem sliceFrom_append (front back : List α) (count : Nat) (positive : 0 < count)
    (length : back.length = count) : sliceFrom (front ++ back) (-(count : Int)) = back := by
  unfold sliceFrom
  rw [bound_neg _ _ positive, List.length_append, length, Nat.add_sub_cancel]
  exact List.drop_left' rfl

/-- `data.rstrip(byte)`. -/
def rstrip (byte : UInt8) (data : Bytes) : Bytes := data.rdropWhile (· == byte)

/-- Stripping leaves a string that does not end in the stripped byte alone, and
removes every copy of the byte put after it. -/
theorem rstrip_append_replicate (byte : UInt8) (data : Bytes) (count : Nat)
    (faithful : data.getLast? ≠ some byte) :
    rstrip byte (data ++ List.replicate count byte) = data := by
  induction count with
  | zero =>
      rw [List.replicate_zero, List.append_nil]
      rcases List.eq_nil_or_concat data with rfl | ⟨front, last, rfl⟩
      · rfl
      · have different : last ≠ byte := by
          intro same
          exact faithful (by simp [same])
        simp [rstrip, different]
  | succ count ih =>
      rw [List.replicate_succ', ← List.append_assoc]
      unfold rstrip at ih ⊢
      rw [List.rdropWhile_concat_pos _ _ _ (by simp), ih]

/-- What stripping removes is copies of the byte. -/
theorem exists_rstrip_append (byte : UInt8) (data : Bytes) :
    ∃ count, data = rstrip byte data ++ List.replicate count byte := by
  induction data using List.reverseRecOn with
  | nil => exact ⟨0, rfl⟩
  | append_singleton data last ih =>
      by_cases same : last = byte
      · obtain ⟨count, whole⟩ := ih
        refine ⟨count + 1, ?_⟩
        rw [rstrip, List.rdropWhile_concat_pos _ _ _ (by simpa using same), List.replicate_succ',
          ← List.append_assoc, same]
        exact congrArg (· ++ [byte]) whole
      · refine ⟨0, ?_⟩
        rw [rstrip, List.rdropWhile_concat_neg _ _ _ (by simpa using same)]
        simp

/-- What is left does not end in the stripped byte. -/
theorem getLast?_rstrip (byte : UInt8) (data : Bytes) :
    (rstrip byte data).getLast? ≠ some byte := by
  intro last
  have nonempty : rstrip byte data ≠ [] := by
    intro empty
    rw [empty] at last
    cases last
  rw [List.getLast?_eq_some_getLast nonempty] at last
  exact List.rdropWhile_last_not _ _ nonempty (beq_iff_eq.mpr (Option.some.inj last))

/-- `value.to_bytes(width, "big")` for a value that fits. -/
def toBytesBig : Nat → Nat → Bytes
  | 0, _ => []
  | width + 1, value => toBytesBig width (value / 256) ++ [UInt8.ofNat (value % 256)]

/-- `int.from_bytes(data, "big")`. -/
def fromBytesBig (data : Bytes) : Nat := data.foldl (fun value byte => value * 256 + byte.toNat) 0

/-- `to_bytes` gives as many bytes as it is asked for. -/
@[simp] theorem length_toBytesBig (width value : Nat) :
    (toBytesBig width value).length = width := by
  induction width generalizing value with
  | zero => rfl
  | succ width ih => simp [toBytesBig, ih]

/-- A number that fits is read back. -/
theorem fromBytesBig_toBytesBig (width value : Nat) (fits : value < 256 ^ width) :
    fromBytesBig (toBytesBig width value) = value := by
  induction width generalizing value with
  | zero => simp [toBytesBig, fromBytesBig]; omega
  | succ width ih =>
      have smaller : value / 256 < 256 ^ width := by
        rw [Nat.pow_succ] at fits
        omega
      have front := ih (value / 256) smaller
      unfold fromBytesBig at front ⊢
      rw [toBytesBig, List.foldl_append, front]
      simp only [List.foldl_cons, List.foldl_nil, UInt8.toNat_ofNat']
      omega

/-- One more byte at the end. -/
theorem fromBytesBig_concat (data : Bytes) (byte : UInt8) :
    fromBytesBig (data ++ [byte]) = fromBytesBig data * 256 + byte.toNat := by
  rw [fromBytesBig, List.foldl_append]
  rfl

/-- Bytes are digits of eight bits. -/
theorem bytes_small (data : Bytes) : ∀ digit ∈ data.map UInt8.toNat, digit < 2 ^ 8 := by
  intro digit member
  obtain ⟨byte, _, rfl⟩ := List.mem_map.mp member
  exact byte.toNat_lt

/-- Bytes are the encoding of the number they stand for, in their own width. -/
theorem toBytesBig_fromBytesBig (data : Bytes) :
    toBytesBig data.length (fromBytesBig data) = data := by
  induction data using List.reverseRecOn with
  | nil => rfl
  | append_singleton data byte ih =>
      have small := byte.toNat_lt
      rw [List.length_append, List.length_singleton, toBytesBig, fromBytesBig_concat,
        show (fromBytesBig data * 256 + byte.toNat) / 256 = fromBytesBig data by omega,
        show (fromBytesBig data * 256 + byte.toNat) % 256 = byte.toNat by omega, ih]
      simp

/-- The number of some bytes is below a power of 256. -/
theorem fromBytesBig_lt (data : Bytes) : fromBytesBig data < 256 ^ data.length := by
  induction data using List.reverseRecOn with
  | nil => decide
  | append_singleton data byte ih =>
      have small := byte.toNat_lt
      rw [fromBytesBig_concat, List.length_append, List.length_singleton, Nat.pow_succ]
      omega

end Python
