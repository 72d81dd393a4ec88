import Mathlib.Data.List.GetD
import Mathlib.Tactic.Common

/-! # A memory of bytes

A memory gives every address a byte. Data are read and written as sequences from an address
on; a write changes nothing outside its own addresses, and what is written is read back.
-/

/-- The bytes by their addresses. -/
abbrev Memory : Type := Nat → UInt8

namespace Memory

variable (memory : Memory)

/-- The bytes from an address on. -/
def read (start length : Nat) : List UInt8 :=
  (List.range length).map fun offset => memory (start + offset)

/-- Put bytes from an address on. -/
def write (start : Nat) (data : List UInt8) : Memory := fun address =>
  if start ≤ address ∧ address < start + data.length then data.getD (address - start) 0
  else memory address

/-- The addresses of a range are the same in two memories. -/
def Agree (first second : Memory) (start length : Nat) : Prop :=
  ∀ address, start ≤ address → address < start + length → first address = second address

variable {memory} {first second third : Memory} {start length : Nat} {data : List UInt8}

/-- As many bytes are read as are asked for. -/
@[simp] theorem length_read : (memory.read start length).length = length := by
  simp [read]

/-- The bytes that are read are those of the memory. -/
theorem getElem?_read {offset : Nat} (inside : offset < length) :
    (memory.read start length)[offset]? = some (memory (start + offset)) := by
  simp [read, inside]

/-- What is in the memory where something was written. -/
theorem write_inside {address : Nat} (low : start ≤ address)
    (high : address < start + data.length) :
    memory.write start data address = data.getD (address - start) 0 := if_pos ⟨low, high⟩

/-- Writing leaves the rest of the memory. -/
theorem write_outside {address : Nat} (outside : address < start ∨ start + data.length ≤ address) :
    memory.write start data address = memory address := if_neg (by omega)

/-- Writing nothing changes nothing. -/
@[simp] theorem write_nil : memory.write start [] = memory := by
  funext address
  exact write_outside (by simp only [List.length_nil]; omega)

/-- A memory agrees with itself. -/
theorem Agree.refl (memory : Memory) (start length : Nat) : Agree memory memory start length :=
  fun _ _ _ => rfl

/-- Agreeing is transitive. -/
theorem Agree.trans (left : Agree first second start length)
    (right : Agree second third start length) : Agree first third start length :=
  fun address low high => (left address low high).trans (right address low high)

/-- A part of a range on which two memories agree. -/
theorem Agree.mono {inner size : Nat} (agree : Agree first second start length)
    (low : start ≤ inner) (high : inner + size ≤ start + length) :
    Agree first second inner size :=
  fun address above below => agree address (by omega) (by omega)

/-- Memories that agree on a range read the same there. -/
theorem Agree.read (agree : Agree first second start length) :
    first.read start length = second.read start length := by
  refine List.map_congr_left fun offset inside => ?_
  exact agree _ (by omega) (Nat.add_lt_add_left (List.mem_range.mp inside) start)

/-- A write changes nothing outside its range. -/
theorem agree_write {other size : Nat}
    (apart : other + size ≤ start ∨ start + data.length ≤ other) :
    Agree (memory.write start data) memory other size :=
  fun _ low high => write_outside (by omega)

/-- **What is written is read back.** -/
@[simp] theorem read_write : (memory.write start data).read start data.length = data := by
  refine List.ext_getElem? fun offset => ?_
  by_cases inside : offset < data.length
  · rw [getElem?_read inside, write_inside (by omega) (by omega), Nat.add_sub_cancel_left,
      List.getD_eq_getElem?_getD, List.getElem?_eq_getElem inside]
    rfl
  · rw [List.getElem?_eq_none (by simpa using inside), List.getElem?_eq_none (by omega)]

/-- Reading two ranges that follow one another. -/
theorem read_add (start front back : Nat) :
    memory.read start (front + back) =
      memory.read start front ++ memory.read (start + front) back := by
  rw [read, List.range_add, List.map_append, List.map_map]
  refine congrArg _ (List.map_congr_left fun offset _ => ?_)
  simp [Nat.add_assoc]

/-- The front of what is read. -/
theorem read_take {size : Nat} (less : size ≤ length) :
    (memory.read start length).take size = memory.read start size := by
  obtain ⟨rest, rfl⟩ := Nat.exists_eq_add_of_le less
  rw [read_add]
  exact List.take_left' length_read

/-- The back of what is read. -/
theorem read_drop {size : Nat} (less : size ≤ length) :
    (memory.read start length).drop size = memory.read (start + size) (length - size) := by
  obtain ⟨rest, rfl⟩ := Nat.exists_eq_add_of_le less
  rw [read_add, List.drop_left' length_read, Nat.add_sub_cancel_left]

/-- A part of what is read is read from its own address. -/
theorem read_slice {offset size : Nat} (inside : offset + size ≤ length) :
    ((memory.read start length).drop offset).take size = memory.read (start + offset) size := by
  rw [read_drop (by omega), read_take (by omega)]

/-- Writing in two pieces. -/
theorem write_append (front back : List UInt8) :
    memory.write start (front ++ back) =
      (memory.write start front).write (start + front.length) back := by
  funext address
  by_cases early : address < start + front.length
  · rw [write_outside (.inl early)]
    by_cases below : address < start
    · rw [write_outside (.inl below), write_outside (.inl below)]
    · rw [write_inside (by omega) (by rw [List.length_append]; omega),
        write_inside (by omega) early, List.getD_append _ _ _ _ (by omega)]
  · by_cases late : address < start + (front ++ back).length
    · rw [List.length_append] at late
      rw [write_inside (by omega) (by rw [List.length_append]; omega),
        write_inside (by omega) (by omega), List.getD_append_right _ _ _ _ (by omega)]
      congr 1
      omega
    · rw [List.length_append] at late
      rw [write_outside (.inr (by rw [List.length_append]; omega)),
        write_outside (.inr (by omega)), write_outside (.inr (by omega))]

/-- Writing again over the beginning of what was written. -/
theorem write_write {again : List UInt8} (less : again.length ≤ data.length) :
    (memory.write start data).write start again =
      memory.write start (again ++ data.drop again.length) := by
  have whole : (again ++ data.drop again.length).length = data.length := by
    rw [List.length_append, List.length_drop]
    omega
  funext address
  by_cases inside : start ≤ address ∧ address < start + data.length
  · have now : memory.write start (again ++ data.drop again.length) address =
        (again ++ data.drop again.length).getD (address - start) 0 :=
      write_inside inside.1 (by omega)
    rw [now]
    by_cases early : address < start + again.length
    · rw [write_inside inside.1 early, List.getD_append _ _ _ _ (by omega)]
    · rw [write_outside (.inr (by omega)), write_inside inside.1 inside.2,
        List.getD_append_right _ _ _ _ (by omega), List.getD_eq_getElem?_getD,
        List.getD_eq_getElem?_getD, List.getElem?_drop]
      congr 2
      omega
  · rw [write_outside (by omega), write_outside (by omega), write_outside (by omega)]

end Memory
