import VaultSeed.Foundation.Bits
import Mathlib.Data.Nat.Bitwise

/-! # Streams of bits, the low one first

A writer adds bits above those it holds and gives bytes away from below
(`LowBits.stream_flush`); a reader takes the lowest bit of what it holds and loads bytes
(`LowBits.stream_cons`). Both denote the bits of the bytes and of the value held.
-/

namespace LowBits

/-- The low bits of a value, the lowest one first. -/
def low : Nat → Nat → List Bool
  | 0, _ => []
  | count + 1, value => (value % 2 == 1) :: low count (value / 2)

/-- The number that bits stand for, the lowest one first. -/
def value : List Bool → Nat
  | [] => 0
  | bit :: bits => bit.toNat + 2 * value bits

/-- The bits of bytes. -/
def stream (bytes : List UInt8) : List Bool := bytes.flatMap fun byte => low 8 byte.toNat

section Values

variable {count more held other : Nat}

/-- As many low bits as are asked for. -/
@[simp] theorem length_low (count held : Nat) : (low count held).length = count := by
  induction count generalizing held with
  | zero => rfl
  | succ count ih => rw [low, List.length_cons, ih]

/-- The low bits of zero. -/
@[simp] theorem low_zero (count : Nat) : low count 0 = List.replicate count false := by
  induction count with
  | zero => rfl
  | succ count ih =>
      rw [low, Nat.zero_div, ih]
      rfl

private theorem low_add (count more held : Nat) :
    low (count + more) held = low count held ++ low more (held / 2 ^ count) := by
  induction count generalizing held with
  | zero => rw [Nat.zero_add, pow_zero, Nat.div_one]; rfl
  | succ count ih =>
      rw [Nat.succ_add, low, ih, low, List.cons_append, Nat.div_div_eq_div_mul, pow_succ,
        Nat.mul_comm 2]

/-- The low bits are those of the remainder. -/
theorem low_mod (count held : Nat) : low count (held % 2 ^ count) = low count held := by
  induction count generalizing held with
  | zero => rfl
  | succ count ih =>
      have half : held % 2 ^ (count + 1) / 2 = held / 2 % 2 ^ count := by
        rw [pow_succ, Nat.mul_comm, Nat.mod_mul_right_div_self]
      have lowest : held % 2 ^ (count + 1) % 2 = held % 2 :=
        Nat.mod_mod_of_dvd held (Dvd.intro_left (2 ^ count) (pow_succ 2 count).symm)
      rw [low, half, lowest, ih, low]

/-- What is put above the bits that are held comes after them. -/
theorem low_or (small : held < 2 ^ count) (more other : Nat) :
    low (count + more) (held ||| other <<< count) = low count held ++ low more other := by
  have sum : held ||| other <<< count = held + 2 ^ count * other := by
    rw [Nat.shiftLeft_eq, Nat.mul_comm other, Nat.or_comm, ← Nat.two_pow_add_eq_or_of_lt small,
      Nat.add_comm]
  have below : (held + 2 ^ count * other) % 2 ^ count = held := by
    rw [Nat.add_mul_mod_self_left, Nat.mod_eq_of_lt small]
  have above : (held + 2 ^ count * other) / 2 ^ count = other := by
    rw [Nat.add_mul_div_left _ _ (Nat.two_pow_pos count), Nat.div_eq_of_lt small, Nat.zero_add]
  rw [sum, low_add, above, ← low_mod, below]

private theorem value_low (count held : Nat) : value (low count held) = held % 2 ^ count := by
  induction count generalizing held with
  | zero => rw [pow_zero, Nat.mod_one]; rfl
  | succ count ih =>
      have lowest : (held % 2 == 1).toNat = held % 2 := by
        rcases Nat.mod_two_eq_zero_or_one held with zero | one
        · rw [zero]; rfl
        · rw [one]; rfl
      rw [low, value, ih, lowest, pow_succ, Nat.mul_comm _ 2, Nat.mod_mul]

private theorem low_inj (small : held < 2 ^ count) (smallOther : other < 2 ^ count)
    (same : low count held = low count other) : held = other := by
  have values := congrArg value same
  rwa [value_low, value_low, Nat.mod_eq_of_lt small, Nat.mod_eq_of_lt smallOther] at values

end Values

section Streams

variable {bytes other : List UInt8}

@[simp] theorem stream_nil : stream [] = [] := rfl

/-- A byte comes before the rest, its lowest bit first. -/
theorem stream_cons (byte : UInt8) (bytes : List UInt8) :
    stream (byte :: bytes) = low 8 byte.toNat ++ stream bytes := List.flatMap_cons

/-- Bytes one after another are streams one after another. -/
theorem stream_append (bytes other : List UInt8) :
    stream (bytes ++ other) = stream bytes ++ stream other := List.flatMap_append

@[simp] theorem length_stream (bytes : List UInt8) : (stream bytes).length = 8 * bytes.length := by
  induction bytes with
  | nil => rfl
  | cons byte bytes ih =>
      rw [stream_cons, List.length_append, length_low, ih, List.length_cons]
      omega

private theorem stream_injective : Function.Injective stream := by
  intro bytes other same
  induction bytes generalizing other with
  | nil =>
      have lengths := congrArg List.length same
      rw [length_stream, length_stream, List.length_nil] at lengths
      exact (List.eq_nil_of_length_eq_zero (by omega)).symm
  | cons byte bytes ih =>
      cases other with
      | nil =>
          have lengths := congrArg List.length same
          rw [length_stream, length_stream, List.length_nil, List.length_cons] at lengths
          omega
      | cons first other =>
          rw [stream_cons, stream_cons] at same
          obtain ⟨heads, tails⟩ := List.append_inj same (by rw [length_low, length_low])
          rw [ih tails, UInt8.toNat_inj.mp (low_inj byte.toNat_lt first.toNat_lt heads)]

/-- Bytes whose bits begin with those of other bytes begin with these. -/
theorem exists_of_stream_eq {bits : List Bool} (same : stream bytes = stream other ++ bits) :
    ∃ rest, bytes = other ++ rest ∧ stream rest = bits := by
  induction other generalizing bytes with
  | nil => exact ⟨bytes, rfl, same⟩
  | cons first other ih =>
      cases bytes with
      | nil =>
          have lengths := congrArg List.length same
          rw [List.length_append, length_stream, length_stream, List.length_nil,
            List.length_cons] at lengths
          omega
      | cons byte bytes =>
          rw [stream_cons, stream_cons, List.append_assoc] at same
          obtain ⟨heads, tails⟩ := List.append_inj same (by rw [length_low, length_low])
          obtain ⟨rest, split, left⟩ := ih tails
          rw [split, UInt8.toNat_inj.mp (low_inj byte.toNat_lt first.toNat_lt heads)]
          exact ⟨rest, rfl, left⟩

/-- Giving the lowest byte away keeps the bits. -/
theorem stream_flush {count : Nat} (full : 8 ≤ count) (bytes : List UInt8) (held : Nat) :
    stream (bytes ++ [UInt8.ofNat (held % 256)]) ++ low (count - 8) (held / 256) =
      stream bytes ++ low count held := by
  have byte : (UInt8.ofNat (held % 256)).toNat = held % 2 ^ 8 :=
    UInt8.toNat_ofNat_of_lt' (Nat.mod_lt held (by decide))
  have split := low_add 8 (count - 8) held
  rw [Nat.add_sub_cancel' full, show 2 ^ 8 = 256 from rfl] at split
  rw [split, stream_append, stream_cons, stream_nil, List.append_nil, byte, low_mod,
    List.append_assoc]

/-- Bits that fill whole bytes are what the bytes say. -/
theorem eq_of_low_append_stream {count held : Nat} (few : count < 8) {pad : List Bool}
    (padding : pad.length < 8) (same : low count held ++ stream bytes = pad ++ stream other) :
    bytes = other := by
  have lengths := congrArg List.length same
  rw [List.length_append, List.length_append, length_low, length_stream, length_stream] at lengths
  have equal : (low count held).length = pad.length := by
    rw [length_low]
    omega
  exact stream_injective (List.append_inj_right same equal)

end Streams

end LowBits
