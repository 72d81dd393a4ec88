import VaultSeed.Kef.Aes
import VaultSeed.Qr.Bbqr
import VaultSeed.Uzlib.RoundTrip

/-! # What the callers of deflate assume

`kef.py` and `bbqr.py` write their data to a `DeflateIO` with its defaults and read it back to the
end. Envelopes and animations rely on a module that inverts (`Kef.Crypto.Inverts`,
`Qr.Deflate.RoundTrips`); the module of the device is one, whatever is in the memory of its windows
(`VaultSeed.Uzlib.withDevice_inverts`, `VaultSeed.Uzlib.device_roundTrips`).
-/

namespace VaultSeed.Uzlib

open Python

variable {memory other : Nat → UInt8} {source data : Bytes}

/-- Reading a stream to its end gives data, with any number of turns from some number on. -/
def Inflates (memory : Nat → UInt8) (source data : Bytes) : Prop :=
  ∃ least, ∀ fuel, least ≤ fuel →
    decompress memory .raw defaultWbits fuel source = some (.ok data)

/-- A stream is read to one result. -/
theorem Inflates.unique {found : Bytes} (first : Inflates memory source data)
    (second : Inflates memory source found) : data = found := by
  obtain ⟨least, reads⟩ := first
  obtain ⟨most, finds⟩ := second
  have read := reads (max least most) (Nat.le_max_left ..)
  rw [finds (max least most) (Nat.le_max_right ..)] at read
  exact (Except.ok.inj (Option.some.inj read)).symm

open Classical in
/-- What `DeflateIO(BytesIO(source)).read()` returns, if it returns. -/
noncomputable def inflated (memory : Nat → UInt8) (source : Bytes) : Option Bytes :=
  if inflates : ∃ data, Inflates memory source data then some inflates.choose else none

/-- What a `DeflateIO` on a `BytesIO` leaves there of one write. -/
def deflated (memory : Nat → UInt8) (data : Bytes) : Bytes :=
  compress memory .raw defaultWbits [data]

private theorem Inflates.inflated (inflates : Inflates memory source data) :
    inflated memory source = some data := by
  have found : ∃ data, Inflates memory source data := ⟨data, inflates⟩
  rw [Uzlib.inflated, dif_pos found, found.choose_spec.unique inflates]

/-- Data that are not empty are read back from what is written of them. -/
theorem inflates_deflated (memory other : Nat → UInt8) (nonempty : data ≠ []) :
    Inflates other (deflated memory data) data :=
  ⟨data.length + defaultBufferSize, fun _ enough =>
    decompress_single memory other nonempty enough⟩

/-- Nothing is written of no data only. -/
theorem deflated_eq_nil_iff : deflated memory data = [] ↔ data = [] := by
  constructor
  · intro nothing
    by_contra nonempty
    obtain ⟨least, reads⟩ := inflates_deflated memory memory nonempty
    have read := reads (least + 1) (Nat.le_succ least)
    rw [nothing, decompress_nil memory .raw defaultWbits (Nat.succ_pos least)] at read
    cases read
  · rintro rfl
    exact compress_nil memory .raw defaultWbits List.flatten_singleton

/-- The `deflate` module of the device, for `bbqr.py`. -/
noncomputable def device (memory other : Nat → UInt8) : Qr.Deflate where
  compress data := some (deflated memory data)
  decompress := inflated other

/-- **The device reads back what it compressed** for an animation. -/
theorem device_roundTrips (memory other : Nat → UInt8) : (device memory other).RoundTrips := by
  intro data compressed nonempty written
  obtain rfl := Option.some.inj written
  exact ⟨mt deflated_eq_nil_iff.mp nonempty, (inflates_deflated memory other nonempty).inflated⟩

/-- Primitives with the `deflate` module of the device, for `kef.py`. -/
noncomputable def withDevice (crypto : Kef.Crypto) (memory other : Nat → UInt8) : Kef.Crypto where
  __ := crypto
  deflate data := some (deflated memory data)
  inflate := inflated other

/-- **The device reads back what it compressed** for an envelope. -/
theorem withDevice_inverts {crypto : Kef.Crypto} (inverts : crypto.Inverts)
    (memory other : Nat → UInt8) : (withDevice crypto memory other).Inverts where
  __ := inverts
  inflate_deflate data compressed written some := by
    obtain rfl := Option.some.inj written
    exact (inflates_deflated memory other (mt deflated_eq_nil_iff.mpr some)).inflated
  deflate_eq_nil data nothing := deflated_eq_nil_iff.mp (Option.some.inj nothing)

end VaultSeed.Uzlib
