import VaultSeed.Vault.Manager

/-! # The identifiers of the secrets

An identifier is a decimal numeral of at least three digits. `next_secret_id` takes
the largest number in use plus one, so it never meets an identifier of the manifest,
past 999 as well; and different identifiers name different files.
-/

namespace VaultSeed.Vault

open Python

/-- The identifier of an entry is a numeral. -/
def Entry.Numbered (entry : Entry) : Prop := ∃ number, entry.id = format03d number

/-- Every identifier of the manifest is a numeral. -/
def Manifest.Numbered (manifest : Manifest) : Prop :=
  ∀ entry ∈ manifest.secrets, entry.Numbered

/-- Every identifier has a file of its own. -/
theorem secretPath_injective : Function.Injective secretPath := by
  intro first second same
  exact List.append_cancel_right (Path.secretFile.inj same)

private theorem mapM_int {entries : List Entry} (numbered : ∀ entry ∈ entries, entry.Numbered) :
    ∃ numbers : List Nat, entries.mapM (fun entry => int 0 entry.id) =
      some (numbers.map Int.ofNat) ∧
      ∀ entry ∈ entries, ∃ number ∈ numbers, entry.id = format03d number := by
  induction entries with
  | nil => exact ⟨[], rfl, nofun⟩
  | cons entry entries ih =>
      obtain ⟨number, numeral⟩ := numbered entry List.mem_cons_self
      obtain ⟨numbers, parsed, known⟩ := ih fun other member =>
        numbered other (List.mem_cons_of_mem _ member)
      refine ⟨number :: numbers, ?_, ?_⟩
      · simp [List.mapM_cons, numeral, parsed]
      · intro other member
        rcases List.mem_cons.mp member with rfl | later
        · exact ⟨number, List.mem_cons_self, numeral⟩
        · obtain ⟨value, found, same⟩ := known other later
          exact ⟨value, List.mem_cons_of_mem _ found, same⟩

/-- The greatest of some natural numbers is one of them. -/
theorem exists_greatest (numbers : List Nat) :
    ∃ greatest : Nat, (numbers.map Int.ofNat).max?.getD 0 = greatest ∧
      ∀ number ∈ numbers, number ≤ greatest := by
  cases taken : (numbers.map Int.ofNat).max? with
  | none =>
      refine ⟨0, rfl, ?_⟩
      rw [List.max?_eq_none_iff, List.map_eq_nil_iff] at taken
      rw [taken]
      exact nofun
  | some top =>
      obtain ⟨member, bounds⟩ := List.max?_eq_some_iff.mp taken
      obtain ⟨greatest, _, rfl⟩ := List.mem_map.mp member
      exact ⟨greatest, rfl, fun number inside =>
        Int.ofNat_le.mp (bounds _ (List.mem_map_of_mem inside))⟩

/-- **The next identifier is a new numeral.** -/
theorem nextSecretId_fresh {manifest : Manifest} (numbered : manifest.Numbered) :
    ∃ number, nextSecretId manifest = .ok (format03d number) ∧
      ∀ entry ∈ manifest.secrets, entry.id ≠ format03d number := by
  unfold nextSecretId
  by_cases empty : manifest.secrets = []
  · refine ⟨1, by rw [if_pos empty]; rfl, ?_⟩
    rw [empty]
    exact nofun
  · obtain ⟨numbers, parsed, known⟩ := mapM_int numbered
    obtain ⟨greatest, taken, bounds⟩ := exists_greatest numbers
    refine ⟨greatest + 1, ?_, fun entry member same => ?_⟩
    · rw [if_neg empty, parsed]
      exact congrArg (fun top : Int => Except.ok (signed03d (top + 1))) taken
    obtain ⟨number, found, numeral⟩ := known entry member
    have bound := bounds number found
    have equal := format03d_injective (numeral.symm.trans same)
    omega

/-- An identifier in use: identifiers past 999 are compared as numbers. -/
example : nextSecretId ⟨[⟨format03d 1000, [], .text, 0, []⟩, ⟨format03d 999, [], .text, 0, []⟩]⟩ =
    .ok ['1', '0', '0', '1'] := by decide

/-- A numbered entry may be added to numbered ones. -/
theorem addToManifest_numbered {manifest : Manifest} (numbered : manifest.Numbered) {entry : Entry}
    (numeral : entry.Numbered) : (addToManifest manifest entry).Numbered := by
  intro other member
  rcases List.mem_append.mp member with before | new
  · exact numbered other before
  · rw [List.mem_singleton.mp new]
    exact numeral

/-- Removing an entry leaves numbered ones. -/
theorem removeFromManifest_numbered {manifest : Manifest} (numbered : manifest.Numbered)
    (secretId : Text) : (removeFromManifest manifest secretId).Numbered := by
  intro entry member
  exact numbered entry (List.mem_filter.mp member).1

/-- An added entry changes the manifest. -/
theorem addToManifest_ne (manifest : Manifest) (entry : Entry) :
    addToManifest manifest entry ≠ manifest := by
  intro same
  have lengths := congrArg (fun list : Manifest => list.secrets.length) same
  simp [addToManifest] at lengths

/-- Removing changes nothing exactly when there is no such entry. -/
theorem removeFromManifest_eq_self {manifest : Manifest} {secretId : Text} :
    removeFromManifest manifest secretId = manifest ↔
      ∀ entry ∈ manifest.secrets, entry.id ≠ secretId := by
  obtain ⟨entries⟩ := manifest
  simp [removeFromManifest, List.filter_eq_self]

end VaultSeed.Vault
