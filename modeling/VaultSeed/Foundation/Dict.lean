import Mathlib.Data.List.Basic

/-! # Dictionaries

A dictionary is the list of its entries. The entry of a key is the first one, a new key is put
at the end, and removing a key removes every entry of it.
-/

namespace Dict

variable {Key Value : Type} [BEq Key] [LawfulBEq Key]

/-- `entries[key] = value`. -/
def put (key : Key) (value : Value) : List (Key × Value) → List (Key × Value)
  | [] => [(key, value)]
  | entry :: rest => if entry.1 == key then (key, value) :: rest else entry :: put key value rest

/-- `del entries[key]`. -/
def remove (key : Key) (entries : List (Key × Value)) : List (Key × Value) :=
  entries.filter fun entry => !(entry.1 == key)

variable {key other : Key} {value : Value} {entries : List (Key × Value)}

private theorem lookup_cons_of_ne {entry : Key × Value} (differs : entry.1 ≠ key) :
    (entry :: entries).lookup key = entries.lookup key := by
  obtain ⟨name, value⟩ := entry
  rw [List.lookup_cons]
  have absent : (key == name) = false := beq_eq_false_iff_ne.mpr differs.symm
  rw [absent]

/-- What was put is found. -/
@[simp] theorem lookup_put_self (key : Key) (value : Value) (entries : List (Key × Value)) :
    (put key value entries).lookup key = some value := by
  induction entries with
  | nil => simp [put]
  | cons entry entries ih =>
      rw [put]
      by_cases same : entry.1 = key
      · rw [if_pos (beq_iff_eq.mpr same), List.lookup_cons_self]
      · rw [if_neg (mt beq_iff_eq.mp same), lookup_cons_of_ne same, ih]

/-- Putting leaves the other keys. -/
theorem lookup_put_of_ne (differs : other ≠ key) (value : Value) (entries : List (Key × Value)) :
    (put key value entries).lookup other = entries.lookup other := by
  induction entries with
  | nil =>
      rw [put, lookup_cons_of_ne]
      exact differs.symm
  | cons entry entries ih =>
      rw [put]
      by_cases same : entry.1 = key
      · have apart : entry.1 ≠ other := by
          rw [same]
          exact differs.symm
        rw [if_pos (beq_iff_eq.mpr same), lookup_cons_of_ne (show (key, value).1 ≠ other from
          differs.symm), lookup_cons_of_ne apart]
      · obtain ⟨name, held⟩ := entry
        rw [if_neg (mt beq_iff_eq.mp same), List.lookup_cons, List.lookup_cons, ih]

/-- Putting what is there changes nothing. -/
theorem put_of_lookup (found : entries.lookup key = some value) :
    put key value entries = entries := by
  induction entries with
  | nil => cases found
  | cons entry entries ih =>
      rw [put]
      by_cases same : entry.1 = key
      · obtain ⟨name, held⟩ := entry
        change name = key at same
        subst same
        rw [List.lookup_cons_self] at found
        cases found
        rw [if_pos (beq_self_eq_true _)]
      · rw [lookup_cons_of_ne same] at found
        rw [if_neg (mt beq_iff_eq.mp same), ih found]

omit [LawfulBEq Key] in
/-- Nothing is empty after something was put. -/
theorem put_ne_nil (key : Key) (value : Value) (entries : List (Key × Value)) :
    put key value entries ≠ [] := by
  cases entries with
  | nil => simp [put]
  | cons entry entries =>
      rw [put]
      split <;> simp

/-- What was removed is not found. -/
@[simp] theorem lookup_remove_self (key : Key) (entries : List (Key × Value)) :
    (remove key entries).lookup key = none := by
  induction entries with
  | nil => rfl
  | cons entry entries ih =>
      by_cases same : entry.1 = key
      · have gone : remove key (entry :: entries) = remove key entries := by
          simp [remove, same]
        rw [gone, ih]
      · have kept : remove key (entry :: entries) = entry :: remove key entries := by
          simp [remove, same]
        rw [kept, lookup_cons_of_ne same, ih]

/-- Removing leaves the other keys. -/
theorem lookup_remove_of_ne (differs : other ≠ key) (entries : List (Key × Value)) :
    (remove key entries).lookup other = entries.lookup other := by
  induction entries with
  | nil => rfl
  | cons entry entries ih =>
      by_cases same : entry.1 = key
      · have gone : remove key (entry :: entries) = remove key entries := by
          simp [remove, same]
        have apart : entry.1 ≠ other := by
          rw [same]
          exact differs.symm
        rw [gone, ih, lookup_cons_of_ne apart]
      · have kept : remove key (entry :: entries) = entry :: remove key entries := by
          simp [remove, same]
        obtain ⟨name, held⟩ := entry
        rw [kept, List.lookup_cons, List.lookup_cons, ih]

/-- What is found is an entry. -/
theorem mem_of_lookup (found : entries.lookup key = some value) : (key, value) ∈ entries := by
  induction entries with
  | nil => cases found
  | cons entry entries ih =>
      by_cases same : entry.1 = key
      · obtain ⟨name, held⟩ := entry
        change name = key at same
        subst same
        rw [List.lookup_cons_self] at found
        cases found
        exact List.mem_cons_self
      · rw [lookup_cons_of_ne same] at found
        exact List.mem_cons_of_mem _ (ih found)

omit [LawfulBEq Key] in
/-- After putting, an entry is the new one or was there. -/
theorem mem_put {entry : Key × Value} (member : entry ∈ put key value entries) :
    entry = (key, value) ∨ entry ∈ entries := by
  induction entries with
  | nil => exact .inl (List.mem_singleton.mp member)
  | cons first entries ih =>
      rw [put] at member
      split at member
      · rcases List.mem_cons.mp member with same | rest
        · exact .inl same
        · exact .inr (List.mem_cons_of_mem _ rest)
      · rcases List.mem_cons.mp member with rfl | rest
        · exact .inr List.mem_cons_self
        · rcases ih rest with same | inside
          · exact .inl same
          · exact .inr (List.mem_cons_of_mem _ inside)

omit [LawfulBEq Key] in
/-- After removing, an entry was there. -/
theorem mem_remove {entry : Key × Value} (member : entry ∈ remove key entries) : entry ∈ entries :=
  List.mem_of_mem_filter member

end Dict
