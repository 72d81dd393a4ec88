import VaultSeed.Vault.Saving

/-! # Copying files from the mirror

The parts of `restore_from_flash`: making the directories of the card, copying one file
from flash to the card, and the loop over the secrets. For each part the faults are named
that leave the card as if there were none.
-/

namespace VaultSeed.Vault

open Python Effect Proc

/-- The first fault of a sequence. -/
def firstFault : List Fault → Fault
  | [] => .none
  | .none :: rest => firstFault rest
  | fault :: _ => fault

def Fault.isCut : Fault → Bool
  | .cut _ => true
  | _ => false

/-- The faults of a copy before its content is written: reading the file on flash, the
mount in between if there is one, and opening it on the card. -/
def copyFaults (fate : FileOp → Fault) (caller : Option Caller) (path : Path) : List Fault :=
  fate (.read .flash path) :: (caller.toList.map fun mounting => fate (.mount mounting)) ++
    [fate (.openWrite .sd path)]

/-- **One file copied** from flash to the card. -/
inductive Copied (fate : FileOp → Fault) (caller : Option Caller) (path : Path) (before : Media) :
    Outcome Exn Unit → Medium → Prop where
  | missing {outcome : Outcome Exn Unit} (absent : before.flash.get path = none)
      (ended : outcome = if (fate (.read .flash path)).isCut then .off else .raised .osError) :
      Copied fate caller path before outcome before.sd
  | stopped {data : Bytes} {fault : Fault} {outcome : Outcome Exn Unit}
      (stored : before.flash.get path = some data) (stops : Stops fault outcome)
      (cause : firstFault (copyFaults fate caller path) = fault) :
      Copied fate caller path before outcome before.sd
  | torn {data : Bytes} {fault : Fault} {outcome : Outcome Exn Unit}
      (stored : before.flash.get path = some data)
      (opened : firstFault (copyFaults fate caller path) = .none) (nonempty : data ≠ [])
      (stops : Stops fault outcome) (cause : fate (.write .sd path) = fault) :
      Copied fate caller path before outcome (before.sd.put path (data.take fault.left))
  | done {data : Bytes} (stored : before.flash.get path = some data)
      (opened : firstFault (copyFaults fate caller path) = .none)
      (written : data ≠ [] → fate (.write .sd path) = .none) :
      Copied fate caller path before (.ok ()) (before.sd.put path data)

/-- The operations of a copy. -/
def FileOp.Copies (caller : Option Caller) (path : Path) (op : FileOp) : Prop :=
  op = .read .flash path ∨ (∃ mounting ∈ caller, op = .mount mounting) ∨ op.Writes .sd path

/-- The faults of a copy are those of its own operations. -/
theorem copyFaults_congr {first second : FileOp → Fault} {caller : Option Caller} {path : Path}
    (fates : ∀ op : FileOp, op.Copies caller path → first op = second op) :
    copyFaults first caller path = copyFaults second caller path := by
  rw [copyFaults, copyFaults, fates _ (.inl rfl), fates _ (.inr (.inr (.inl rfl)))]
  congr 2
  refine List.map_congr_left fun mounting member => ?_
  exact fates _ (.inr (.inl ⟨mounting, Option.mem_toList.mp member, rfl⟩))

/-- The mount of a copy, if there is one. -/
def mounting (env : Env) : Option Caller → Run Unit
  | none => pure ()
  | some caller => mount env caller

/-- The copying of one file. -/
def copyFile (env : Env) (caller : Option Caller) (path : Path) : Run Unit := do
  let data ← read env .flash path
  mounting env caller
  writeFile env .sd path data

variable {platform : Platform} {env : Env}

/-- After operations that go well the first fault is among the rest. -/
theorem firstFault_append {first : List Fault} (clean : firstFault first = .none)
    (rest : List Fault) : firstFault (first ++ rest) = firstFault rest := by
  induction first with
  | nil => rfl
  | cons fault first ih =>
      cases fault with
      | none => exact ih clean
      | raise => cases clean
      | cut left => cases clean

private theorem firstFault_append_of_ne {first : List Fault} (stopped : firstFault first ≠ .none)
    (rest : List Fault) : firstFault (first ++ rest) = firstFault first := by
  induction first with
  | nil => exact absurd rfl stopped
  | cons fault first ih =>
      cases fault with
      | none => exact ih stopped
      | raise => rfl
      | cut left => rfl

/-- The first fault is one of them. -/
theorem firstFault_mem {faults : List Fault} (stopped : firstFault faults ≠ .none) :
    firstFault faults ∈ faults := by
  induction faults with
  | nil => exact absurd rfl stopped
  | cons fault faults ih =>
      cases fault with
      | none => exact List.mem_cons_of_mem _ (ih stopped)
      | raise => exact List.mem_cons_self
      | cut left => exact List.mem_cons_self

private theorem firstFault_stops {α : Type} {fault : Fault} {outcome : Outcome Exn α}
    (stops : Stops fault outcome) (rest : List Fault) : firstFault (fault :: rest) = fault := by
  cases stops <;> rfl

section Read

variable {disk : Disk} {path : Path} {device : Device}

/-- A file that is there and can be read is read. -/
theorem read_found {data : Bytes} (spared : env.fate device (.read disk path) = .none)
    (stored : (device.disk disk).get path = some data) :
    read env disk path device = (.ok data, device.push (.read disk path)) := by
  refine (fileOp_none spared).trans ?_
  simp only [push_toMedia, stored]

/-- A file that is not there cannot be read. -/
theorem read_missing (absent : (device.disk disk).get path = none) :
    read env disk path device =
      (if (env.fate device (.read disk path)).isCut then .off else .raised .osError,
        device.push (.read disk path)) := by
  cases fate : env.fate device (.read disk path) with
  | none =>
      refine (fileOp_none fate).trans ?_
      simp only [push_toMedia, absent]
      rfl
  | raise => exact fileOp_raise fate
  | cut left => exact fileOp_cut fate

end Read

/-- The mount of a copy changes nothing but the trace. -/
theorem mounting_holds (caller : Option Caller) (device : Device) :
    Holds (mounting env caller) device fun outcome after =>
      (Alike device after (fun op => ∃ mounting ∈ caller, op = .mount mounting) ∧
        after.toMedia = device.toMedia) ∧
      ((∃ fault, Stops fault outcome ∧
          firstFault (caller.toList.map fun mounting => env.fate device (.mount mounting)) =
            fault) ∨
        (outcome = .ok () ∧
          firstFault (caller.toList.map fun mounting => env.fate device (.mount mounting)) =
            .none)) := by
  cases caller with
  | none => exact ⟨⟨.refl device _, rfl⟩, .inr ⟨rfl, rfl⟩⟩
  | some caller =>
      refine (mount_holds env caller device).mono ?_
      rintro outcome _ ⟨rfl, ended⟩
      refine ⟨⟨.push device _ ⟨caller, rfl, rfl⟩, rfl⟩, ?_⟩
      rcases ended with ⟨fault, stops, cause⟩ | ⟨returned, spared⟩
      · refine .inl ⟨fault, stops, ?_⟩
        simp only [Option.toList_some, List.map_cons, List.map_nil, cause]
        exact firstFault_stops stops []
      · refine .inr ⟨returned, ?_⟩
        simp only [Option.toList_some, List.map_cons, List.map_nil, spared]
        rfl

/-- A content written to the card, as the end of a copy. -/
theorem Copied.of_wrote {fate : FileOp → Fault} {caller : Option Caller} {path : Path}
    {before : Media} {data : Bytes} {outcome : Outcome Exn Unit} {sd : Medium}
    (stored : before.flash.get path = some data) (present : before.sd.hasDir path.dir = true)
    (reached : firstFault (copyFaults fate caller path) = firstFault [fate (.openWrite .sd path)])
    (wrote : Wrote fate .sd path data before.sd outcome sd) :
    Copied fate caller path before outcome sd := by
  cases wrote with
  | refused stops cause =>
      rcases cause with hit | ⟨_, _, missing⟩
      · rw [hit, firstFault_stops stops] at reached
        exact .stopped stored stops reached
      · rw [present] at missing
        cases missing
  | torn stops opened present nonempty cause =>
      rw [opened] at reached
      exact .torn stored reached nonempty stops cause
  | done opened present written =>
      rw [opened] at reached
      exact .done stored reached written

/-- The copy of a file that was read. -/
theorem copyFile_found (caller : Option Caller) {path : Path} {device : Device} {data : Bytes}
    (present : device.sd.hasDir path.dir = true) (stored : device.flash.get path = some data)
    (fate : env.fate device (.read .flash path) = .none) :
    Holds (copyFile env caller path) device fun outcome after =>
      Alike device after (FileOp.Copies caller path) ∧
      ∃ sd, after.toMedia = device.toMedia.setDisk .sd sd ∧
        Copied (env.fate device) caller path device.toMedia outcome sd := by
  let looked := device.push (.read .flash path)
  have reads : Alike device looked (· = .read .flash path) := .push device _ rfl
  have begins : Alike device looked (FileOp.Copies caller path) :=
    reads.mono fun _ same => .inl same
  have found : read env .flash path device = (.ok data, looked) := read_found fate stored
  refine Holds.bind_ok found ?_
  have mountFate : ∀ mounting, env.fate looked (.mount mounting) =
      env.fate device (.mount mounting) := fun mounting => reads.fate env nofun
  have faults : firstFault (copyFaults (env.fate device) caller path) =
      firstFault ((caller.toList.map fun mounting => env.fate looked (.mount mounting)) ++
        [env.fate device (.openWrite .sd path)]) := by
    simp only [copyFaults, fate, mountFate]
    rfl
  have stopped : ∀ {outcome after}, Alike looked after
      (fun op => ∃ mounting ∈ caller, op = .mount mounting) ∧
      after.toMedia = looked.toMedia → (∃ fault, Stops fault outcome ∧ firstFault
        (caller.toList.map fun mounting => env.fate looked (.mount mounting)) = fault) →
      Alike device after (FileOp.Copies caller path) ∧
      ∃ sd, after.toMedia = device.toMedia.setDisk .sd sd ∧
        Copied (env.fate device) caller path device.toMedia outcome sd := by
    rintro outcome after ⟨mounts, media⟩ ⟨fault, stops, cause⟩
    refine ⟨begins.trans (mounts.mono fun _ same => .inr (.inl same)), device.sd, media, ?_⟩
    refine .stopped stored stops (faults.trans ((firstFault_append_of_ne ?_ _).trans cause))
    rw [cause]
    cases stops <;> exact nofun
  refine Holds.bind (mounting_holds caller looked) ?_ ?_ ?_
  · rintro _ mounted ⟨⟨mounts, media⟩, ⟨_, stops, _⟩ | ⟨_, clean⟩⟩
    · cases stops
    have alike : Alike device mounted (fun op => op = .read .flash path ∨
        ∃ mounting ∈ caller, op = .mount mounting) :=
      (reads.mono fun _ same => .inl same).trans (mounts.mono fun _ same => .inr same)
    refine (writeFile_wrote env .sd path data mounted).mono ?_
    rintro outcome after ⟨writes, sd, finished, wrote⟩
    refine ⟨(alike.mono fun _ same => same.elim .inl fun some => .inr (.inl some)).trans
      (writes.mono fun _ same => .inr (.inr same)), sd, ?_, ?_⟩
    · rw [finished, media]
      rfl
    · refine Copied.of_wrote stored present (faults.trans (firstFault_append clean _)) ?_
      rw [show mounted.disk .sd = device.sd by rw [media]; rfl] at wrote
      refine wrote.congr fun op writing => alike.fate env ?_
      rintro (rfl | ⟨_, _, rfl⟩) <;> rcases writing with same | same <;> cases same
  · rintro exn after ⟨same, ended | ⟨returned, _⟩⟩
    · exact stopped same ended
    · cases returned
  · rintro after ⟨same, ended | ⟨returned, _⟩⟩
    · exact stopped same ended
    · cases returned

/-- What copying a file does where the card has its directory. -/
theorem copyFile_copied (caller : Option Caller) (path : Path) (device : Device)
    (present : device.sd.hasDir path.dir = true) :
    Holds (copyFile env caller path) device fun outcome after =>
      Alike device after (FileOp.Copies caller path) ∧
      ∃ sd, after.toMedia = device.toMedia.setDisk .sd sd ∧
        Copied (env.fate device) caller path device.toMedia outcome sd := by
  have begins : Alike device (device.push (.read .flash path)) (FileOp.Copies caller path) :=
    .push device _ (.inl rfl)
  cases stored : device.flash.get path with
  | none =>
      have ran : read env .flash path device = _ := read_missing stored
      by_cases cut : (env.fate device (.read .flash path)).isCut = true
      · rw [if_pos cut] at ran
        exact Holds.bind_off ran ⟨begins, device.sd, rfl, .missing stored (by rw [if_pos cut])⟩
      · rw [if_neg cut] at ran
        exact Holds.bind_raised ran ⟨begins, device.sd, rfl, .missing stored (by rw [if_neg cut])⟩
  | some data =>
      cases fate : env.fate device (.read .flash path) with
      | raise =>
          refine Holds.bind_raised (fileOp_raise fate)
            ⟨begins, device.sd, rfl, .stopped stored .raised ?_⟩
          rw [copyFaults, fate]
          rfl
      | cut left =>
          refine Holds.bind_off (fileOp_cut fate)
            ⟨begins, device.sd, rfl, .stopped stored (.cut left) ?_⟩
          rw [copyFaults, fate]
          rfl
      | none => exact copyFile_found caller present stored fate

/-- A copy stops at an `OSError` only. -/
theorem Copied.osError {fate : FileOp → Fault} {caller : Option Caller} {path : Path}
    {before : Media} {exn : Exn} {sd : Medium}
    (copied : Copied fate caller path before (.raised exn) sd) : exn = .osError := by
  cases copied with
  | missing absent ended =>
      split at ended <;> cases ended
      rfl
  | stopped stored stops cause =>
      cases stops
      rfl
  | torn stored opened nonempty stops cause =>
      cases stops
      rfl

/-- A copy leaves the other files. -/
theorem Copied.get_of_ne {fate : FileOp → Fault} {caller : Option Caller} {path other : Path}
    {before : Media} {outcome : Outcome Exn Unit} {sd : Medium}
    (copied : Copied fate caller path before outcome sd) (different : other ≠ path) :
    sd.get other = before.sd.get other := by
  cases copied with
  | missing => rfl
  | stopped => rfl
  | torn => exact Medium.get_put_of_ne different _
  | done => exact Medium.get_put_of_ne different _

/-- What the mirror does not have is not copied. -/
theorem Copied.get_of_absent {fate : FileOp → Fault} {caller : Option Caller} {path other : Path}
    {before : Media} {outcome : Outcome Exn Unit} {sd : Medium}
    (copied : Copied fate caller path before outcome sd) (absent : before.flash.get other = none) :
    sd.get other = before.sd.get other := by
  by_cases same : other = path
  · subst same
    cases copied with
    | missing => rfl
    | stopped => rfl
    | torn stored => exact absurd (absent.symm.trans stored) nofun
    | done stored => exact absurd (absent.symm.trans stored) nofun
  · exact copied.get_of_ne same

/-- A copy leaves the directories. -/
theorem Copied.hasDir {fate : FileOp → Fault} {caller : Option Caller} {path : Path}
    {before : Media} {outcome : Outcome Exn Unit} {sd : Medium}
    (copied : Copied fate caller path before outcome sd) (dir : Dir) :
    sd.hasDir dir = before.sd.hasDir dir := by
  cases copied with
  | missing => rfl
  | stopped => rfl
  | torn => exact Medium.hasDir_put _ _ _
  | done => exact Medium.hasDir_put _ _ _

/-- The file of the card is the one of the mirror, if the mirror has one. -/
def Matches (flash sd : Medium) (path : Path) : Prop :=
  ∀ data, flash.get path = some data → sd.get path = some data

/-- The faults of one copy leave the card as if there were none: nothing is cut, and a
copy that raises before it opens the file finds the same content there already. -/
def CopyFine (fate : FileOp → Fault) (caller : Option Caller) (path : Path) (media : Media) :
    Prop :=
  match media.flash.get path with
  | none => (fate (.read .flash path)).isCut = false
  | some data =>
      match firstFault (copyFaults fate caller path) with
      | .none => data = [] ∨ fate (.write .sd path) = .none
      | .raise => media.sd.get path = some data
      | .cut _ => False

/-- Whether a copy goes well depends on its own operations and its file. -/
theorem CopyFine.congr {first second : FileOp → Fault} {caller : Option Caller} {path : Path}
    {before after : Media} (fates : ∀ op : FileOp, op.Copies caller path → first op = second op)
    (flash : after.flash = before.flash) (sd : after.sd.get path = before.sd.get path) :
    CopyFine first caller path before ↔ CopyFine second caller path after := by
  unfold CopyFine
  rw [copyFaults_congr fates, fates _ (.inl rfl), fates _ (.inr (.inr (.inr rfl))), flash, sd]

/-- A copy returns, with the file as on flash, exactly when it goes well. -/
theorem Copied.fine_iff {fate : FileOp → Fault} {caller : Option Caller} {path : Path}
    {before : Media} {outcome : Outcome Exn Unit} {sd : Medium}
    (copied : Copied fate caller path before outcome sd) :
    (swallow outcome = .ok () ∧ Matches before.flash sd path) ↔
      CopyFine fate caller path before := by
  unfold Matches CopyFine
  cases copied with
  | missing absent ended =>
      rw [ended]
      cases (fate (.read .flash path)).isCut <;> simp [absent, swallow]
  | stopped stored stops cause =>
      simp only [stored, cause]
      cases stops <;> simp [swallow]
  | torn stored opened nonempty stops cause =>
      simp only [stored, opened, cause]
      cases stops with
      | raised => simp [nonempty]
      | cut left => simp [swallow, nonempty]
  | @done data stored opened written =>
      simp only [stored, opened]
      by_cases empty : data = []
      · simp [swallow, empty]
      · simp [swallow, written empty]

/-- The faults of the loop over the secrets leave the card as if there were none. -/
def SecretsFine (fate : FileOp → Fault) (media : Media) : List Text → Prop
  | [] => True
  | name :: rest =>
      match firstFault (copyFaults fate none (.secretFile name)) with
      | .none =>
          (media.flash.get (.secretFile name) = some [] ∨
            fate (.write .sd (.secretFile name)) = .none) ∧ SecretsFine fate media rest
      | .raise => ∀ other ∈ name :: rest, Matches media.flash media.sd (.secretFile other)
      | .cut _ => False

/-- The condition of the loop depends on the fates of its own operations and on its own
files only. -/
theorem SecretsFine.congr {first second : FileOp → Fault} {before after : Media}
    (names : List Text)
    (fates : ∀ name ∈ names, ∀ op : FileOp, op.Copies none (.secretFile name) →
      first op = second op)
    (flash : after.flash = before.flash)
    (sd : ∀ name ∈ names, after.sd.get (.secretFile name) = before.sd.get (.secretFile name)) :
    SecretsFine first before names ↔ SecretsFine second after names := by
  induction names with
  | nil => exact Iff.rfl
  | cons name rest ih =>
      have own := fates name List.mem_cons_self
      have faults := copyFaults_congr own
      have writing := own (.write .sd (.secretFile name)) (.inr (.inr (.inr rfl)))
      have later := ih (fun other member => fates other (List.mem_cons_of_mem _ member))
        fun other member => sd other (List.mem_cons_of_mem _ member)
      have same : ∀ other ∈ name :: rest, Matches before.flash after.sd (.secretFile other) ↔
          Matches before.flash before.sd (.secretFile other) := by
        intro other member
        rw [Matches, Matches, sd other member]
      unfold SecretsFine
      rw [faults, writing, flash, later]
      split
      · exact Iff.rfl
      · exact forall₂_congr fun other member => (same other member).symm
      · exact Iff.rfl

/-- The operations of the loop over the secrets. -/
def FileOp.CopiesSecrets (names : List Text) (op : FileOp) : Prop :=
  ∃ name ∈ names, op.Copies none (.secretFile name)

/-- The loop over the secrets of the mirror. -/
structure Looped (env : Env) (names : List Text) (before : Device) (outcome : Outcome Exn Unit)
    (after : Device) : Prop where
  alike : Alike before after (FileOp.CopiesSecrets names)
  flash : after.flash = before.flash
  others : ∀ path, (∀ name ∈ names, path ≠ .secretFile name) →
    after.sd.get path = before.sd.get path
  osError : ∀ exn, outcome = .raised exn → exn = .osError
  fine_iff : (swallow outcome = .ok () ∧
    ∀ name ∈ names, Matches before.flash after.sd (.secretFile name)) ↔
      SecretsFine (env.fate before) before.toMedia names

/-- A copy without a mount reads flash and opens and writes the file on the card. -/
theorem FileOp.Copies.of_none {op : FileOp} {path : Path} (copies : op.Copies none path) :
    op = .read .flash path ∨ op = .openWrite .sd path ∨ op = .write .sd path := by
  rcases copies with same | ⟨_, unmounted, _⟩ | same | same
  · exact .inl same
  · cases unmounted
  · exact .inr (.inl same)
  · exact .inr (.inr same)

private theorem copies_inj {path other : Path} {op : FileOp} (first : op.Copies none path)
    (second : op.Copies none other) : path = other := by
  rcases first.of_none with rfl | rfl | rfl
  all_goals
    rcases second.of_none with same | same | same
    all_goals first | (cases same; rfl) | cases same

/-- A copy that does not return ends the loop. -/
theorem Looped.of_failed {name : Text} {rest : List Text} {device after : Device}
    {outcome : Outcome Exn Unit} {sd : Medium} (failed : outcome ≠ .ok ())
    (stored : device.flash.get (.secretFile name) ≠ none)
    (alike : Alike device after (FileOp.Copies none (.secretFile name)))
    (media : after.toMedia = device.toMedia.setDisk .sd sd)
    (copied : Copied (env.fate device) none (.secretFile name) device.toMedia outcome sd) :
    Looped env (name :: rest) device outcome after := by
  refine ⟨alike.mono fun op copies => ⟨name, List.mem_cons_self, copies⟩, by rw [media]; rfl,
    fun path outside => ?_, ?_, ?_⟩
  · rw [media]
    exact copied.get_of_ne (outside name List.mem_cons_self)
  · rintro exn rfl
    exact copied.osError
  · rw [show after.sd = sd by rw [media]; rfl]
    unfold SecretsFine
    cases copied with
    | missing absent => exact absurd absent stored
    | stopped held stops cause =>
        rw [cause]
        cases stops <;> simp [swallow]
    | torn held opened nonempty stops cause =>
        rw [opened, cause]
        cases stops <;> simp [swallow, held, nonempty, Matches]
    | done => exact absurd rfl failed

/-- A copy that returns, and the loop over the other secrets. -/
theorem Looped.cons {name : Text} {rest : List Text} {device middle after : Device} {data : Bytes}
    {outcome : Outcome Exn Unit} (fresh : name ∉ rest)
    (alike : Alike device middle (FileOp.Copies none (.secretFile name)))
    (flash : middle.flash = device.flash)
    (card : middle.sd = device.sd.put (.secretFile name) data)
    (stored : device.flash.get (.secretFile name) = some data)
    (opened : firstFault (copyFaults (env.fate device) none (.secretFile name)) = .none)
    (written : data ≠ [] → env.fate device (.write .sd (.secretFile name)) = .none)
    (looped : Looped env rest middle outcome after) :
    Looped env (name :: rest) device outcome after := by
  have different : ∀ other ∈ rest, Path.secretFile other ≠ .secretFile name := by
    rintro other member same
    cases same
    exact fresh member
  have covers : Alike device middle (FileOp.CopiesSecrets (name :: rest)) :=
    alike.mono fun op copies => ⟨name, List.mem_cons_self, copies⟩
  refine ⟨covers.trans (looped.alike.mono ?_), looped.flash.trans flash, ?_, looped.osError, ?_⟩
  · rintro op ⟨other, member, copies⟩
    exact ⟨other, List.mem_cons_of_mem _ member, copies⟩
  · intro path outside
    rw [looped.others path fun other member => outside other (List.mem_cons_of_mem _ member),
      card, Medium.get_put_of_ne (outside name List.mem_cons_self)]
  · have kept : after.sd.get (.secretFile name) = some data := by
      rw [looped.others _ fun other member same => different other member same.symm, card,
        Medium.get_put_self]
    have own : Matches device.flash after.sd (.secretFile name) := by
      intro content held
      rw [stored] at held
      cases held
      exact kept
    have later : SecretsFine (env.fate device) device.toMedia rest ↔
        SecretsFine (env.fate middle) middle.toMedia rest := by
      refine SecretsFine.congr rest (fun other member op copies => ?_) flash
        fun other member => ?_
      · refine (alike.fate env fun own => different other member ?_).symm
        exact copies_inj copies own
      · rw [card, Medium.get_put_of_ne (different other member)]
    have first : device.flash.get (.secretFile name) = some [] ∨
        env.fate device (.write .sd (.secretFile name)) = .none := by
      by_cases empty : data = []
      · exact .inl (by rw [stored, empty])
      · exact .inr (written empty)
    have rest_iff := looped.fine_iff
    rw [flash] at rest_iff
    unfold SecretsFine
    rw [opened, List.forall_mem_cons, later, ← rest_iff]
    simp only [own, first, true_and]

private theorem restoreSecrets_looped (names : List Text) (distinct : names.Nodup) (device : Device)
    (present : device.sd.hasDir .secrets = true)
    (mirrored : ∀ name ∈ names, device.flash.get (.secretFile name) ≠ none) :
    Holds (names.forM (restoreSecret env)) device (Looped env names device) := by
  induction names generalizing device with
  | nil => exact ⟨.refl device _, rfl, fun _ _ => rfl, nofun, by simp [swallow, SecretsFine]⟩
  | cons name rest ih =>
      obtain ⟨fresh, distinct⟩ := List.nodup_cons.mp distinct
      have stored := mirrored name List.mem_cons_self
      refine Holds.bind (copyFile_copied none (.secretFile name) device present) ?_ ?_ ?_
      · rintro _ middle ⟨alike, sd, media, copied⟩
        cases copied with
        | missing absent => exact absurd absent stored
        | stopped held stops cause => cases stops
        | torn held opened nonempty stops cause => cases stops
        | @done data held opened written =>
            have flash : middle.flash = device.flash := by rw [media]; rfl
            have card : middle.sd = device.sd.put (.secretFile name) data := by rw [media]; rfl
            refine (ih distinct middle ?_ ?_).mono ?_
            · rw [card, Medium.hasDir_put]
              exact present
            · intro other member
              rw [flash]
              exact mirrored other (List.mem_cons_of_mem _ member)
            · exact fun outcome after looped =>
                .cons fresh alike flash card held opened written looped
      · rintro exn after ⟨alike, sd, media, copied⟩
        exact .of_failed nofun stored alike media copied
      · rintro after ⟨alike, sd, media, copied⟩
        exact .of_failed nofun stored alike media copied

/-- The raising operations of a restore: the reads of flash, and the mounts and writes of
the card. -/
def FileOp.Restores : FileOp → Prop
  | .mount _ => True
  | .read .flash _ => True
  | .listSecrets .flash => True
  | .openWrite .sd _ => True
  | .write .sd _ => True
  | _ => False

/-- Only reads of flash and writes of the card raise; the power may be cut anywhere. -/
def Env.RestoreRaises (env : Env) : Prop := ∀ op count, env.fault op count = .raise → op.Restores

/-- The operations that make a directory of the card where it is missing. -/
def dirOps (sd : Medium) (dir : Dir) : List FileOp :=
  .statDir .sd dir :: if sd.hasDir dir then [] else [.mkdir .sd dir]

/-- What making a directory of the card does, when that does not raise. -/
structure Ensured (env : Env) (dir : Dir) (before : Device) (outcome : Outcome Exn Unit)
    (after : Device) : Prop where
  prepared : Prepared .sd before after
  others : ∀ other, other ≠ dir → after.sd.hasDir other = before.sd.hasDir other
  count : ∀ op, op ≠ .mkdir .sd dir → after.trace.count op =
    (FileOp.statDir .sd dir :: before.trace).count op
  present : outcome = .ok () → after.sd.hasDir dir = true
  not_raised : ∀ exn, outcome ≠ .raised exn
  ok_iff : outcome = .ok () ↔ firstFault ((dirOps before.sd dir).map (env.fate before)) = .none

private theorem hasDir_addDir_of_ne (medium : Medium) {dir other : Dir} (different : other ≠ dir) :
    (medium.addDir dir).hasDir other = medium.hasDir other := by
  cases dir <;> cases other <;> first | rfl | exact absurd rfl different

private theorem ensureDir_ensured (raises : env.RestoreRaises) (dir : Dir) (device : Device)
    (parent : dir = .secrets → device.sd.hasDir .vault = true) :
    Holds (ensureDir env .sd dir) device (Ensured env dir device) := by
  let looked := device.push (.statDir .sd dir)
  have start : Prepared .sd device looked := .push .sd device _
  cases fate : env.fate device (.statDir .sd dir) with
  | raise => exact (raises _ _ fate).elim
  | cut left =>
      have ran : ensureDir env .sd dir device = (.off, looked) := tryExcept_off (fileOp_cut fate)
      unfold Holds
      rw [ran]
      refine ⟨start, fun _ _ => rfl, fun _ _ => rfl, by simp, by simp, ?_⟩
      simp [dirOps, fate, firstFault]
  | none =>
      cases found : device.sd.hasDir dir with
      | true =>
          have ran : ensureDir env .sd dir device = (.ok (), looked) := by
            refine tryExcept_ok ((fileOp_none fate).trans ?_)
            simp only [push_toMedia, Media.disk, found, ↓reduceIte]
            rfl
          unfold Holds
          rw [ran]
          refine ⟨start, fun _ _ => rfl, fun _ _ => rfl, fun _ => found, by simp, ?_⟩
          simp [dirOps, fate, found, firstFault]
      | false =>
          have missed : statDir env .sd dir device = (.raised .osError, looked) := by
            refine (fileOp_none fate).trans ?_
            simp only [push_toMedia, Media.disk, found, Bool.false_eq_true, ↓reduceIte]
            rfl
          have handled : ensureDir env .sd dir device = mkdir env .sd dir looked :=
            tryExcept_raised missed
          have unmade : env.fate looked (.mkdir .sd dir) = env.fate device (.mkdir .sd dir) :=
            congrArg (env.fault _) (List.count_cons_of_ne (by simp))
          have counted : ∀ op, op ≠ .mkdir .sd dir →
              (looked.push (.mkdir .sd dir)).trace.count op =
                (FileOp.statDir .sd dir :: device.trace).count op := fun op other =>
            List.count_cons_of_ne (Ne.symm other)
          unfold Holds
          rw [handled]
          cases making : env.fate looked (.mkdir .sd dir) with
          | raise => exact (raises _ _ making).elim
          | cut left =>
              rw [show mkdir env .sd dir looked = (.off, looked.push (.mkdir .sd dir)) from
                fileOp_cut making]
              refine ⟨start.trans (.push .sd looked _), fun _ _ => rfl,
                counted, by simp, by simp, ?_⟩
              simp [dirOps, fate, found, firstFault, ← unmade, making]
          | none =>
              have ran : mkdir env .sd dir looked =
                  (.ok (), (looked.push (.mkdir .sd dir)).setDisk .sd (device.sd.addDir dir)) := by
                refine (fileOp_none making).trans ?_
                have allowed : ¬ (device.sd.hasDir dir = true ∨
                    (dir = .secrets ∧ ¬ device.sd.hasDir .vault = true)) := by
                  rintro (there | ⟨same, missing⟩)
                  · rw [found] at there
                    cases there
                  · exact missing (parent same)
                exact if_neg allowed
              have made : Holds (mkdir env .sd dir) looked _ := mkdir_holds .sd dir looked
              unfold Holds at made
              rw [ran] at made ⊢
              refine ⟨start.trans made.1, fun other different => ?_, counted,
                fun _ => made.2 rfl, by simp, ?_⟩
              · exact hasDir_addDir_of_ne device.sd different
              · simp [dirOps, fate, found, firstFault, ← unmade, making]

/-- Operations have no fault exactly when neither part of them has. -/
theorem firstFault_append_eq_none {first second : List Fault} :
    firstFault (first ++ second) = .none ↔
      firstFault first = .none ∧ firstFault second = .none := by
  by_cases clean : firstFault first = .none
  · rw [firstFault_append clean]
    simp [clean]
  · rw [firstFault_append_of_ne clean]
    simp [clean]

/-- The fates once the directories of the card were looked for. -/
def Env.later (env : Env) (device : Device) : FileOp → Fault
  | .statDir .sd dir => env.fault (.statDir .sd dir) (device.trace.count (.statDir .sd dir) + 1)
  | op => env.fate device op

/-- What making both directories of the card does, when that does not raise. -/
structure DirsEnsured (env : Env) (before : Device) (outcome : Outcome Exn Unit) (after : Device) :
    Prop where
  prepared : Prepared .sd before after
  count : outcome = .ok () → ∀ op, (∀ dir, op ≠ .mkdir .sd dir) → after.trace.count op =
    (FileOp.statDir .sd .secrets :: FileOp.statDir .sd .vault :: before.trace).count op
  ready : outcome = .ok () → after.sd.Ready
  not_raised : ∀ exn, outcome ≠ .raised exn
  ok_iff : outcome = .ok () ↔ firstFault
    ((dirOps before.sd .vault ++ dirOps before.sd .secrets).map (env.fate before)) = .none

/-- Making directories leaves the fates of all other operations. -/
theorem DirsEnsured.fate {before after : Device} (ensured : DirsEnsured env before (.ok ()) after)
    {op : FileOp} (unmade : ∀ dir, op ≠ .mkdir .sd dir) :
      env.fate after op = env.later before op := by
  have counted := ensured.count rfl op unmade
  have other : (∀ dir, op ≠ .statDir .sd dir) → env.fate after op = env.fate before op := by
    intro unlooked
    rw [Env.fate, Env.fate, counted, List.count_cons_of_ne (unlooked .secrets).symm,
      List.count_cons_of_ne (unlooked .vault).symm]
  unfold Env.later
  split
  · rename_i dir
    rw [Env.fate, counted]
    cases dir <;> simp
  · rename_i unlooked
    exact other unlooked

/-- The directories are made on the card, or making them raised. -/
theorem ensureDirs_ensured (raises : env.RestoreRaises) (device : Device) :
    Holds (ensureDirs env .sd) device (DirsEnsured env device) := by
  have stopped : ∀ {outcome after}, outcome ≠ .ok () → Ensured env .vault device outcome after →
      DirsEnsured env device outcome after := by
    intro outcome after failed first
    refine ⟨first.prepared, fun done => absurd done failed, fun done => absurd done failed,
      first.not_raised, ?_⟩
    rw [List.map_append, firstFault_append_eq_none, ← first.ok_iff]
    simp [failed]
  refine Holds.bind (ensureDir_ensured raises .vault device (by simp)) ?_ ?_ ?_
  · intro _ middle first
    have made := first.present rfl
    refine (ensureDir_ensured raises .secrets middle fun _ => made).mono ?_
    intro outcome after second
    have sameOps : dirOps middle.sd .secrets = dirOps device.sd .secrets := by
      rw [dirOps, dirOps, first.others .secrets (by simp)]
    have sameFates : (dirOps device.sd .secrets).map (env.fate middle) =
        (dirOps device.sd .secrets).map (env.fate device) := by
      refine List.map_congr_left fun op member => ?_
      have named : op = .statDir .sd .secrets ∨ op = .mkdir .sd .secrets := by
        unfold dirOps at member
        split at member <;> simp at member
        · exact .inl member
        · exact member
      rw [Env.fate, Env.fate, first.count op (by rcases named with rfl | rfl <;> simp),
        List.count_cons_of_ne (by rcases named with rfl | rfl <;> simp)]
    refine ⟨first.prepared.trans second.prepared, fun _ op other => ?_, fun done => ?_,
      second.not_raised, ?_⟩
    · rw [second.count op (other .secrets), List.count_cons, first.count op (other .vault),
        List.count_cons, List.count_cons, List.count_cons]
    · exact ⟨second.prepared.hasDir .vault made, second.present done⟩
    · rw [second.ok_iff, sameOps, sameFates, List.map_append, firstFault_append_eq_none,
        ← first.ok_iff]
      simp
  · exact fun exn after first => stopped (by simp) first
  · exact fun after first => stopped (by simp) first

/-- The secrets of a medium are in its directory of secrets. -/
def Medium.Housed (medium : Medium) : Prop :=
  medium.hasDir .secrets = false → ∀ name, medium.get (.secretFile name) = none

private theorem nodup_secretNames (medium : Medium) : medium.secretNames.Nodup := by
  refine List.Nodup.filterMap ?_ medium.files.nodupKeys
  intro first second name firstNamed secondNamed
  cases first <;> simp at firstNamed
  cases second <;> simp at secondNamed
  rw [firstNamed, secondNamed]

private theorem matches_secretNames_iff {flash sd : Medium} :
    (∀ name ∈ flash.secretNames, Matches flash sd (.secretFile name)) ↔
      ∀ name, Matches flash sd (.secretFile name) := by
  constructor
  · intro listed name data stored
    refine listed name ((Medium.mem_secretNames name).mpr ?_) data stored
    rw [stored]
    rfl
  · exact fun all name _ => all name

/-- What is asked of the operations after a fault: after a cut nothing helps, and an
exception must find the secrets of the mirror on the card already. -/
def AfterFault (fault : Fault) (continues : Prop) (media : Media) : Prop :=
  match fault with
  | .none => continues
  | .raise => ∀ name, Matches media.flash media.sd (.secretFile name)
  | .cut _ => False

/-- The faults before the loop over the secrets, once the mirror is to be listed: when it
has a directory of secrets, the card is mounted. -/
def listFaults (fate : FileOp → Fault) (flash : Medium) : List Fault :=
  fate (.listSecrets .flash) ::
    if flash.hasDir .secrets then [fate (.mount .restoreSecrets)] else []

/-- The faults of the restoring of the secrets leave the card as if there were none. -/
def GroupFine (fate : FileOp → Fault) (media : Media) : Prop :=
  AfterFault (firstFault ([fate (.statDir .sd .vault), fate (.statDir .sd .secrets)] ++
    listFaults fate media.flash)) (SecretsFine fate media media.flash.secretNames) media

/-- The restoring of the secrets, or the rest of it. -/
structure SecretsRestored (fine : Prop) (before : Device) (outcome : Outcome Exn Unit)
    (after : Device) : Prop where
  flash : after.flash = before.flash
  others : ∀ path, (∀ name, path = .secretFile name → before.flash.get path = none) →
    after.sd.get path = before.sd.get path
  osError : ∀ exn, outcome = .raised exn → exn = .osError
  fine_iff : (swallow outcome = .ok () ∧ ∀ name, Matches before.flash after.sd (.secretFile name)) ↔
    fine

namespace SecretsRestored

variable {before middle after : Device} {outcome : Outcome Exn Unit}

/-- A restoring that stops before its loop. -/
theorem of_stopped {fault : Fault} {continues : Prop} (flash : after.flash = before.flash)
    (get : ∀ path, after.sd.get path = before.sd.get path) (stops : Stops fault outcome) :
    SecretsRestored (AfterFault fault continues before.toMedia) before outcome after := by
  refine ⟨flash, fun path _ => get path, ?_, ?_⟩
  · rintro exn rfl
    cases stops
    rfl
  · unfold AfterFault Matches
    simp only [get]
    cases stops <;> simp [swallow]

/-- What only looks at the media before a restoring is part of it. -/
theorem of_same {fine now : Prop} (restored : SecretsRestored now middle outcome after)
    (flash : middle.flash = before.flash) (get : ∀ path, middle.sd.get path = before.sd.get path)
    (same : now ↔ fine) :
    SecretsRestored fine before outcome after := by
  refine ⟨restored.flash.trans flash, fun path outside => ?_, restored.osError, ?_⟩
  · exact (restored.others path fun name same => flash ▸ outside name same).trans (get path)
  · rw [← same, ← restored.fine_iff, flash]

end SecretsRestored

private theorem AfterFault.congr {fault : Fault} {first second : Prop} {before after : Media}
    (same : first ↔ second) (flash : after.flash = before.flash)
    (get : ∀ path, after.sd.get path = before.sd.get path) :
    AfterFault fault first after ↔ AfterFault fault second before := by
  unfold AfterFault Matches
  simp only [flash, get, same]

/-- The mount and the loop of the restoring of the secrets. -/
theorem mountAndLoop_restored (device : Device) (present : device.sd.hasDir .secrets = true) :
    Holds (do
      mount env .restoreSecrets
      device.flash.secretNames.forM (restoreSecret env)) device
      (SecretsRestored (AfterFault (env.fate device (.mount .restoreSecrets))
        (SecretsFine (env.fate device) device.toMedia device.flash.secretNames) device.toMedia)
        device) := by
  have mounts : Alike device (device.push (.mount .restoreSecrets)) (· = .mount .restoreSecrets) :=
    .push device _ rfl
  cases fate : env.fate device (.mount .restoreSecrets) with
  | raise =>
      exact Holds.bind_raised (fileOp_raise fate) (.of_stopped rfl (fun _ => rfl) .raised)
  | cut left =>
      exact Holds.bind_off (fileOp_cut fate) (.of_stopped rfl (fun _ => rfl) (.cut left))
  | none =>
      refine Holds.bind_ok (fileOp_none fate) ?_
      refine (restoreSecrets_looped _ (nodup_secretNames _) (device.push (.mount .restoreSecrets))
        present ?_).mono ?_
      · intro name member
        exact Option.isSome_iff_ne_none.mp ((Medium.mem_secretNames name).mp member)
      · intro outcome after looped
        have same : SecretsFine (env.fate device) device.toMedia device.flash.secretNames ↔
            SecretsFine (env.fate (device.push (.mount .restoreSecrets))) device.toMedia
              device.flash.secretNames := by
          refine SecretsFine.congr _ (fun name _ op copies => (mounts.fate env ?_).symm) rfl
            fun _ _ => rfl
          rcases copies.of_none with rfl | rfl | rfl <;> exact nofun
        have fine : (swallow outcome = .ok () ∧ ∀ name ∈ device.flash.secretNames,
            Matches device.flash after.sd (.secretFile name)) ↔ _ := looped.fine_iff
        rw [matches_secretNames_iff] at fine
        refine ⟨looped.flash, fun path outside => looped.others path ?_, looped.osError,
          fine.trans same.symm⟩
        rintro name member rfl
        have held := (Medium.mem_secretNames name).mp member
        rw [outside name rfl] at held
        cases held

/-- The restoring of the secrets, once the card has its directories. -/
theorem listAndCopy_restored (device : Device) (present : device.sd.hasDir .secrets = true)
    (housed : device.flash.Housed) :
    Holds (do
      let secrets ← listSecrets env .flash
      mount env .restoreSecrets
      secrets.forM (restoreSecret env)) device
      (SecretsRestored (AfterFault (firstFault (listFaults (env.fate device) device.flash))
        (SecretsFine (env.fate device) device.toMedia device.flash.secretNames) device.toMedia)
        device) := by
  let listed := device.push (.listSecrets .flash)
  have lists : Alike device listed (· = .listSecrets .flash) := .push device _ rfl
  cases fate : env.fate device (.listSecrets .flash) with
  | raise =>
      rw [listFaults, fate]
      exact Holds.bind_raised (fileOp_raise fate) (.of_stopped rfl (fun _ => rfl) .raised)
  | cut left =>
      rw [listFaults, fate]
      exact Holds.bind_off (fileOp_cut fate) (.of_stopped rfl (fun _ => rfl) (.cut left))
  | none =>
      rw [listFaults, fate]
      cases found : device.flash.hasDir .secrets with
      | false =>
          have ran : listSecrets env .flash device = (.raised .osError, listed) := by
            refine (fileOp_none fate).trans ?_
            simp only [push_toMedia, Media.disk, found, Bool.false_eq_true, ↓reduceIte]
            rfl
          have absent := housed found
          have empty : device.flash.secretNames = [] := by
            refine List.eq_nil_iff_forall_not_mem.mpr fun name member => ?_
            have held := (Medium.mem_secretNames name).mp member
            rw [absent name] at held
            cases held
          refine Holds.bind_raised ran ⟨rfl, fun _ _ => rfl, ?_, ?_⟩
          · intro exn same
            cases same
            rfl
          · simp [AfterFault, firstFault, empty, SecretsFine, swallow, Matches, absent]
      | true =>
          have ran : listSecrets env .flash device = (.ok device.flash.secretNames, listed) := by
            refine (fileOp_none fate).trans ?_
            simp only [push_toMedia, Media.disk, found, ↓reduceIte]
            rfl
          have mountFate : env.fate listed (.mount .restoreSecrets) =
              env.fate device (.mount .restoreSecrets) := lists.fate env (by simp)
          have same : SecretsFine (env.fate listed) device.toMedia device.flash.secretNames ↔
              SecretsFine (env.fate device) device.toMedia device.flash.secretNames := by
            refine SecretsFine.congr _ (fun name _ op copies => lists.fate env ?_) rfl fun _ _ =>
              rfl
            rcases copies.of_none with rfl | rfl | rfl <;> simp
          refine Holds.bind_ok ran ((mountAndLoop_restored listed present).mono ?_)
          intro outcome after restored
          refine restored.of_same rfl (fun _ => rfl) ?_
          rw [mountFate]
          have single : firstFault [env.fate device (.mount .restoreSecrets)] =
              env.fate device (.mount .restoreSecrets) := by
            cases env.fate device (.mount .restoreSecrets) <;> rfl
          rw [if_pos rfl, firstFault, single]
          exact AfterFault.congr same rfl fun _ => rfl

/-- What the restoring of the secrets does on a card with its directories. -/
theorem restoreSecrets_restored (raises : env.RestoreRaises) (device : Device)
    (ready : device.sd.Ready) (housed : device.flash.Housed) :
    Holds (restoreSecrets env) device
      (SecretsRestored (GroupFine (env.fate device) device.toMedia) device) := by
  have looks : (dirOps device.sd .vault ++ dirOps device.sd .secrets).map (env.fate device) =
      [env.fate device (.statDir .sd .vault), env.fate device (.statDir .sd .secrets)] := by
    simp [dirOps, ready.hasDir]
  refine Holds.bind (ensureDirs_ensured raises device) ?_ ?_ ?_
  · intro _ looked ensured
    have clean := ensured.ok_iff.mp rfl
    rw [looks] at clean
    have flash : looked.flash = device.flash := ensured.prepared.other .flash nofun
    have fates : ∀ op : FileOp, (∀ dir, op ≠ .mkdir .sd dir) →
        env.fate looked op = env.later device op := fun op unmade => ensured.fate unmade
    refine (listAndCopy_restored looked ((ensured.ready rfl).hasDir .secrets) (flash ▸ housed)).mono
      ?_
    intro outcome after restored
    refine restored.of_same flash ensured.prepared.get ?_
    rw [GroupFine, firstFault_append clean, flash, listFaults, listFaults,
      fates (.listSecrets .flash) nofun, fates (.mount .restoreSecrets) nofun]
    refine AfterFault.congr (SecretsFine.congr _ (fun name _ op copies => ?_) flash.symm
      fun name _ => (ensured.prepared.get _).symm) flash ensured.prepared.get
    rcases copies.of_none with rfl | rfl | rfl <;> exact fates _ nofun
  · exact fun exn after ensured => absurd rfl (ensured.not_raised exn)
  · intro after ensured
    have hit : firstFault [env.fate device (.statDir .sd .vault),
        env.fate device (.statDir .sd .secrets)] ≠ .none := by
      rw [← looks, Ne, ← ensured.ok_iff]
      exact nofun
    rw [GroupFine, firstFault_append_of_ne hit]
    refine .of_stopped (ensured.prepared.other .flash nofun) ensured.prepared.get ?_
    have member := firstFault_mem hit
    generalize firstFault [env.fate device (.statDir .sd .vault),
      env.fate device (.statDir .sd .secrets)] = fault at hit member ⊢
    cases fault with
    | none => exact absurd rfl hit
    | raise =>
        rcases List.mem_cons.mp member with raised | raised
        · exact (raises _ _ raised.symm).elim
        · exact (raises _ _ (List.mem_singleton.mp raised).symm).elim
    | cut left => exact .cut left

end VaultSeed.Vault
