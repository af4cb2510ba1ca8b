/-
  WritersProof.SealedIdentity.Authentic

  Which blobs are unsealed when somebody else writes to the file
  (crates/cpoe/src/sealed_identity/store.rs).

  A history is made of operations and of files that are put in the place of the store's own.  An
  HMAC cannot be forged: where a file that is put there has a blob with a valid HMAC, the store has
  written this blob before.  Blobs without an HMAC are accepted as they are.
-/
import WritersProof.SealedIdentity.Ratchet

namespace WritersProof.SealedIdentity

open Rust KeyHierarchy

/-! ## Writes -/

section Writes

variable {C : Crates} {p : Platform}

/-- The file is as it was, or was written by `persist_blob`. -/
def Wrote (C : Crates) (p : Platform) (file file' : Option Bytes) : Prop :=
  file' = file ∨ ∃ blob, file' = some (C.toVecPretty (signedBlob C p blob))

/-- A call changes the file by `persist_blob` or not at all. -/
def OnlyPersists {α : Type} (C : Crates) (p : Platform)
    (x : Call (Option Bytes) SealedIdentityError α) : Prop :=
  ∀ file, Wrote C p file (x file).2

theorem OnlyPersists.of_keeps {α : Type} {x : Call (Option Bytes) SealedIdentityError α}
    (h : ∀ file, (x file).2 = file) : OnlyPersists C p x := fun file => .inl (h file)

theorem OnlyPersists.bind {α β : Type} {x : Call (Option Bytes) SealedIdentityError α}
    {f : α → Call (Option Bytes) SealedIdentityError β} (hx : OnlyPersists C p x)
    (hf : ∀ a, OnlyPersists C p (f a)) : OnlyPersists C p (x >>= f) := by
  intro file
  have hfirst := hx file
  rw [Call.bind_apply]
  rcases hrun : x file with ⟨e | a, file₁⟩
  · rw [hrun] at hfirst
    exact hfirst
  · rw [hrun] at hfirst
    show Wrote C p file (f a file₁).2
    rcases hf a file₁ with hsame | hwrote
    · rw [hsame]
      exact hfirst
    · exact .inr hwrote

theorem onlyPersists_lift {α : Type} (r : Res SealedIdentityError α) :
    OnlyPersists C p (Call.lift r) := .of_keeps fun _ => rfl

theorem onlyPersists_loadBlob : OnlyPersists C p (loadBlob C p) := .of_keeps fun _ => loadBlob_state

theorem onlyPersists_persistBlob (blob : SealedBlob) : OnlyPersists C p (persistBlob C p blob) := by
  intro file
  rw [persistBlob]
  split
  · exact .inr ⟨blob, rfl⟩
  · exact .inl rfl

theorem onlyPersists_rejectRollback (current : Nat) (recorded : Option Nat) :
    OnlyPersists C p (rejectRollback current recorded) := by
  intro file
  rcases rejectRollback_cases current recorded file with ⟨h, -⟩ | ⟨_, h, -⟩
  · exact .inl (congrArg Prod.snd h)
  · exact .inl (congrArg Prod.snd h)

theorem onlyPersists_checkCounters (blob : SealedBlob) :
    OnlyPersists C p (checkCounters C p blob) := by
  have hratchet : ∀ current, OnlyPersists C p (ratchet C p blob current) := fun current =>
    (onlyPersists_persistBlob _).bind fun _ => onlyPersists_lift (.ok _)
  rw [checkCounters]
  split
  · split
    · exact (onlyPersists_rejectRollback _ _).bind fun _ =>
        (onlyPersists_rejectRollback _ _).bind fun _ => hratchet _
    · exact OnlyPersists.bind (.of_keeps (@Call.keeps_reject _ _ _ id _ _ _)) fun _ =>
        onlyPersists_lift (.ok _)
  · split
    · exact hratchet _
    · exact onlyPersists_lift (.ok _)

theorem onlyPersists_unsealMasterKey : OnlyPersists C p (unsealMasterKey C p) :=
  onlyPersists_loadBlob.bind fun blob => (onlyPersists_checkCounters blob).bind fun _ =>
    (onlyPersists_lift _).bind fun _ => onlyPersists_lift _

theorem onlyPersists_rederive (puf : PufProvider) : OnlyPersists C p (rederive C p puf) :=
  (onlyPersists_lift _).bind fun _ => (onlyPersists_persistBlob _).bind fun _ =>
    onlyPersists_lift (.ok _)

theorem onlyPersists_advanceCounter (newCounter : Nat) :
    OnlyPersists C p (advanceCounter C p newCounter) :=
  onlyPersists_loadBlob.bind fun _ => (onlyPersists_rejectRollback _ _).bind fun _ =>
    onlyPersists_persistBlob _

theorem onlyPersists_reseal (puf : PufProvider) : OnlyPersists C p (reseal C p puf) :=
  onlyPersists_loadBlob.bind fun _ => (onlyPersists_lift _).bind fun _ =>
    (onlyPersists_lift _).bind fun _ => (onlyPersists_lift _).bind fun _ =>
      onlyPersists_persistBlob _

end Writes

/-! ## Histories -/

inductive Event where
  | call (op : Op)
  | place (file : Option Bytes)

structure World where
  file : Option Bytes
  /-- The contents that `persist_blob` has written, in this order -/
  written : List Bytes

section Histories

variable (C : Crates)

/-- The new content of a file that was written -/
def change (file file' : Option Bytes) : List Bytes := if file' = file then [] else file'.toList

/-- The file between the two parts of `initialize` -/
def Op.midway : Op → Option Bytes → Option Bytes
  | .initializeStore before _ _, file =>
    if file.isSome ∧ before.visible then (SealedIdentity.unsealMasterKey C before file).2 else file
  | _, file => file

def Op.writes (op : Op) (file : Option Bytes) : List Bytes :=
  change file (op.midway C file) ++ change (op.midway C file) (op.run C file).2

def Event.step : Event → World → Option Reply × World
  | .call op, w =>
    let (reply, file) := op.run C w.file
    (some reply, ⟨file, w.written ++ op.writes C w.file⟩)
  | .place file, w => (none, ⟨file, w.written⟩)

def Op.platforms : Op → List Platform
  | .initializeStore before after _ => [before, after]
  | .unsealMasterKey p | .advanceCounter p _ | .reseal p _ => [p]

def Known (salts : Set Bytes) (written : List Bytes) (blob : SealedBlob) : Prop :=
  ∀ hmac, blob.integrityHmac = some hmac →
    (∃ salt ∈ salts, hmac = (C.hmac salt (hmacPayload C blob)).val) →
    ∃ data ∈ written, ∃ blob', C.fromSlice data = .ok blob'
      ∧ hmacPayload C blob' = hmacPayload C blob ∧ blob'.integrityHmac = some hmac

/-- The HMACs under the salts of the machine are not forged. -/
def Unforgeable (salts : Set Bytes) : Event → World → Prop
  | .call op, _ => ∀ p ∈ op.platforms, machineSalt C p ∈ salts
  | .place file, w => ∀ blob, storedBlob C file = some blob → Known C salts w.written blob

def Op.unsealing : Op → Option Platform
  | .initializeStore before _ _ => some before
  | .unsealMasterKey p => some p
  | _ => none

/-- A blob that is unsealed has no HMAC or was written by `persist_blob`, and the reading reaches
its
counters; only where it has one of them, there need not be a reading. -/
def Authentic : Event → World → Prop
  | .call op, w => ∀ p ∈ op.unsealing, ∀ key file',
    SealedIdentity.unsealMasterKey C p w.file = (.ok key, file') →
    ∃ blob, storedBlob C w.file = some blob
      ∧ (blob.integrityHmac = none
        ∨ C.toVecPretty blob ∈ w.written ∧ ∃ q blob', blob = signedBlob C q blob')
      ∧ (Met C p.counter w.file ∨ p.counter = none
        ∧ blob.counterAtSeal.isSome ≠ blob.lastKnownCounter.isSome)
  | .place _, _ => True

end Histories

section Results

variable {C : Crates} {salts : Set Bytes}

/-- The blob in the file is known, and what was written is signed. -/
structure Tracked (C : Crates) (salts : Set Bytes) (w : World) : Prop where
  known : ∀ blob, storedBlob C w.file = some blob → Known C salts w.written blob
  signed : ∀ data ∈ w.written, ∃ q blob, data = C.toVecPretty (signedBlob C q blob)

theorem tracked_start (C : Crates) (salts : Set Bytes) : Tracked C salts ⟨none, []⟩ :=
  ⟨(fun _ h => nomatch h), (fun _ h => nomatch h)⟩

theorem Tracked.wrote (hjson : C.ReadsBack) {p : Platform} {file file' : Option Bytes}
    {written : List Bytes} (h : Tracked C salts ⟨file, written⟩) (hwrote : Wrote C p file file') :
    Tracked C salts ⟨file', written ++ change file file'⟩ := by
  by_cases hsame : file' = file
  · rw [change, if_pos hsame, List.append_nil, hsame]
    exact h
  · obtain ⟨blob, rfl⟩ := hwrote.resolve_left hsame
    have hchange : change file (some (C.toVecPretty (signedBlob C p blob)))
        = [C.toVecPretty (signedBlob C p blob)] := if_neg hsame
    rw [hchange]
    refine ⟨fun stored hstored => ?_, fun data hdata => ?_⟩
    · rw [storedBlob, Option.bind_some, hjson.pretty] at hstored
      cases hstored
      intro hmac hhmac _
      exact ⟨_, List.mem_append_right _ (List.mem_singleton_self _), _, hjson.pretty _, rfl, hhmac⟩
    · rcases List.mem_append.mp hdata with hdata | hdata
      · exact h.signed data hdata
      · exact ⟨p, blob, List.mem_singleton.mp hdata⟩

theorem wrote_midway (op : Op) (file : Option Bytes) : ∃ p, Wrote C p file (op.midway C file) := by
  cases op with
  | initializeStore before after puf =>
    refine ⟨before, ?_⟩
    rw [Op.midway]
    split
    · exact onlyPersists_unsealMasterKey file
    · exact .inl rfl
  | unsealMasterKey p => exact ⟨p, .inl rfl⟩
  | advanceCounter p newCounter => exact ⟨p, .inl rfl⟩
  | reseal p puf => exact ⟨p, .inl rfl⟩

/-- What an operation leaves is what it found midway or what it wrote itself. -/
theorem wrote_run (op : Op) (file : Option Bytes) :
    ∃ p, Wrote C p (op.midway C file) (op.run C file).2 := by
  cases op with
  | initializeStore before after puf =>
    refine ⟨after, ?_⟩
    show Wrote C after _ (initializeStore C before after puf file).2
    rw [initializeStore_file, Op.midway, rederivesOver]
    split
    · -- the file has been unsealed, or the attempt has failed
      rcases hunseal : unsealMasterKey C before file with ⟨(e | _) | key, file'⟩
      · exact onlyPersists_rederive puf file'
      · exact .inl rfl
      · exact .inl rfl
    · exact onlyPersists_rederive puf file
  | unsealMasterKey p => exact ⟨p, onlyPersists_unsealMasterKey file⟩
  | advanceCounter p newCounter => exact ⟨p, onlyPersists_advanceCounter newCounter file⟩
  | reseal p puf => exact ⟨p, onlyPersists_reseal puf file⟩

/-- An event without a forged blob keeps the file tracked. -/
theorem tracked_step (hjson : C.ReadsBack) {event : Event} {w : World} (h : Tracked C salts w)
    (hforge : Unforgeable C salts event w) : Tracked C salts (event.step C w).2 := by
  cases event with
  | call op =>
    obtain ⟨p, hmidway⟩ := wrote_midway (C := C) op w.file
    obtain ⟨q, hrun⟩ := wrote_run (C := C) op w.file
    have hboth := (h.wrote hjson hmidway).wrote hjson hrun
    rw [List.append_assoc] at hboth
    exact hboth
  | place file => exact ⟨hforge, h.signed⟩

/-- JSON tells blobs apart, up to their HMACs. -/
theorem eq_of_payload (hjson : C.ReadsBack) {blob blob' : SealedBlob}
    (hpayload : hmacPayload C blob' = hmacPayload C blob)
    (hhmac : blob'.integrityHmac = blob.integrityHmac) : blob' = blob := by
  have hread := congrArg C.fromSlice hpayload
  rw [hmacPayload, hmacPayload, hjson.compact, hjson.compact] at hread
  have hcanonical := Except.ok.inj hread
  calc blob' = { ({ blob' with integrityHmac := none } : SealedBlob) with
        integrityHmac := blob'.integrityHmac } := rfl
    _ = { ({ blob with integrityHmac := none } : SealedBlob) with
        integrityHmac := blob.integrityHmac } := by rw [hcanonical, hhmac]
    _ = blob := rfl

theorem authentic_of_tracked (hjson : C.ReadsBack) {event : Event} {w : World}
    (h : Tracked C salts w) (hforge : Unforgeable C salts event w) : Authentic C event w := by
  cases event with
  | place file => trivial
  | call op =>
    intro p hp key file' hunseal
    obtain ⟨blob, file₁, hload, -⟩ := Call.bind_eq_ok.mp hunseal
    obtain ⟨-, -, data, hdata, hdecode⟩ := loadBlob_eq_ok.mp hload
    have hstored := storedBlob_of_load hload
    refine ⟨blob, hstored, ?_, ?_⟩
    · cases hhmac : blob.integrityHmac with
      | none => exact .inl rfl
      | some hmac =>
        have hsalt : machineSalt C p ∈ salts := by
          apply hforge
          cases op with
          | initializeStore before after puf =>
            cases hp
            exact List.mem_cons_self
          | unsealMasterKey q =>
            cases hp
            exact List.mem_cons_self
          | advanceCounter q newCounter => cases hp
          | reseal q puf => cases hp
        have hvalid := (decodeBlob_eq_ok.mp hdecode).2 hmac hhmac
        obtain ⟨data', hwritten, blob', hread, hpayload, hhmac'⟩ :=
          h.known blob hstored hmac hhmac ⟨_, hsalt, hvalid⟩
        obtain rfl := eq_of_payload hjson hpayload (hhmac'.trans hhmac.symm)
        obtain ⟨q, blob₀, rfl⟩ := h.signed data' hwritten
        rw [hjson.pretty] at hread
        cases hread
        exact .inr ⟨hwritten, q, blob₀, rfl⟩
    · rcases (unsealMasterKey_spec hjson p w.file).2 ⟨key, by rw [hunseal]⟩ with
        hmet | ⟨hnone, blob', hstored', hone⟩
      · exact .inl hmet
      · cases hstored.symm.trans hstored'
        exact .inr ⟨hnone, hone⟩

/-- Along every history from an empty directory, with files put in the store's place at any time,
every blob that is unsealed has no HMAC or was written by the store, and its counters are reached.
-/
theorem authentic_along (hjson : C.ReadsBack) (events : List Event)
    (hforge : Machine.Along (Event.step C) (Unforgeable C salts) events ⟨none, []⟩) :
    Machine.Along (Event.step C) (Authentic C) events ⟨none, []⟩ := by
  have hstart := tracked_start C salts
  generalize (⟨none, []⟩ : World) = w at hstart hforge ⊢
  induction events generalizing w with
  | nil => trivial
  | cons event events ih =>
    exact ⟨authentic_of_tracked hjson hstart hforge.1,
      ih _ (tracked_step hjson hstart hforge.1) hforge.2⟩

end Results

/-! ### A blob that comes back -/

/-- The file that `initialize` has written is put back after the next call has written a new one. -/
noncomputable def replayHistory : List Event :=
  [.call (.initializeStore (tpm 10) (tpm 10) samplePuf), .call (.unsealMasterKey (tpm 11)),
    .place (sampleFile (tpm 10) (some 10) (some 10)), .call (.unsealMasterKey (tpm 11))]

/-- All these counters are in one machine. -/
theorem unforgeable_call {op : Op} {w : World} (h : ∀ p ∈ op.platforms, ∃ n, p = tpm n) :
    Unforgeable plainCrates {machineSalt plainCrates (tpm 10)} (.call op) w := by
  intro p hp
  obtain ⟨n, rfl⟩ := h p hp
  rfl

theorem authentic_along_replayed :
    Machine.Along (Event.step plainCrates) (Authentic plainCrates) replayHistory ⟨none, []⟩ := by
  refine @authentic_along plainCrates {machineSalt plainCrates (tpm 10)} plainCrates_readsBack
    replayHistory ⟨?_, ?_, ?_, ?_, trivial⟩
  · exact unforgeable_call fun p hp => ⟨10, by simpa [Op.platforms] using hp⟩
  · exact unforgeable_call fun p hp => ⟨11, List.mem_singleton.mp hp⟩
  · intro blob hblob hmac hhmac _
    rw [storedBlob_sample] at hblob
    cases hblob
    exact ⟨_, List.mem_append_left _ (List.mem_singleton_self _), _,
      plainCrates_readsBack.pretty _, rfl, hhmac⟩
  · exact unforgeable_call fun p hp => ⟨11, List.mem_singleton.mp hp⟩

/-! ### A blob without an HMAC -/

/-- The sample blob of another key, as blobs were before they had an HMAC -/
noncomputable def legacyBlob : SealedBlob :=
  { sampleBlob (tpm 10) (some 10) (some 10) with
    sealedSeed := (FixedBytes.filled 32 1).val
    publicKey := (FixedBytes.filled 32 1).val
    integrityHmac := none }

noncomputable def sampleHistory : List Event :=
  [.call (.initializeStore (tpm 10) (tpm 10) samplePuf),
    .place (some (plainCrates.toVecPretty legacyBlob)), .call (.unsealMasterKey (tpm 10))]

theorem unforgeable_sample : Machine.Along (Event.step plainCrates)
    (Unforgeable plainCrates {machineSalt plainCrates (tpm 10)}) sampleHistory ⟨none, []⟩ := by
  refine ⟨?_, ?_, ?_, trivial⟩
  · exact unforgeable_call fun p hp => ⟨10, by simpa [Op.platforms] using hp⟩
  · intro blob hblob hmac hhmac
    rw [storedBlob, Option.bind_some, plainCrates_readsBack.pretty] at hblob
    cases hblob
    cases hhmac
  · exact unforgeable_call fun p hp => ⟨10, List.mem_singleton.mp hp⟩

/-- The blob that is unsealed is the last one that was written. -/
def Fresh (C : Crates) : Event → World → Prop
  | .call op, w => ∀ p ∈ op.unsealing, ∀ key file',
    unsealMasterKey C p w.file = (.ok key, file') → ∃ data, w.file = some data
      ∧ w.written.getLast? = some data
  | .place _, _ => True

theorem unseal_legacy : ∃ file', unsealMasterKey plainCrates (tpm 10)
    (some (plainCrates.toVecPretty legacyBlob)) = (.ok (FixedBytes.filled 32 1), file') := by
  have hload : loadBlob plainCrates (tpm 10) (some (plainCrates.toVecPretty legacyBlob))
      = (.ok legacyBlob, some (plainCrates.toVecPretty legacyBlob)) := by
    refine loadBlob_eq_ok.mpr ⟨rfl, rfl, _, rfl, decodeBlob_eq_ok.mpr ⟨?_, ?_⟩⟩
    · exact plainCrates_readsBack.pretty _
    · exact fun hmac hhmac => nomatch hhmac
  obtain ⟨file', hcheck⟩ : ∃ file', checkCounters plainCrates (tpm 10) legacyBlob
      (some (plainCrates.toVecPretty legacyBlob)) = (.ok legacyBlob, file') := ⟨_, rfl⟩
  rw [unsealMasterKey, Call.bind_of_ok hload, Call.bind_of_ok hcheck]
  exact ⟨file', rfl⟩

/-- Without an HMAC, the key of somebody else is handed out. -/
theorem not_fresh_along :
    Machine.Along (Event.step plainCrates)
        (Unforgeable plainCrates {machineSalt plainCrates (tpm 10)}) sampleHistory ⟨none, []⟩
      ∧ ¬ Machine.Along (Event.step plainCrates) (Fresh plainCrates) sampleHistory ⟨none, []⟩ := by
  refine ⟨unforgeable_sample, ?_⟩
  rintro ⟨-, -, h, -⟩
  obtain ⟨file', hunseal⟩ := unseal_legacy
  obtain ⟨data, hdata, hlast⟩ := h (tpm 10) rfl _ _ hunseal
  obtain ⟨hfirst, hsecond, -⟩ := unforgeable_sample
  have htracked := tracked_step plainCrates_readsBack
    (tracked_step plainCrates_readsBack (tracked_start plainCrates _) hfirst) hsecond
  obtain ⟨q, blob, heq⟩ := htracked.signed data (List.mem_of_getLast? hlast)
  -- what the store writes has an HMAC
  have hread := plainCrates_readsBack.pretty (signedBlob plainCrates q blob)
  rw [← heq, ← Option.some.inj hdata, plainCrates_readsBack.pretty] at hread
  have hhmac := congrArg SealedBlob.integrityHmac (Except.ok.inj hread)
  cases hhmac

end WritersProof.SealedIdentity
