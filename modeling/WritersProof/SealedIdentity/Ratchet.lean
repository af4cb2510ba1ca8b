/-
  WritersProof.SealedIdentity.Ratchet

  The counters in the file go forward only (crates/cpoe/src/sealed_identity/store.rs).
-/
import WritersProof.SealedIdentity.Store
import WritersProof.Lib.Codec
import WritersProof.Lib.Machine

namespace WritersProof.SealedIdentity

open Rust KeyHierarchy Call

/-! ## Demands on the counter -/

def AtLeast : (reading recorded : Option Nat) → Prop
  | _, none => True
  | some c, some r => r ≤ c
  | none, some _ => False

instance : (reading recorded : Option Nat) → Decidable (AtLeast reading recorded)
  | _, none => .isTrue trivial
  | some _, some _ => inferInstanceAs (Decidable (_ ≤ _))
  | none, some _ => .isFalse id

namespace AtLeast

theorem refl (a : Option Nat) : AtLeast a a := by
  cases a with
  | none => trivial
  | some a => exact Nat.le_refl a

theorem trans {a b c : Option Nat} (hab : AtLeast a b) (hbc : AtLeast b c) : AtLeast a c := by
  cases c with
  | none => trivial
  | some c =>
    cases b with
    | none => exact hbc.elim
    | some b =>
      cases a with
      | none => exact hab.elim
      | some a => exact Nat.le_trans hbc hab

end AtLeast

section Demands

variable (C : Crates)

def lastKnown (file : Option Bytes) : Option Nat :=
  (storedBlob C file).bind (·.lastKnownCounter)

def Met (reading : Option Nat) (file : Option Bytes) : Prop :=
  match storedBlob C file with
  | none => True
  | some blob => AtLeast reading blob.counterAtSeal ∧ AtLeast reading blob.lastKnownCounter

instance (reading : Option Nat) (file : Option Bytes) : Decidable (Met C reading file) := by
  unfold Met
  split
  · exact .isTrue trivial
  · exact inferInstanceAs (Decidable (_ ∧ _))

/-- The counter at seal time is not above the last known one. -/
def Ordered (file : Option Bytes) : Prop :=
  match storedBlob C file with
  | none => True
  | some blob => AtLeast blob.lastKnownCounter blob.counterAtSeal

/-- The last known counter has not gone back, what reaches the new counters reached the old, and
the two are in order if they were. -/
structure Onward (file file' : Option Bytes) : Prop where
  lastKnown : AtLeast (lastKnown C file') (lastKnown C file)
  met : ∀ reading, Met C reading file' → Met C reading file
  ordered : Ordered C file → Ordered C file'

variable {C} {file file' : Option Bytes} {blob : SealedBlob}

theorem ordered_of_stored (h : storedBlob C file = some blob) :
    Ordered C file ↔ AtLeast blob.lastKnownCounter blob.counterAtSeal := by
  rw [Ordered, h]

theorem met_of_stored {reading : Option Nat} (h : storedBlob C file = some blob) :
    Met C reading file ↔
      AtLeast reading blob.counterAtSeal ∧ AtLeast reading blob.lastKnownCounter := by
  rw [Met, h]

theorem Onward.refl (file : Option Bytes) : Onward C file file := ⟨.refl _, fun _ h => h, id⟩

theorem Onward.trans {file'' : Option Bytes} (h : Onward C file file')
    (h' : Onward C file' file'') :
    Onward C file file'' :=
  ⟨h'.lastKnown.trans h.lastKnown, fun reading hmet => h.met reading (h'.met reading hmet),
    fun hordered => h'.ordered (h.ordered hordered)⟩

/-- A new blob with counters in order, a last known one that has not gone back and one of the two
at or above the old one at seal time -/
theorem onward_of_stored {blob' : SealedBlob} (hnew : storedBlob C file' = some blob')
    (hordered : Ordered C file → AtLeast blob'.lastKnownCounter blob'.counterAtSeal)
    (h : ∀ blob, storedBlob C file = some blob →
      AtLeast blob'.lastKnownCounter blob.lastKnownCounter ∧
        (AtLeast blob'.counterAtSeal blob.counterAtSeal ∨
          AtLeast blob'.lastKnownCounter blob.counterAtSeal)) :
    Onward C file file' := by
  have hordered' : Ordered C file → Ordered C file' := fun h =>
    (ordered_of_stored hnew).mpr (hordered h)
  cases hold : storedBlob C file with
  | none =>
    refine ⟨?_, fun reading _ => ?_, hordered'⟩
    · rw [SealedIdentity.lastKnown, SealedIdentity.lastKnown, hold]
      trivial
    · rw [Met, hold]
      trivial
  | some blob =>
    obtain ⟨hlast, hseal⟩ := h blob hold
    refine ⟨?_, fun reading hmet => ?_, hordered'⟩
    · rw [SealedIdentity.lastKnown, SealedIdentity.lastKnown, hold, hnew]
      exact hlast
    · obtain ⟨hmet, hmet'⟩ := (met_of_stored hnew).mp hmet
      refine (met_of_stored hold).mpr ⟨?_, hmet'.trans hlast⟩
      rcases hseal with hseal | hseal
      · exact hmet.trans hseal
      · exact hmet'.trans hseal

end Demands

/-! ## The operations -/

section Operations

variable {C : Crates} {file file' : Option Bytes} {p : Platform}

/-- The counter is at least the recorded one, or the call fails with both of them. -/
theorem rejectRollback_cases (current : Nat) (recorded : Option Nat) (file : Option Bytes) :
    rejectRollback current recorded file = (.ok (), file) ∧ AtLeast (some current) recorded
      ∨ ∃ lastKnown, rejectRollback current recorded file
          = (fail (.rollbackDetected current lastKnown), file)
        ∧ recorded = some lastKnown := by
  cases recorded with
  | none => exact .inl ⟨rfl, trivial⟩
  | some lastKnown =>
    rw [rejectRollback]
    by_cases hlt : current < lastKnown
    · exact .inr ⟨lastKnown, reject_pos hlt _ _, rfl⟩
    · exact .inl ⟨reject_neg hlt _ _, Nat.le_of_not_lt hlt⟩

section

variable (hjson : C.ReadsBack)

include hjson

/-- The reading goes into the file, or the write fails. -/
theorem ratchet_onward {blob : SealedBlob} {current : Nat} (hstored : storedBlob C file = some blob)
    (hseal : AtLeast (some current) blob.counterAtSeal)
    (hlast : AtLeast (some current) blob.lastKnownCounter) :
    Onward C file (ratchet C p blob current file).2 := by
  rw [ratchet]
  rcases persistBlob_cases hjson p { blob with lastKnownCounter := some current } file with
    hio | ⟨file', hok, hnew⟩
  · rw [bind_of_error hio]
    exact .refl file
  · rw [bind_of_ok hok]
    refine onward_of_stored hnew (fun _ => hseal) fun old hold => ?_
    cases hold.symm.trans hstored
    exact ⟨hlast, .inr hseal⟩

theorem checkCounters_spec {blob : SealedBlob} (hstored : storedBlob C file = some blob) :
    Onward C file (checkCounters C p blob file).2
      ∧ ((∃ blob', (checkCounters C p blob file).1 = .ok blob') →
        Met C p.counter file ∨ p.counter = none
          ∧ blob.counterAtSeal.isSome ≠ blob.lastKnownCounter.isSome) := by
  rw [checkCounters]
  by_cases hany : blob.counterAtSeal.isSome ∨ blob.lastKnownCounter.isSome
  · rw [if_pos hany]
    cases hcounter : p.counter with
    | some current =>
      dsimp only
      rcases rejectRollback_cases current blob.counterAtSeal file with
        ⟨hok, hseal⟩ | ⟨lastKnown, herr, -⟩
      · rcases rejectRollback_cases current blob.lastKnownCounter file with
          ⟨hok', hlast⟩ | ⟨lastKnown, herr, -⟩
        · rw [bind_of_ok hok, bind_of_ok hok']
          exact ⟨ratchet_onward hjson hstored hseal hlast,
            fun _ => .inl ((met_of_stored hstored).mpr ⟨hseal, hlast⟩)⟩
        · rw [bind_of_ok hok, bind_of_error herr]
          exact ⟨.refl file, fun ⟨_, h⟩ => nomatch h⟩
      · rw [bind_of_error herr]
        exact ⟨.refl file, fun ⟨_, h⟩ => nomatch h⟩
    | none =>
      dsimp only
      by_cases hboth : blob.counterAtSeal.isSome ∧ blob.lastKnownCounter.isSome
      · rw [reject_bind_pos hboth]
        exact ⟨.refl file, fun ⟨_, h⟩ => nomatch h⟩
      · rw [reject_bind_neg hboth]
        refine ⟨.refl file, fun _ => .inr ⟨rfl, fun heq => ?_⟩⟩
        rcases hany with h | h
        · exact hboth ⟨h, heq ▸ h⟩
        · exact hboth ⟨heq ▸ h, h⟩
  · rw [if_neg hany]
    rw [not_or, Option.not_isSome_iff_eq_none, Option.not_isSome_iff_eq_none] at hany
    obtain ⟨hseal, hlast⟩ := hany
    have hmet : ∀ reading, Met C reading file := by
      intro reading
      refine (met_of_stored hstored).mpr ?_
      rw [hseal, hlast]
      exact ⟨trivial, trivial⟩
    cases p.counter with
    | some current =>
      refine ⟨ratchet_onward hjson hstored ?_ ?_, fun _ => .inl (hmet _)⟩
      · rw [hseal]
        trivial
      · rw [hlast]
        trivial
    | none => exact ⟨.refl file, fun _ => .inl (hmet _)⟩

/-- Unsealing moves the counters onward, and succeeds only where they are met, or where there is
no counter and the blob has one of the two. -/
theorem unsealMasterKey_spec (p : Platform) (file : Option Bytes) :
    Onward C file (unsealMasterKey C p file).2
      ∧ ((∃ key, (unsealMasterKey C p file).1 = .ok key) →
        Met C p.counter file ∨ p.counter = none ∧ ∃ blob, storedBlob C file = some blob
          ∧ blob.counterAtSeal.isSome ≠ blob.lastKnownCounter.isSome) := by
  rw [unsealMasterKey, bind_apply]
  obtain ⟨e | blob, hload⟩ := loadBlob_eq C p file
  · rw [hload]
    exact ⟨.refl _, fun ⟨_, h⟩ => nomatch h⟩
  · rw [hload]
    have hstored := storedBlob_of_load hload
    obtain ⟨honward, hok⟩ := checkCounters_spec (p := p) hjson hstored
    dsimp only
    rw [bind_apply]
    rcases hcheck : checkCounters C p blob _ with ⟨e | blob', file₂⟩
    · rw [hcheck] at honward
      exact ⟨honward, fun ⟨_, h⟩ => nomatch h⟩
    · rw [hcheck] at honward hok
      dsimp only
      -- the seed is opened without another look at the file
      have hstate : ∀ (r : Res SealedIdentityError Bytes)
          (f : Bytes → Res SealedIdentityError Digest),
          ((lift r >>= fun seed => lift (f seed)) file₂).2 = file₂ := by
        intro r f
        cases r with
        | ok seed => rfl
        | error e => rfl
      refine ⟨by rw [hstate]; exact honward, fun _ => ?_⟩
      rcases hok ⟨blob', rfl⟩ with hmet | ⟨hnone, hone⟩
      · exact .inl hmet
      · exact .inr ⟨hnone, blob, hstored, hone⟩

theorem advanceCounter_onward (p : Platform) (newCounter : Nat) (file : Option Bytes) :
    Onward C file (advanceCounter C p newCounter file).2 := by
  rw [advanceCounter, bind_apply]
  obtain ⟨e | blob, hload⟩ := loadBlob_eq C p file
  · rw [hload]
    exact .refl _
  · rw [hload]
    dsimp only
    rcases rejectRollback_cases newCounter blob.lastKnownCounter _ with
      ⟨hok, hlast⟩ | ⟨lastKnown, herr, -⟩
    · rw [bind_of_ok hok]
      rcases persistBlob_cases hjson p { blob with lastKnownCounter := some newCounter } _ with
        hio | ⟨file', hok', hnew⟩
      · rw [hio]
        exact .refl _
      · rw [hok']
        have hstored := storedBlob_of_load hload
        refine onward_of_stored hnew (fun hordered => ?_) fun old hold => ?_
        · exact hlast.trans ((ordered_of_stored hstored).mp hordered)
        · cases hold.symm.trans hstored
          exact ⟨hlast, .inl (.refl _)⟩
    · rw [bind_of_error herr]
      exact .refl _

theorem reseal_cases (p : Platform) (puf : PufProvider) (file : Option Bytes) :
    (reseal C p puf file).2 = file
      ∨ ∃ blob sealedSeed, storedBlob C file = some blob
        ∧ storedBlob C (reseal C p puf file).2
          = some (signedBlob C p (resealedBlob p blob sealedSeed)) := by
  rw [reseal, bind_apply]
  obtain ⟨e | blob, hload⟩ := loadBlob_eq C p file
  · rw [hload]
    exact .inl rfl
  · rw [hload]
    dsimp only
    cases resealSeed C p puf blob with
    | error e => exact .inl rfl
    | ok seed =>
      rw [lift_ok_bind]
      cases signingKeyOf C blob seed with
      | error e => exact .inl rfl
      | ok signingKey =>
        rw [lift_ok_bind]
        cases sealSeed C p signingKey.val [] with
        | error e => exact .inl rfl
        | ok sealedSeed =>
          rw [lift_ok_bind]
          rcases persistBlob_cases hjson p (resealedBlob p blob sealedSeed) _ with
            hio | ⟨file', hok, hnew⟩
          · rw [hio]
            exact .inl rfl
          · rw [hok]
            exact .inr ⟨blob, sealedSeed, storedBlob_of_load hload, hnew⟩

theorem reseal_onward (p : Platform) (puf : PufProvider) (hordered : Ordered C file) :
    Onward C file (reseal C p puf file).2 := by
  rcases reseal_cases hjson p puf file with hsame | ⟨blob, sealedSeed, hstored, hnew⟩
  · rw [hsame]
    exact .refl _
  · refine onward_of_stored hnew (fun _ => .refl _) fun old hold => ?_
    cases hold.symm.trans hstored
    exact ⟨.refl _, .inr ((ordered_of_stored hstored).mp hordered)⟩

end

/-- The file that the re-derivation of `initialize` finds, if it comes to that -/
def rederivesOver (C : Crates) (before : Platform) (file : Option Bytes) : Option (Option Bytes) :=
  if file.isSome ∧ before.visible then
    match unsealMasterKey C before file with
    | (.error (.err _), file') => some file'
    | _ => none
  else some file

theorem rederivesOver_onward (hjson : C.ReadsBack) {before : Platform}
    (h : rederivesOver C before file = some file') : Onward C file file' := by
  have hunseal := (unsealMasterKey_spec hjson before file).1
  rw [rederivesOver] at h
  split at h
  · split at h
    · rename_i heq
      rw [heq] at hunseal
      cases h
      exact hunseal
    · cases h
  · cases h
    exact .refl _

theorem rederive_cases (hjson : C.ReadsBack) (p : Platform) (puf : PufProvider)
    (file : Option Bytes) : (rederive C p puf file).2 = file
      ∨ ∃ identity sealedSeed, (∃ r, derivedBlob C p puf = .ok r) ∧ p.writable = true
        ∧ storedBlob C (rederive C p puf file).2
          = some (signedBlob C p (freshBlob p identity sealedSeed)) := by
  rw [rederive]
  cases hderive : derivedBlob C p puf with
  | error e => exact .inl rfl
  | ok r =>
    obtain ⟨identity, blob⟩ := r
    obtain ⟨sealedSeed, rfl⟩ : ∃ sealedSeed, blob = freshBlob p identity sealedSeed := by
      obtain ⟨_, _, h⟩ := res_bind_eq_ok.mp hderive
      obtain ⟨_, _, h⟩ := res_bind_eq_ok.mp h
      obtain ⟨sealedSeed, _, h⟩ := res_bind_eq_ok.mp h
      cases h
      exact ⟨sealedSeed, rfl⟩
    rw [lift_ok_bind]
    dsimp only
    rcases persistBlob_cases hjson p (freshBlob p identity sealedSeed) file with
      hio | ⟨file', hok, hnew⟩
    · rw [bind_of_error hio]
      exact .inl rfl
    · have hwrite : p.writable = true := by
        by_contra hwrite
        rw [persistBlob, if_neg hwrite] at hok
        cases hok
      rw [bind_of_ok hok]
      exact .inr ⟨identity, sealedSeed, ⟨_, rfl⟩, hwrite, hnew⟩

theorem publicIdentity_state : (publicIdentity C p file).2 = file := by
  rw [publicIdentity, bind_apply]
  obtain ⟨e | blob, hload⟩ := loadBlob_eq C p file
  · rw [hload]
  · rw [hload]
    dsimp only
    cases FixedBytes.tryFrom 32 blob.publicKey with
    | none => rfl
    | some publicKey => rfl

/-- `initialize` unseals and leaves it at that, or derives the key again. -/
theorem initializeStore_file (C : Crates) (before after : Platform) (puf : PufProvider)
    (file : Option Bytes) :
    (initializeStore C before after puf file).2
      = match rederivesOver C before file with
        | none => (unsealMasterKey C before file).2
        | some file' => (rederive C after puf file').2 := by
  rw [initializeStore, asks_bind, rederivesOver]
  by_cases hstored : file.isSome ∧ before.visible
  · rw [if_pos hstored, if_pos hstored, bind_apply]
    rcases hunseal : unsealMasterKey C before file with ⟨(e | _) | key, file'⟩
    · rw [attempt_of_fail hunseal]
    · rw [attempt_of_abort hunseal]
      rfl
    · rw [attempt_of_ok hunseal]
      exact publicIdentity_state
  · rw [if_neg hstored, if_neg hstored]

end Operations

/-! ## Runs -/

inductive Op where
  | initializeStore (before after : Platform) (puf : PufProvider)
  | unsealMasterKey (p : Platform)
  | advanceCounter (p : Platform) (newCounter : Nat)
  | reseal (p : Platform) (puf : PufProvider)

inductive Reply where
  | identity (r : Res SealedIdentityError MasterIdentity)
  | key (r : Res SealedIdentityError Digest)
  | done (r : Res SealedIdentityError Unit)

/-- The file, and whether a rollback was reported that the hardware counter has not made up for -/
structure Watched where
  file : Option Bytes
  alarm : Bool

section Runs

variable (C : Crates)

def Op.run : Op → Option Bytes → Reply × Option Bytes
  | .initializeStore before after puf, file =>
    let (r, file') := SealedIdentity.initializeStore C before after puf file
    (.identity r, file')
  | .unsealMasterKey p, file =>
    let (r, file') := SealedIdentity.unsealMasterKey C p file
    (.key r, file')
  | .advanceCounter p newCounter, file =>
    let (r, file') := SealedIdentity.advanceCounter C p newCounter file
    (.done r, file')
  | .reseal p puf, file =>
    let (r, file') := SealedIdentity.reseal C p puf file
    (.done r, file')

def Op.counter : Op → Option Nat
  | .initializeStore before _ _ => before.counter
  | .unsealMasterKey p | .advanceCounter p _ | .reseal p _ => p.counter

def isRollback {α : Type} : Res SealedIdentityError α → Bool
  | .error (.err (.rollbackDetected _ _)) => true
  | _ => false

def Op.reportsRollback : Op → Option Bytes → Bool
  | .initializeStore before _ _, file =>
    file.isSome && before.visible && isRollback (SealedIdentity.unsealMasterKey C before file).1
  | .unsealMasterKey p, file => isRollback (SealedIdentity.unsealMasterKey C p file).1
  | .advanceCounter p newCounter, file =>
    isRollback (SealedIdentity.advanceCounter C p newCounter file).1
  | .reseal p puf, file => isRollback (SealedIdentity.reseal C p puf file).1

def Op.step (op : Op) (s : Watched) : Reply × Watched :=
  let (reply, file) := op.run C s.file
  (reply, ⟨file, op.reportsRollback C s.file || s.alarm && !decide (Met C op.counter s.file)⟩)

/-- The recorded counters have gone forward, and a key that was yielded after a rollback was
yielded to a hardware counter that reaches them. -/
structure Ratchets (op : Op) (s : Watched) : Prop where
  onward : Onward C s.file (op.step C s).2.file
  key : s.alarm = true → ∀ key, (op.step C s).1 = .key (.ok key) → Met C op.counter s.file

/-- The steps that leave the ratchet alone: a re-derivation does not put a lower reading in the
    place of what was recorded, a blob with one counter is not unsealed without a reading after a
    rollback, and a blob is not resealed whose seal-time counter is above its last known one. -/
def Condition : Op → Watched → Prop
  | .initializeStore before after puf, s =>
    -- a re-derivation that gets as far as the file has a reading that reaches what it replaces
    ∀ file, rederivesOver C before s.file = some file →
      (∃ r, derivedBlob C after puf = .ok r) → after.writable = true →
      Met C after.sealCounter file
  | .unsealMasterKey p, s =>
    s.alarm = true → ∀ blob, storedBlob C s.file = some blob →
      blob.counterAtSeal.isSome ≠ blob.lastKnownCounter.isSome → p.counter ≠ none
  | .advanceCounter _ _, _ => True
  | .reseal _ _, s => Ordered C s.file

end Runs

section Results

variable {C : Crates}

variable {s : Watched}

theorem initializeStore_onward (hjson : C.ReadsBack) {before after : Platform} {puf : PufProvider}
    (h : Condition C (.initializeStore before after puf) s) :
    Onward C s.file (initializeStore C before after puf s.file).2 := by
  rw [initializeStore_file]
  have hunseal := (unsealMasterKey_spec hjson before s.file).1
  cases hover : rederivesOver C before s.file with
  | none => exact hunseal
  | some file =>
    dsimp only
    have hfile := rederivesOver_onward hjson hover
    rcases rederive_cases hjson after puf file
        with hsame | ⟨identity, sealedSeed, hok, hwrite, hnew⟩
    · rw [hsame]
      exact hfile
    · have hmet := h file hover hok hwrite
      refine hfile.trans (onward_of_stored hnew (fun _ => .refl _) fun blob hblob => ?_)
      obtain ⟨hseal, hlast⟩ := (met_of_stored hblob).mp hmet
      exact ⟨hlast, .inl hseal⟩

theorem ratchets_of_condition (hjson : C.ReadsBack) {op : Op} (h : Condition C op s) :
    Ratchets C op s := by
  cases op with
  | initializeStore before after puf =>
    exact ⟨initializeStore_onward hjson h, fun _ _ hkey => nomatch hkey⟩
  | unsealMasterKey p =>
    obtain ⟨honward, hmet⟩ := unsealMasterKey_spec hjson p s.file
    refine ⟨honward, fun halarm key hkey => ?_⟩
    rcases hmet ⟨key, Reply.key.inj hkey⟩ with hmet | ⟨hnone, blob, hstored, hone⟩
    · exact hmet
    · exact absurd hnone (h halarm blob hstored hone)
  | advanceCounter p newCounter =>
    exact ⟨advanceCounter_onward hjson p newCounter s.file, fun _ _ hkey => nomatch hkey⟩
  | reseal p puf => exact ⟨reseal_onward hjson p puf h, fun _ _ hkey => nomatch hkey⟩

/-- `Condition`, without a demand on the blobs that are resealed -/
def Forward (C : Crates) : Op → Watched → Prop
  | .reseal _ _, _ => True
  | op, s => Condition C op s

theorem condition_of_forward {op : Op} (h : Forward C op s) (hordered : Ordered C s.file) :
    Condition C op s := by
  cases op with
  | initializeStore before after puf => exact h
  | unsealMasterKey p => exact h
  | advanceCounter p newCounter => exact h
  | reseal p puf => exact hordered

/-- Every operation keeps the two counters in order. -/
theorem ordered_step (hjson : C.ReadsBack) (op : Op) (h : Ordered C s.file) :
    Ordered C (op.step C s).2.file := by
  cases op with
  | initializeStore before after puf =>
    show Ordered C (initializeStore C before after puf s.file).2
    rw [initializeStore_file]
    have hunseal := (unsealMasterKey_spec hjson before s.file).1.ordered h
    cases hover : rederivesOver C before s.file with
    | none => exact hunseal
    | some file =>
      dsimp only
      rcases rederive_cases hjson after puf file with hsame | ⟨identity, sealedSeed, -, -, hnew⟩
      · rw [hsame]
        exact (rederivesOver_onward hjson hover).ordered h
      · exact (ordered_of_stored hnew).mpr (.refl _)
  | unsealMasterKey p => exact (unsealMasterKey_spec hjson p s.file).1.ordered h
  | advanceCounter p newCounter => exact (advanceCounter_onward hjson p newCounter s.file).ordered h
  | reseal p puf => exact (reseal_onward hjson p puf h).ordered h

/-- Along every run, a step that meets the condition lets the recorded counters go forward only and
yields no key after a rollback until the hardware counter reaches them.  Where the counters in the
file are in order to begin with, as without a file, they stay so, and `reseal` needs no
condition. -/
theorem ratchet_along (hjson : C.ReadsBack) (ops : List Op) (s : Watched) :
    Machine.Along (Op.step C) (fun op s => Condition C op s → Ratchets C op s) ops s
      ∧ (Ordered C s.file →
        Machine.Along (Op.step C) (fun op s => Forward C op s → Ratchets C op s) ops s) := by
  refine ⟨Machine.along_of_forall (fun op s => ratchets_of_condition hjson) ops s, ?_⟩
  induction ops generalizing s with
  | nil => exact fun _ => trivial
  | cons op ops ih =>
    intro hordered
    -- the step keeps the order, so the next one may rely on it
    exact ⟨fun hforward => ratchets_of_condition hjson (condition_of_forward hforward hordered),
      ih _ (ordered_step hjson op hordered)⟩

end Results

/-! ### A counter at ten -/

instance : Countable SealedBlob :=
  Function.Injective.countable (f := fun b : SealedBlob =>
    (b.version, b.providerType, b.deviceId, b.sealedSeed, b.publicKey, b.fingerprint, b.sealedAt,
      b.counterAtSeal, b.lastKnownCounter, b.bootCountAtSeal, b.restartCountAtSeal,
      b.integrityHmac)) fun b c h => by
      cases b
      cases c
      simpa using h

/-- Keys that are their own public keys, and an encoding that reads back -/
noncomputable def plainCrates : Crates where
  sha256 bytes := FixedBytes.filled 32 bytes.sum
  hkdf ikm salt info := FixedBytes.filled 32 (ikm.sum + salt.sum + info.sum)
  ed25519 := .summing
  rfc3339 t := toString t.nanos
  encrypt _ _ _ message := some (message ++ List.replicate 16 0)
  decrypt _ _ _ ciphertext := some (ciphertext.take (ciphertext.length - 16))
  hmac key payload := FixedBytes.filled 32 (key.sum + payload.sum)
  toVec := Codec.write
  toVecPretty := Codec.write
  fromSlice := Codec.read

theorem plainCrates_readsBack : plainCrates.ReadsBack :=
  ⟨Codec.read_write, Codec.read_write⟩

/-- A TPM whose counter stands at the given number -/
def tpm (reading : Nat) : Platform where
  hardwareBacked := true
  supportsSealing := true
  macos := false
  deviceId := "device"
  hostname := none
  bind _ := .ok (some reading)
  sealData data _ := .ok data
  unsealData := .ok
  clockInfo := none
  now := 0
  randomSalt := .error "unused"
  aeadNonce := .error "unused"
  visible := true
  readable := true
  writable := true

def samplePuf : PufProvider := ⟨fun _ => .ok [7], "device"⟩

theorem ratchet_along_ten :
    Machine.Along (Op.step plainCrates)
        (fun op s => Condition plainCrates op s → Ratchets plainCrates op s)
        [.initializeStore (tpm 10) (tpm 10) samplePuf, .unsealMasterKey (tpm 11)] ⟨none, false⟩
      ∧ (Ordered plainCrates none → Machine.Along (Op.step plainCrates)
        (fun op s => Forward plainCrates op s → Ratchets plainCrates op s)
        [.initializeStore (tpm 10) (tpm 10) samplePuf, .unsealMasterKey (tpm 11)] ⟨none, false⟩) :=
  ratchet_along plainCrates_readsBack _ _

/-- A TPM whose counter cannot be read -/
def offlineTpm : Platform := { tpm 0 with bind := fun _ => .error "offline" }

noncomputable def sampleKey : Digest :=
  plainCrates.hkdf [7] (Bytes.utf8 "cpoe-identity-v1") (Bytes.utf8 "master-seed")

noncomputable def sampleBlob (p : Platform) (counterAtSeal lastKnownCounter : Option Nat) :
    SealedBlob :=
  signedBlob plainCrates p
    { freshBlob p (masterIdentity plainCrates.toCrypto sampleKey) sampleKey.val with
      counterAtSeal, lastKnownCounter }

noncomputable def sampleFile (p : Platform) (counterAtSeal lastKnownCounter : Option Nat) :
    Option Bytes :=
  some (plainCrates.toVecPretty (sampleBlob p counterAtSeal lastKnownCounter))

theorem storedBlob_sample (p : Platform) (atSeal known : Option Nat) :
    storedBlob plainCrates (sampleFile p atSeal known) = some (sampleBlob p atSeal known) := by
  rw [sampleFile, storedBlob, Option.bind_some, plainCrates_readsBack.pretty]
  rfl

theorem loadBlob_sample {p q : Platform} (hread : p.readable = true)
    (hsalt : machineSalt plainCrates p = machineSalt plainCrates q) (atSeal known : Option Nat) :
    loadBlob plainCrates p (sampleFile q atSeal known)
      = (.ok (sampleBlob q atSeal known), sampleFile q atSeal known) :=
  loadBlob_eq_ok.mpr ⟨rfl, hread, _, rfl, decodeBlob_signed plainCrates_readsBack hsalt⟩

theorem lastKnown_sample (p : Platform) (atSeal known : Option Nat) :
    lastKnown plainCrates (sampleFile p atSeal known) = known := by
  rw [lastKnown, storedBlob_sample]
  rfl

/-- The key of the blob is handed out where the counters pass. -/
theorem unseal_sample {p q : Platform} (hread : p.readable = true)
    (hsalt : machineSalt plainCrates p = machineSalt plainCrates q) {atSeal known : Option Nat}
    (hseal : p.supportsSealing = true) (hunseal : p.unsealData = .ok) {known' : Option Nat}
    {file' : Option Bytes}
    (h : checkCounters plainCrates p (sampleBlob q atSeal known) (sampleFile q atSeal known)
      = (.ok { sampleBlob q atSeal known with lastKnownCounter := known' }, file')) :
    unsealMasterKey plainCrates p (sampleFile q atSeal known) = (.ok sampleKey, file') := by
  have hkey : signingKeyOf plainCrates
      { sampleBlob q atSeal known with lastKnownCounter := known' } sampleKey.val
      = .ok sampleKey := by
    rw [signingKeyOf, FixedBytes.tryFrom_val, okOr_some, res_ok_bind]
    exact if_neg (not_not_intro rfl)
  rw [unsealMasterKey, bind_of_ok (loadBlob_sample hread hsalt atSeal known),
    bind_of_ok h, if_pos hseal, hunseal]
  exact congrArg (·, file') hkey

/-- A counter at five is a rollback from ten; the file is left alone. -/
theorem unseal_five {atSeal : Option Nat} (h : atSeal = none ∨ atSeal = some 10) :
    unsealMasterKey plainCrates (tpm 5) (sampleFile (tpm 10) atSeal (some 10))
      = (fail (.rollbackDetected 5 10), sampleFile (tpm 10) atSeal (some 10)) := by
  have hload : loadBlob plainCrates (tpm 5) (sampleFile (tpm 10) atSeal (some 10))
      = (.ok (sampleBlob (tpm 10) atSeal (some 10)), sampleFile (tpm 10) atSeal (some 10)) :=
    loadBlob_sample rfl rfl _ _
  rw [unsealMasterKey, bind_of_ok hload]
  rcases h with rfl | rfl
  · rfl
  · rfl

/-- A second `initialize`, at five, derives the key again and records five. -/
theorem not_ratchets_rederived :
    ¬ Machine.Along (Op.step plainCrates) (Ratchets plainCrates)
      [.initializeStore (tpm 10) (tpm 10) samplePuf, .initializeStore (tpm 5) (tpm 5) samplePuf]
      ⟨none, false⟩ := by
  rintro ⟨-, h, -⟩
  have hlast : AtLeast
      (lastKnown plainCrates (initializeStore plainCrates (tpm 5) (tpm 5) samplePuf
        (sampleFile (tpm 10) (some 10) (some 10))).2)
      (lastKnown plainCrates (sampleFile (tpm 10) (some 10) (some 10))) := h.onward.lastKnown
  have hover : rederivesOver plainCrates (tpm 5) (sampleFile (tpm 10) (some 10) (some 10))
      = some (sampleFile (tpm 10) (some 10) (some 10)) := by
    rw [rederivesOver, if_pos ⟨rfl, rfl⟩, unseal_five (.inr rfl)]
    rfl
  have hnew : (rederive plainCrates (tpm 5) samplePuf
      (sampleFile (tpm 10) (some 10) (some 10))).2 = sampleFile (tpm 5) (some 5) (some 5) := rfl
  rw [initializeStore_file, hover] at hlast
  dsimp only at hlast
  rw [hnew, lastKnown_sample, lastKnown_sample] at hlast
  have hle : 10 ≤ 5 := hlast
  exact absurd hle (by decide)

/-- The ratchet fails twice: a second `initialize` records a lower counter, and a blob that was
sealed offline is unsealed offline right after a rollback. -/
theorem not_ratchet_along :
    ¬ Machine.Along (Op.step plainCrates) (Ratchets plainCrates)
        [.initializeStore (tpm 10) (tpm 10) samplePuf, .initializeStore (tpm 5) (tpm 5) samplePuf]
        ⟨none, false⟩
      ∧ ¬ Machine.Along (Op.step plainCrates) (Ratchets plainCrates)
        [.initializeStore offlineTpm offlineTpm samplePuf, .unsealMasterKey (tpm 10),
          .unsealMasterKey (tpm 5), .unsealMasterKey offlineTpm] ⟨none, false⟩ := by
  refine ⟨not_ratchets_rederived, ?_⟩
  have hten : unsealMasterKey plainCrates (tpm 10) (sampleFile offlineTpm none none)
      = (.ok sampleKey, sampleFile (tpm 10) none (some 10)) :=
    unseal_sample rfl rfl rfl rfl (rfl : checkCounters _ _ _ _
      = (.ok { sampleBlob offlineTpm none none with lastKnownCounter := some 10 }, _))
  rintro ⟨-, -, -, h, -⟩
  have hsealed : (initializeStore plainCrates offlineTpm offlineTpm samplePuf none).2
      = sampleFile offlineTpm none none := rfl
  have hfive := unseal_five (.inl rfl)
  have hoffline : unsealMasterKey plainCrates offlineTpm (sampleFile (tpm 10) none (some 10))
      = (.ok sampleKey, sampleFile (tpm 10) none (some 10)) :=
    unseal_sample rfl rfl rfl rfl (rfl : checkCounters _ _ _ _
      = (.ok { sampleBlob (tpm 10) none (some 10) with lastKnownCounter := some 10 }, _))
  have hmet := h.key
  simp only [Op.step, Op.run, Op.reportsRollback, hsealed, hten, hfive, hoffline] at hmet
  exact ((met_of_stored (storedBlob_sample _ _ _)).mp (hmet rfl sampleKey rfl)).2

end WritersProof.SealedIdentity
