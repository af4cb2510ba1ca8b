/-
  WritersProof.Ipc.Refused

  What a refused frame does to a session (crates/cpoe/src/ipc/crypto.rs).

  A frame that is too short or carries another number than the expected one changes nothing.  One
  that carries the expected number spends it, before nonce and tag are looked at, and with it the
  genuine frame of that number.
-/
import WritersProof.Ipc.Answered

namespace WritersProof.Ipc

open Rust Machine

/-- The frame is too short, or does not carry the expected number. -/
def Unmatched (data : Bytes) (s : SecureSession) : Prop :=
  data.length < 36 ∨ frameSeq data ≠ s.rxSequence

instance (data : Bytes) (s : SecureSession) : Decidable (Unmatched data s) :=
  inferInstanceAs (Decidable (_ ∨ _))

section Refusal

variable {C : Crates} {s s' : SecureSession} {data : Bytes}

theorem afterDecrypt_ne (s : SecureSession) : s.afterDecrypt ≠ s := by
  intro h
  have hnumber : s.rxSequence + 2 = s.rxSequence := congrArg SecureSession.rxSequence h
  omega

theorem decrypt_of_unmatched (hrx : s.rxSequence < 2 ^ 64) (h : Unmatched data s) :
    ∃ e, decrypt C data s = (fail e, s) := by
  unfold decrypt
  by_cases hlen : data.length < 36
  · exact ⟨_, Call.reject_bind_pos hlen _ _ _⟩
  · have hseq := h.resolve_left hlen
    have hbytes : Bytes.toLE 8 (frameSeq data) ≠ Bytes.toLE 8 s.rxSequence := by
      have hpow : (256 : Nat) ^ 8 = 2 ^ 64 := by norm_num
      intro heq
      apply hseq
      apply Bytes.toLE_injective _ _ heq
      · exact hpow.symm ▸ frameSeq_lt data
      · exact hpow.symm ▸ hrx
    rw [Call.reject_bind_neg hlen]
    exact ⟨_, Call.bind_of_error (if_pos hbytes)⟩

/-- The expected number is spent, if there is one after it, whatever else is in the frame. -/
theorem decrypt_of_matched (h : ¬ Unmatched data s) :
    2 ^ 64 ≤ s.rxSequence + 2 ∧ decrypt C data s = (abort, s)
      ∨ s.rxSequence + 2 < 2 ^ 64 ∧ ∃ reply, decrypt C data s = (reply, s.afterDecrypt) := by
  rw [Unmatched, not_or, not_not] at h
  unfold decrypt
  rw [Call.reject_bind_neg h.1]
  by_cases hlt : s.rxSequence + 2 < 2 ^ 64
  · have htake : takeRx (frameSeq data) s = (.ok s.rxSequence, s.afterDecrypt) :=
      takeRx_eq_ok.mpr ⟨by rw [h.2], hlt, rfl, rfl⟩
    refine .inr ⟨hlt, ?_⟩
    rw [Call.bind_of_ok htake, Call.asks_bind]
    by_cases hnonce : (constructNonce s.afterDecrypt.rxNoncePrefix s.rxSequence).val
        ≠ (data.drop 8).take 12
    · exact ⟨_, Call.reject_bind_pos hnonce _ _ _⟩
    · rw [Call.reject_bind_neg hnonce, Call.asks_bind, Call.lift_apply]
      exact ⟨_, rfl⟩
  · refine .inl ⟨not_lt.mp hlt, Call.bind_of_error ?_⟩
    rw [takeRx, if_neg (by rw [h.2, not_not]), if_neg hlt]
    rfl

/-- A refused frame has left the session alone just when it did not get as far as the nonce;
otherwise it has spent the number it carried. -/
theorem decrypt_refused (hrx : s.rxSequence < 2 ^ 64) {e : IpcError}
    (h : decrypt C data s = (fail e, s')) :
    Unmatched data s ∧ s' = s ∨ ¬ Unmatched data s ∧ s' = s.afterDecrypt := by
  by_cases hun : Unmatched data s
  · obtain ⟨e', hfail⟩ := decrypt_of_unmatched (C := C) hrx hun
    rw [hfail] at h
    exact .inl ⟨hun, (Prod.mk.inj h).2.symm⟩
  · rcases decrypt_of_matched (C := C) hun with ⟨-, habort⟩ | ⟨-, reply, hreply⟩
    · -- An overflow is no error value.
      rw [habort] at h
      cases h
    · rw [hreply] at h
      exact .inr ⟨hun, (Prod.mk.inj h).2.symm⟩

/-- A number that is spent is refused, whatever the frame holds. -/
theorem decrypt_afterDecrypt_ne (hlt : s.afterDecrypt.rxSequence < 2 ^ 64)
    (hseq : frameSeq data = s.rxSequence) (plaintext : Bytes) :
    (decrypt C data s.afterDecrypt).1 ≠ .ok plaintext := by
  have hun : Unmatched data s.afterDecrypt := by
    right
    rw [hseq]
    show s.rxSequence ≠ s.rxSequence + 2
    omega
  obtain ⟨e, hfail⟩ := decrypt_of_unmatched (C := C) hlt hun
  rw [hfail]
  exact nofun

/-- A counter only moves where the next number is one. -/
theorem decrypt_snd_lt (hrx : s.rxSequence < 2 ^ 64) :
    (decrypt C data s).2.rxSequence < 2 ^ 64 := by
  by_cases hun : Unmatched data s
  · obtain ⟨e, hfail⟩ := decrypt_of_unmatched (C := C) hrx hun
    rw [hfail]
    exact hrx
  · rcases decrypt_of_matched (C := C) hun with ⟨-, habort⟩ | ⟨hlt, reply, hreply⟩
    · rw [habort]
      exact hrx
    · rw [hreply]
      exact hlt

end Refusal

/-! ## Reachable sessions -/

/-- What both ends share, and what every frame on its way is. -/
structure Linked (C : Crates) (ch : Channel) : Prop where
  key : ∀ side, (ch side).session.cipher.key = (ch side.other).session.cipher.key
  noncePrefix : ∀ side, (ch side).session.rxNoncePrefix = (ch side.other).session.txNoncePrefix
  rxSequence_lt : ∀ side, (ch side).session.rxSequence < 2 ^ 64
  sent : ∀ side, ∀ pair ∈ (ch side).sent, ∃ seq ciphertext, seq < 2 ^ 64 - 2
    ∧ C.encrypt (ch side).session.cipher.key
        (constructNonce (ch side).session.txNoncePrefix seq) pair.1 = some ciphertext
    ∧ pair.2 = wireFrame seq (constructNonce (ch side).session.txNoncePrefix seq) ciphertext

section Link

variable {C : Crates} {ch : Channel} {side : Side}

def SecureSession.derived (s : SecureSession) : FixedBytes 32 × FixedBytes 4 × FixedBytes 4 :=
  (s.cipher.key, s.txNoncePrefix, s.rxNoncePrefix)

theorem derived_step (a : Action) (ch : Channel) (side : Side) :
    ((step C a ch).2 side).session.derived = (ch side).session.derived := by
  obtain hs | ⟨plaintext, hs⟩ | ⟨data, -, hs⟩ := step_cases C a ch side
  · rw [hs]
  · rw [hs, Endpoint.session_encrypted]
    rcases encrypt_snd C (ch side).session plaintext with hs | hs
    · rw [hs]
    · rw [hs]
      rfl
  · rw [hs, Endpoint.session_decrypted]
    rcases decrypt_snd C (ch side).session data with hs | hs
    · rw [hs]
    · rw [hs]
      rfl

theorem key_step (a : Action) (ch : Channel) (side : Side) :
    ((step C a ch).2 side).session.cipher.key = (ch side).session.cipher.key :=
  congrArg Prod.fst (derived_step a ch side)

theorem txNoncePrefix_step (a : Action) (ch : Channel) (side : Side) :
    ((step C a ch).2 side).session.txNoncePrefix = (ch side).session.txNoncePrefix :=
  congrArg (fun d => d.2.1) (derived_step a ch side)

theorem rxNoncePrefix_step (a : Action) (ch : Channel) (side : Side) :
    ((step C a ch).2 side).session.rxNoncePrefix = (ch side).session.rxNoncePrefix :=
  congrArg (fun d => d.2.2) (derived_step a ch side)

theorem rxSequence_step (a : Action) {ch : Channel} (h : (ch side).session.rxSequence < 2 ^ 64) :
    ((step C a ch).2 side).session.rxSequence < 2 ^ 64 := by
  by_cases ha : ∃ data, a = .decrypt side data
  · obtain ⟨data, rfl⟩ := ha
    simp only [step, Function.update_self, Endpoint.session_decrypted]
    exact decrypt_snd_lt h
  · rw [(received_step C ch (not_exists.mp ha)).1]
    exact h

variable {plaintext : Bytes} {pair : Bytes × Bytes}

theorem sent_encrypt {e : Endpoint}
    (h : pair ∈ (e.encrypted plaintext (encrypt C plaintext e.session)).sent) :
    pair ∈ e.sent ∨ ∃ seq ciphertext, seq < 2 ^ 64 - 2
      ∧ C.encrypt e.session.cipher.key (constructNonce e.session.txNoncePrefix seq) pair.1
          = some ciphertext
      ∧ pair.2 = wireFrame seq (constructNonce e.session.txNoncePrefix seq) ciphertext := by
  by_cases hlt : e.session.txSequence < 2 ^ 64 - 2
  · rw [encrypt_of_lt C e.session plaintext hlt] at h
    rcases hct : C.encrypt e.session.cipher.key
        (constructNonce e.session.txNoncePrefix e.session.txSequence) plaintext with _ | ciphertext
    · rw [hct] at h
      exact .inl h
    · rw [hct] at h
      rcases List.mem_append.mp h with hold | hnew
      · exact .inl hold
      · rw [List.mem_singleton.mp hnew]
        exact .inr ⟨_, ciphertext, hlt, hct, rfl⟩
  · obtain ⟨e', hfail⟩ := encrypt_exhausted C e.session plaintext (by omega)
    rw [hfail] at h
    exact .inl h

theorem sent_of_step {a : Action} (h : pair ∈ ((step C a ch).2 side).sent) :
    pair ∈ (ch side).sent ∨ ∃ seq ciphertext, seq < 2 ^ 64 - 2
      ∧ C.encrypt (ch side).session.cipher.key
          (constructNonce (ch side).session.txNoncePrefix seq) pair.1 = some ciphertext
      ∧ pair.2 = wireFrame seq (constructNonce (ch side).session.txNoncePrefix seq) ciphertext := by
  obtain hs | ⟨plaintext, hs⟩ | ⟨data, -, hs⟩ := step_cases C a ch side
  · rw [hs] at h
    exact .inl h
  · rw [hs] at h
    exact sent_encrypt h
  · rw [hs] at h
    rcases hcall : decrypt C data (ch side).session with ⟨_ | _, _⟩ <;>
      exact .inl (by rwa [hcall] at h)

/-- Whatever is encrypted or decrypted, the sessions stay linked. -/
theorem linked_step (h : Linked C ch) (a : Action) : Linked C (step C a ch).2 where
  key side := by
    rw [key_step, key_step]
    exact h.key side
  noncePrefix side := by
    rw [rxNoncePrefix_step, txNoncePrefix_step]
    exact h.noncePrefix side
  rxSequence_lt side := rxSequence_step a (h.rxSequence_lt side)
  sent side pair hpair := by
    rw [key_step, txNoncePrefix_step]
    rcases sent_of_step hpair with hold | hnew
    · exact h.sent side pair hold
    · exact hnew

/-- A frame of the other side under the expected number is opened. -/
theorem decrypt_genuine (hC : C.Correct) (h : Linked C ch) {frame : Bytes}
    (hsent : (plaintext, frame) ∈ (ch side.other).sent)
    (hseq : frameSeq frame = (ch side).session.rxSequence) :
    decrypt C frame (ch side).session = (.ok plaintext, (ch side).session.afterDecrypt) := by
  obtain ⟨seq, ciphertext, hlt, hencrypt, hframe⟩ := h.sent side.other _ hsent
  have hframe : frame = wireFrame seq
      (constructNonce (ch side.other).session.txNoncePrefix seq) ciphertext := hframe
  rw [← h.key side, ← h.noncePrefix side] at hencrypt
  rw [← h.noncePrefix side] at hframe
  have hnumber : frameSeq frame = seq := by
    rw [hframe, frameSeq, wireFrame, List.append_assoc, List.take_left' (Bytes.length_toLE _ _),
      Bytes.ofLE_toLE_of_lt (by omega)]
  rw [hframe]
  exact decrypt_wireFrame hC (by omega) (hseq.symm.trans hnumber) hencrypt

/-- Frames that are too short or carry another number leave both sides as they were. -/
theorem run_unmatched (h : Linked C ch) {refused : List Bytes}
    (hun : ∀ data ∈ refused, Unmatched data (ch side).session) :
    (run (step C) (refused.map (.decrypt side)) ch).2 = ch := by
  induction refused with
  | nil => rfl
  | cons data refused ih =>
    obtain ⟨hdata, hrest⟩ := List.forall_mem_cons.mp hun
    obtain ⟨e, hfail⟩ := decrypt_of_unmatched (C := C) (h.rxSequence_lt side) hdata
    have hstep : (step C (.decrypt side data) ch).2 = ch := by
      rw [step, hfail]
      exact Function.update_eq_self side ch
    rw [List.map_cons, run_cons, hstep]
    exact ih hrest

end Link

/-! ## Runs -/

section Run

variable {C : Crates} {sharedSecret clientPubkey serverPubkey salt : Bytes}
  {client server : SecureSession}

theorem linked_init
    (hclient : fromSharedSecretWithSalt C sharedSecret clientPubkey serverPubkey false salt
      = .ok client)
    (hserver : fromSharedSecretWithSalt C sharedSecret clientPubkey serverPubkey true salt
      = .ok server) : Linked C (.init client server) := by
  have hpaired := paired_of_derived hserver hclient
  refine ⟨?_, ?_, ?_, ?_⟩
  · intro side
    cases side with
    | client => exact hpaired.1.key
    | server => exact hpaired.2.key
  · intro side
    cases side with
    | client => exact hpaired.2.noncePrefix.symm
    | server => exact hpaired.1.noncePrefix.symm
  · intro side
    cases side with
    | client =>
      show client.rxSequence < 2 ^ 64
      rw [(fromSharedSecretWithSalt_ok hclient).2.2]
      decide
    | server =>
      show server.rxSequence < 2 ^ 64
      rw [(fromSharedSecretWithSalt_ok hserver).2.2]
      decide
  · intro side pair hpair
    cases side <;> exact absurd hpair List.not_mem_nil

/-- In every reachable state of either session, a refused frame leaves the session as it was, and
the other side's frame of the expected number acceptable, just when it is too short or carries
another number; otherwise it spends the number it carries.  Any frames of the first kind leave the
session ready for that frame. -/
theorem refused_frames (hC : C.Correct)
    (hclient : fromSharedSecretWithSalt C sharedSecret clientPubkey serverPubkey false salt
      = .ok client)
    (hserver : fromSharedSecretWithSalt C sharedSecret clientPubkey serverPubkey true salt
      = .ok server) (as : List Action) (side : Side) :
    let ch := (run (step C) as (.init client server)).2
    (∀ data e s', decrypt C data (ch side).session = (fail e, s') →
        (s' = (ch side).session ↔ Unmatched data (ch side).session)
          ∧ (¬ Unmatched data (ch side).session → s' = (ch side).session.afterDecrypt)
          ∧ ∀ plaintext frame, (plaintext, frame) ∈ (ch side.other).sent →
            frameSeq frame = (ch side).session.rxSequence →
            ((decrypt C frame s').1 = .ok plaintext ↔ Unmatched data (ch side).session))
      ∧ ∀ refused : List Bytes,
        (∀ data ∈ refused, Unmatched data (ch side).session) →
        ∀ plaintext frame, (plaintext, frame) ∈ (ch side.other).sent →
          frameSeq frame = (ch side).session.rxSequence →
          (decrypt C frame ((run (step C) (as ++ refused.map (.decrypt side))
            (.init client server)).2 side).session).1 = .ok plaintext := by
  intro ch
  have hlinked : Linked C ch :=
    run_invariant (I := Linked C) (fun a ch h _ => linked_step h a) as _
      (linked_init hclient hserver) (along_of_forall (fun _ _ => trivial) as _)
  have hrx := hlinked.rxSequence_lt side
  refine ⟨?_, ?_⟩
  · intro data e s' h
    obtain ⟨hun, rfl⟩ | ⟨hmatched, rfl⟩ := decrypt_refused hrx h
    · refine ⟨iff_of_true rfl hun, fun hmatched => absurd hun hmatched, ?_⟩
      intro plaintext frame hsent hseq
      exact iff_of_true (congrArg Prod.fst (decrypt_genuine hC hlinked hsent hseq)) hun
    · have hnext := @decrypt_snd_lt C _ data hrx
      rw [h] at hnext
      refine ⟨iff_of_false (afterDecrypt_ne _) hmatched, fun _ => rfl, ?_⟩
      intro plaintext frame _ hseq
      exact iff_of_false (decrypt_afterDecrypt_ne hnext hseq plaintext) hmatched
  · intro refused hun plaintext frame hsent hseq
    rw [run_append]
    show (decrypt C frame ((run (step C) (refused.map (.decrypt side)) ch).2
      side).session).1 = _
    rw [run_unmatched hlinked hun, decrypt_genuine hC hlinked hsent hseq]

end Run

/-! ### A frame of zeros -/

/-- A frame with another number, a short one, and one with the right number. -/
theorem refused_frames_reordered :
    (∀ data e s', decrypt plainCrates data ((run (step plainCrates) reorderedRun
          (.init (plainSession false) (plainSession true))).2 .server).session = (fail e, s') →
        (s' = ((run (step plainCrates) reorderedRun
            (.init (plainSession false) (plainSession true))).2 .server).session
          ↔ Unmatched data ((run (step plainCrates) reorderedRun
            (.init (plainSession false) (plainSession true))).2 .server).session))
      ∧ (decrypt plainCrates (plainFrame 0 [1]) (plainSession true).afterDecrypt).1 ≠ .ok [1]
      ∧ (decrypt plainCrates (plainFrame 0 [1]) ((run (step plainCrates)
          ([.encrypt .client [1]] ++ [plainFrame 2 [2], [0]].map (.decrypt .server))
          (.init (plainSession false) (plainSession true))).2 .server).session).1 = .ok [1] := by
  have hreordered := refused_frames plainCrates_correct (fromSharedSecret_plain false)
    (fromSharedSecret_plain true) reorderedRun .server
  have hsent := refused_frames plainCrates_correct (fromSharedSecret_plain false)
    (fromSharedSecret_plain true) [.encrypt .client [1]] .server
  refine ⟨fun data e s' h => (hreordered.1 data e s' h).1, ?_, ?_⟩
  · have hspent := (hsent.1 (List.replicate 36 0) (.other "Nonce mismatch (possible tampering)")
      (plainSession true).afterDecrypt (by decide +kernel)).2.2 [1] (plainFrame 0 [1])
      (by decide +kernel) (by decide +kernel)
    exact hspent.not.mpr (by decide +kernel)
  · exact hsent.2 [plainFrame 2 [2], [0]] (by decide +kernel) [1] (plainFrame 0 [1])
      (by decide +kernel) (by decide +kernel)

/-- A frame of zeros is refused for its nonce, and with it the genuine frame of its number. -/
theorem zeros_spend_number :
    ∃ e s', decrypt plainCrates (List.replicate 36 0) (plainSession true) = (fail e, s')
      ∧ s' ≠ plainSession true
      ∧ (decrypt plainCrates (plainFrame 0 [1]) (plainSession true)).1 = .ok [1]
      ∧ (decrypt plainCrates (plainFrame 0 [1]) s').1 ≠ .ok [1] := by
  refine ⟨.other "Nonce mismatch (possible tampering)", (plainSession true).afterDecrypt, ?_,
    afterDecrypt_ne _, ?_, ?_⟩
  · decide +kernel
  · decide +kernel
  · decide +kernel

end WritersProof.Ipc
