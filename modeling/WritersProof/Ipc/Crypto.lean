/-
  WritersProof.Ipc.Crypto

  The encrypted session of an IPC connection (crates/cpoe/src/ipc/crypto.rs).

  Both directions use one AES-256-GCM key.  A frame is

    [seq 8 LE][nonce 12][ciphertext and tag]

  with the nonce made of a derived prefix and the sequence number; the client
  numbers its frames 0, 2, 4, …, the server 1, 3, 5, …

  The compare-and-swap loops are one step each: a call that loses the race tries
  again on the value it then finds.
-/
import WritersProof.Lib.Vec
import WritersProof.Lib.Bytes

namespace WritersProof.Ipc

open Rust Bytes

abbrev Nonce := FixedBytes 12

inductive IpcError where
  | sequenceDesync (expected got : Nat)
  | other (message : String)
  deriving DecidableEq

structure Crates where
  /-- `Hkdf::<Sha256>::new(Some(salt), ikm).expand(info, [u8; n])` -/
  hkdf : (salt ikm info : Bytes) → (n : Nat) → Option (FixedBytes n)
  /-- AES-256-GCM of a message under a key and a nonce -/
  encrypt : FixedBytes 32 → Nonce → Bytes → Option Bytes
  decrypt : FixedBytes 32 → Nonce → Bytes → Option Bytes

/-- One call of the cipher's `encrypt`. -/
structure Encryption where
  nonce : Nonce
  plaintext : Bytes
  ciphertext : Option Bytes
  deriving DecidableEq

/-- `Aes256Gcm`, with the encryptions it has been used for. -/
structure Aes256Gcm where
  key : FixedBytes 32
  made : List Encryption
  deriving DecidableEq

/-- Per-connection session; `tx` numbers are odd at the server, even at the client. -/
structure SecureSession where
  cipher : Aes256Gcm
  txSequence : Nat
  rxSequence : Nat
  txNoncePrefix : FixedBytes 4
  rxNoncePrefix : FixedBytes 4
  deriving DecidableEq

def constructNonce (noncePrefix : FixedBytes 4) (seq : Nat) : Nonce :=
  ⟨noncePrefix.val ++ toLE 8 seq, by simp⟩

/-! ## Derivation -/

/-- Uncompressed P-256 point. -/
def P256_PUBLIC_KEY_SIZE : Nat := 65

def IPC_HKDF_SALT : Bytes := utf8 "cpoe-ipc-v1"

def fromSharedSecretWithSalt (C : Crates) (sharedSecret clientPubkey serverPubkey : Bytes)
    (isServer : Bool) (salt : Bytes) : Res IpcError SecureSession := do
  reject (sharedSecret.length < 32)
    (.other s!"shared secret too short: {sharedSecret.length} bytes (expected 32)")
  reject (clientPubkey.length ≠ P256_PUBLIC_KEY_SIZE)
    (.other (s!"client pubkey wrong size: {clientPubkey.length} bytes " ++
      s!"(expected {P256_PUBLIC_KEY_SIZE})"))
  reject (serverPubkey.length ≠ P256_PUBLIC_KEY_SIZE)
    (.other (s!"server pubkey wrong size: {serverPubkey.length} bytes " ++
      s!"(expected {P256_PUBLIC_KEY_SIZE})"))
  let info := utf8 "aes-256-gcm-key" ++ clientPubkey ++ serverPubkey
  let keyBytes ← okOr (C.hkdf salt sharedSecret info 32) (.other "HKDF expand failed")
  let clientPrefix ← okOr (C.hkdf salt sharedSecret (utf8 "nonce-prefix-client") 4)
    (.other "HKDF expand for client nonce prefix failed")
  let serverPrefix ← okOr (C.hkdf salt sharedSecret (utf8 "nonce-prefix-server") 4)
    (.other "HKDF expand for server nonce prefix failed")
  -- A key of 32 bytes never fails `Aes256Gcm::new_from_slice`.
  .ok {
    cipher := { key := keyBytes, made := [] }
    txSequence := if isServer then 1 else 0
    rxSequence := if isServer then 0 else 1
    txNoncePrefix := if isServer then serverPrefix else clientPrefix
    rxNoncePrefix := if isServer then clientPrefix else serverPrefix }

/-- A derived session has encrypted nothing and starts at the numbers of its side. -/
theorem fromSharedSecretWithSalt_ok {C : Crates} {sharedSecret clientPubkey serverPubkey : Bytes}
    {isServer : Bool} {salt : Bytes} {s : SecureSession}
    (h : fromSharedSecretWithSalt C sharedSecret clientPubkey serverPubkey isServer salt = .ok s) :
    s.cipher.made = [] ∧ s.txSequence = (if isServer then 1 else 0)
      ∧ s.rxSequence = (if isServer then 0 else 1) := by
  unfold fromSharedSecretWithSalt at h
  simp only [reject_bind_eq_ok] at h
  obtain ⟨-, -, -, h⟩ := h
  obtain ⟨key, -, h⟩ := res_bind_eq_ok.mp h
  obtain ⟨clientPrefix, -, h⟩ := res_bind_eq_ok.mp h
  obtain ⟨serverPrefix, -, h⟩ := res_bind_eq_ok.mp h
  cases h
  exact ⟨rfl, rfl, rfl⟩

/-- The session of the Unix-socket channel. -/
def fromSharedSecret (C : Crates) (sharedSecret clientPubkey serverPubkey : Bytes)
    (isServer : Bool) : Res IpcError SecureSession :=
  fromSharedSecretWithSalt C sharedSecret clientPubkey serverPubkey isServer IPC_HKDF_SALT

/-! ## Frames -/

/-- Take the next sequence number to send with. -/
def takeTx : Call SecureSession IpcError Nat := fun s =>
  if s.txSequence ≥ 2 ^ 64 - 1 - 1 then
    (fail (.other "tx_sequence exhausted (would overflow); session must be rekeyed"), s)
  else (.ok s.txSequence, { s with txSequence := s.txSequence + 2 })

def cipherEncrypt (C : Crates) (nonce : Nonce) (plaintext : Bytes) :
    Call SecureSession IpcError Bytes := fun s =>
  let ciphertext := C.encrypt s.cipher.key nonce plaintext
  (okOr ciphertext (.other "AES-GCM encrypt failed"),
    { s with cipher.made := s.cipher.made ++ [⟨nonce, plaintext, ciphertext⟩] })

/-- `[seq 8 LE][nonce 12][ciphertext and tag]` -/
def wireFrame (seq : Nat) (nonce : Nonce) (ciphertext : Bytes) : Bytes :=
  toLE 8 seq ++ nonce.val ++ ciphertext

/-- Encrypt a payload.  The number is spent even when the cipher fails. -/
def encrypt (C : Crates) (plaintext : Bytes) : Call SecureSession IpcError Bytes := do
  let seq ← takeTx
  let noncePrefix ← Call.asks SecureSession.txNoncePrefix
  let nonce := constructNonce noncePrefix seq
  let ciphertext ← cipherEncrypt C nonce plaintext
  pure (wireFrame seq nonce ciphertext)

/-- Check a sequence number against the expected one and spend it.  `current + 2` is a
checked addition. -/
def takeRx (seq : Nat) : Call SecureSession IpcError Nat := fun s =>
  if toLE 8 seq ≠ toLE 8 s.rxSequence then
    (fail (.sequenceDesync s.rxSequence seq), s)
  else if s.rxSequence + 2 < 2 ^ 64 then
    (.ok s.rxSequence, { s with rxSequence := s.rxSequence + 2 })
  else (abort, s)

def frameSeq (data : Bytes) : Nat := ofLE (data.take 8)

theorem frameSeq_lt (data : Bytes) : frameSeq data < 2 ^ 64 := by
  have hof := ofBE_lt (data.take 8).reverse
  have hlen : (data.take 8).reverse.length ≤ 8 := by
    rw [List.length_reverse, List.length_take]
    exact Nat.min_le_left _ _
  calc frameSeq data < 256 ^ (data.take 8).reverse.length := hof
    _ ≤ 256 ^ 8 := Nat.pow_le_pow_right (by norm_num) hlen
    _ = 2 ^ 64 := by norm_num

/-- Decrypt a frame.  The number is spent before nonce and tag are checked. -/
def decrypt (C : Crates) (data : Bytes) : Call SecureSession IpcError Bytes := do
  Call.reject (data.length < 36) (.other s!"Encrypted message too short: {data.length} bytes")
  let expectedSeq ← takeRx (frameSeq data)
  let noncePrefix ← Call.asks SecureSession.rxNoncePrefix
  let expectedNonce := constructNonce noncePrefix expectedSeq
  Call.reject (expectedNonce.val ≠ (data.drop 8).take 12)
    (.other "Nonce mismatch (possible tampering)")
  let cipher ← Call.asks SecureSession.cipher
  Call.lift (okOr (C.decrypt cipher.key expectedNonce (data.drop 20))
    (.other "AES-GCM decrypt failed (tampered or wrong key)"))

/-! ## What a call does -/

/-- The session after its next number has gone into an encryption. -/
def SecureSession.afterEncrypt (C : Crates) (plaintext : Bytes) (s : SecureSession) :
    SecureSession :=
  let nonce := constructNonce s.txNoncePrefix s.txSequence
  { s with
    txSequence := s.txSequence + 2
    cipher.made := s.cipher.made ++ [⟨nonce, plaintext, C.encrypt s.cipher.key nonce plaintext⟩] }

def SecureSession.afterDecrypt (s : SecureSession) : SecureSession :=
  { s with rxSequence := s.rxSequence + 2 }

section Spec

variable (C : Crates) (s : SecureSession)

/-- The counter stops two numbers short of the end, before anything is encrypted. -/
theorem encrypt_exhausted (plaintext : Bytes) (h : 2 ^ 64 - 2 ≤ s.txSequence) :
    ∃ e, encrypt C plaintext s = (fail e, s) := by
  have htake : takeTx s =
      (fail (.other "tx_sequence exhausted (would overflow); session must be rekeyed"), s) := by
    rw [takeTx, if_pos (by omega)]
  exact ⟨_, Call.bind_of_error htake⟩

theorem encrypt_of_lt (plaintext : Bytes) (h : s.txSequence < 2 ^ 64 - 2) :
    encrypt C plaintext s =
      ((okOr (C.encrypt s.cipher.key (constructNonce s.txNoncePrefix s.txSequence) plaintext)
        (.other "AES-GCM encrypt failed")).map
          (wireFrame s.txSequence (constructNonce s.txNoncePrefix s.txSequence)),
        s.afterEncrypt C plaintext) := by
  have htake : takeTx s = (.ok s.txSequence, { s with txSequence := s.txSequence + 2 }) := by
    rw [takeTx, if_neg (by omega)]
  unfold encrypt
  rw [Call.bind_of_ok htake, Call.asks_bind, Call.bind_apply, cipherEncrypt,
    SecureSession.afterEncrypt]
  cases C.encrypt s.cipher.key (constructNonce s.txNoncePrefix s.txSequence) plaintext with
  | none => rfl
  | some ciphertext => rfl

/-- Whatever a plaintext does, it spends one number at most. -/
theorem encrypt_snd (plaintext : Bytes) :
    (encrypt C plaintext s).2 = s ∨ (encrypt C plaintext s).2 = s.afterEncrypt C plaintext := by
  by_cases h : s.txSequence < 2 ^ 64 - 2
  · rw [encrypt_of_lt C s plaintext h]
    exact .inr rfl
  · obtain ⟨_, hfail⟩ := encrypt_exhausted C s plaintext (by omega)
    rw [hfail]
    exact .inl rfl

variable {C s}

theorem takeRx_eq_ok {seq expected : Nat} {s' : SecureSession} :
    takeRx seq s = (.ok expected, s') ↔
      toLE 8 seq = toLE 8 s.rxSequence ∧ s.rxSequence + 2 < 2 ^ 64
        ∧ expected = s.rxSequence ∧ s' = s.afterDecrypt := by
  unfold takeRx
  split
  next hne => simp [hne, fail]
  next heq =>
    rw [Decidable.not_not] at heq
    split
    next hlt =>
      constructor
      · intro h
        cases h
        exact ⟨heq, hlt, rfl, rfl⟩
      · rintro ⟨-, -, rfl, rfl⟩
        rfl
    next hge => exact ⟨by rintro ⟨⟩, fun h => absurd h.2.1 hge⟩

/-- A frame is accepted when it is the frame of its nonce and ciphertext for the expected
number and the cipher opens it. -/
theorem decrypt_eq_ok {data plaintext : Bytes} {s' : SecureSession} :
    decrypt C data s = (.ok plaintext, s') ↔
      36 ≤ data.length ∧ toLE 8 (frameSeq data) = toLE 8 s.rxSequence
        ∧ s.rxSequence + 2 < 2 ^ 64
        ∧ (constructNonce s.rxNoncePrefix s.rxSequence).val = (data.drop 8).take 12
        ∧ C.decrypt s.cipher.key (constructNonce s.rxNoncePrefix s.rxSequence) (data.drop 20)
            = some plaintext
        ∧ s' = s.afterDecrypt := by
  unfold decrypt
  rw [Call.reject_bind_eq_ok, Call.bind_eq_ok, not_lt]
  constructor
  · rintro ⟨hlen, expected, t, htake, hrest⟩
    obtain ⟨hseq, hlt, rfl, rfl⟩ := takeRx_eq_ok.mp htake
    rw [Call.asks_bind, Call.reject_bind_eq_ok, Decidable.not_not, Call.asks_bind,
      Call.lift_apply, Prod.mk.injEq, okOr_eq_ok] at hrest
    exact ⟨hlen, hseq, hlt, hrest.1, hrest.2.1, hrest.2.2.symm⟩
  · rintro ⟨hlen, hseq, hlt, hnonce, hopen, rfl⟩
    refine ⟨hlen, _, _, takeRx_eq_ok.mpr ⟨hseq, hlt, rfl, rfl⟩, ?_⟩
    rw [Call.asks_bind, Call.reject_bind_eq_ok, Decidable.not_not, Call.asks_bind,
      Call.lift_apply, Prod.mk.injEq, okOr_eq_ok]
    exact ⟨hnonce, hopen, rfl⟩

variable (C s)

/-- Whatever a frame does, it spends one number at most. -/
theorem decrypt_snd (data : Bytes) :
    (decrypt C data s).2 = s ∨ (decrypt C data s).2 = s.afterDecrypt := by
  unfold decrypt
  by_cases hlen : data.length < 36
  · rw [Call.reject_bind_pos hlen]
    exact .inl rfl
  rw [Call.reject_bind_neg hlen, Call.bind_apply]
  rcases htake : takeRx (frameSeq data) s with ⟨e | expected, t⟩
  · left
    unfold takeRx at htake
    split at htake
    · exact (Prod.mk.inj htake).2.symm
    · split at htake
      · cases htake
      · exact (Prod.mk.inj htake).2.symm
  · right
    obtain ⟨-, -, -, rfl⟩ := takeRx_eq_ok.mp htake
    simp only [Call.asks_bind]
    by_cases hnonce : (constructNonce s.afterDecrypt.rxNoncePrefix expected).val
        ≠ (data.drop 8).take 12
    · rw [Call.reject_bind_pos hnonce]
    · rw [Call.reject_bind_neg hnonce, Call.asks_bind, Call.lift_apply]

end Spec

theorem wireFrame_of_accepted {C : Crates} {data plaintext : Bytes} {s s' : SecureSession}
    (h : decrypt C data s = (.ok plaintext, s')) :
    data = wireFrame s.rxSequence (constructNonce s.rxNoncePrefix s.rxSequence) (data.drop 20) := by
  obtain ⟨hlen, hseq, -, hnonce, -⟩ := decrypt_eq_ok.mp h
  have htake : data.take 8 = toLE 8 s.rxSequence := by
    rw [← hseq, frameSeq]
    have hlength : (data.take 8).length = 8 := by
      rw [List.length_take]
      omega
    have hcodec := toLE_ofLE (data.take 8)
    rw [hlength] at hcodec
    exact hcodec.symm
  have hdrop : data.drop 20 = (data.drop 8).drop 12 := by rw [List.drop_drop]
  rw [wireFrame, hnonce, hdrop, List.append_assoc, List.take_append_drop, ← htake,
    List.take_append_drop]

end WritersProof.Ipc
