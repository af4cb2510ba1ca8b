/-
  WritersProof.Lib.Ed25519

  Ed25519 keys and signatures as `ed25519_dalek` has them.  The curve is a parameter:
  what verifies is a matter of the functions below.
-/
import WritersProof.Lib.Bytes

namespace Rust

structure Ed25519 where
  /-- `SigningKey::from_bytes(seed).verifying_key().to_bytes()` -/
  publicKey : FixedBytes 32 → FixedBytes 32
  /-- `SigningKey::from_bytes(seed).sign(message).to_bytes()` -/
  sign : FixedBytes 32 → Bytes → FixedBytes 64
  /-- `VerifyingKey::from_bytes` finds a point. -/
  validKey : FixedBytes 32 → Bool
  verify : FixedBytes 32 → Bytes → FixedBytes 64 → Bool
  verifyStrict : FixedBytes 32 → Bytes → FixedBytes 64 → Bool

namespace Ed25519

/-- A signature verifies under the public key of its signer, strictly too. -/
structure Correct (E : Ed25519) : Prop where
  validKey_publicKey : ∀ seed, E.validKey (E.publicKey seed) = true
  verify_sign : ∀ seed message, E.verify (E.publicKey seed) message (E.sign seed message) = true
  verifyStrict_sign : ∀ seed message,
    E.verifyStrict (E.publicKey seed) message (E.sign seed message) = true

/-- No key but the signer's verifies a signature. -/
def Exclusive (E : Ed25519) : Prop :=
  ∀ seed key message, E.verify key message (E.sign seed message) = true → key = E.publicKey seed

/-- Keys that are their own public keys, and signatures that are verified by making them again. -/
def remaking (sign : FixedBytes 32 → Bytes → FixedBytes 64) : Ed25519 where
  publicKey := id
  sign
  validKey _ := true
  verify key message signature := signature.val = (sign key message).val
  verifyStrict key message signature := signature.val = (sign key message).val

theorem remaking_correct (sign : FixedBytes 32 → Bytes → FixedBytes 64) :
    (remaking sign).Correct :=
  ⟨fun _ => rfl, fun _ _ => decide_eq_true rfl, fun _ _ => decide_eq_true rfl⟩

/-- The sum of the key and the message. -/
def summing : Ed25519 :=
  remaking fun key message => FixedBytes.filled 64 (key.val.sum + message.sum)

end Ed25519

end Rust
