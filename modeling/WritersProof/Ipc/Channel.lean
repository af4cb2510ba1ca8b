/-
  WritersProof.Ipc.Channel

  The two sessions of one handshake and a network that the adversary owns
  (crates/cpoe/src/ipc/crypto.rs).

  A run is a list of `encrypt` and `decrypt` calls at either side, in any order
  and on any frames: dropping, delaying, repeating, reordering, changing and
  inventing frames are all a matter of which frames the `decrypt` calls get.

    * `nonces_nodup` holds on every run.
    * What a side accepts is a prefix of what the other one encrypted as long as
      no side that has refused the frame of an expected number gets a genuine
      one afterwards.  `decrypt` spends the number before it checks nonce and
      tag, so a forgery takes the place of the frame that it stands for.
-/
import WritersProof.Ipc.Crypto
import WritersProof.Lib.Machine
import Mathlib.Data.List.Infix
import Mathlib.Data.List.Nodup
import Mathlib.Logic.Function.Basic

namespace WritersProof.Ipc

open Rust Machine

inductive Side where
  | client
  | server
  deriving DecidableEq

namespace Side

def other : Side → Side
  | client => server
  | server => client

def isServer (side : Side) : Bool := side = server

def start : Side → Nat
  | client => 0
  | server => 1

theorem other_ne (side : Side) : side.other ≠ side := by
  cases side <;> decide

theorem start_le_one (side : Side) : side.start ≤ 1 := by
  cases side <;> decide

theorem start_other_add (side : Side) : side.other.start + side.start = 1 := by
  cases side <;> rfl

end Side

/-- A session, the plaintexts it has encrypted with their frames, and the plaintexts it has
accepted. -/
structure Endpoint where
  session : SecureSession
  sent : List (Bytes × Bytes)
  accepted : List Bytes

abbrev Channel := Side → Endpoint

inductive Action where
  | encrypt (side : Side) (plaintext : Bytes)
  | decrypt (side : Side) (data : Bytes)

def Endpoint.encrypted (e : Endpoint) (plaintext : Bytes) :
    Res IpcError Bytes × SecureSession → Endpoint
  | (.ok frame, s) => { e with session := s, sent := e.sent ++ [(plaintext, frame)] }
  | (.error _, s) => { e with session := s }

def Endpoint.decrypted (e : Endpoint) : Res IpcError Bytes × SecureSession → Endpoint
  | (.ok plaintext, s) => { e with session := s, accepted := e.accepted ++ [plaintext] }
  | (.error _, s) => { e with session := s }

def step (C : Crates) : Action → Channel → Res IpcError Bytes × Channel
  | .encrypt side plaintext, ch =>
    let reply := encrypt C plaintext (ch side).session
    (reply.1, Function.update ch side ((ch side).encrypted plaintext reply))
  | .decrypt side data, ch =>
    let reply := decrypt C data (ch side).session
    (reply.1, Function.update ch side ((ch side).decrypted reply))

def Endpoint.fresh (s : SecureSession) : Endpoint := { session := s, sent := [], accepted := [] }

/-- Both ends of a handshake that agreed on a secret. -/
def Channel.init (client server : SecureSession) : Channel
  | .client => .fresh client
  | .server => .fresh server

def Channel.nonces (ch : Channel) : List (FixedBytes 32 × Nonce) :=
  let used (s : SecureSession) := s.cipher.made.map fun e => (s.cipher.key, e.nonce)
  used (ch .client).session ++ used (ch .server).session

/-! ## Conditions on a run -/

/-- AES-GCM is authentic: what the cipher opens is what one of the sides encrypted under that
nonce. -/
def Authentic (C : Crates) : Action → Channel → Prop
  | .encrypt _ _, _ => True
  | .decrypt side data, ch =>
    let s := (ch side).session
    let nonce := constructNonce s.rxNoncePrefix s.rxSequence
    ∀ plaintext ∈ C.decrypt s.cipher.key nonce (data.drop 20),
      ⟨nonce, plaintext, some (data.drop 20)⟩ ∈ s.cipher.made
        ∨ ⟨nonce, plaintext, some (data.drop 20)⟩ ∈ (ch side.other).session.cipher.made

instance (C : Crates) : ∀ a ch, Decidable (Authentic C a ch)
  | .encrypt _ _, _ => inferInstanceAs (Decidable True)
  | .decrypt _ _, _ => inferInstanceAs (Decidable (∀ _ ∈ _, _))

/-- The side has spent a number on a frame that it then refused. -/
def Lost (side : Side) (ch : Channel) : Prop :=
  (ch side).session.rxSequence ≠ side.other.start + 2 * (ch side).accepted.length

instance (side : Side) (ch : Channel) : Decidable (Lost side ch) :=
  inferInstanceAs (Decidable (_ ≠ _))

/-- The frame that the other side sent under the number that this one expects. -/
def Genuine (side : Side) (data : Bytes) (ch : Channel) : Prop :=
  frameSeq data = (ch side).session.rxSequence ∧ data ∈ (ch side.other).sent.map Prod.snd

instance (side : Side) (data : Bytes) (ch : Channel) : Decidable (Genuine side data ch) :=
  inferInstanceAs (Decidable (_ ∧ _))

/-- A side that has lost a number gets no genuine frame. -/
def NoFrameAfterLoss : Action → Channel → Prop
  | .encrypt _ _, _ => True
  | .decrypt side data, ch => Lost side ch → ¬ Genuine side data ch

instance : ∀ a ch, Decidable (NoFrameAfterLoss a ch)
  | .encrypt _ _, _ => inferInstanceAs (Decidable True)
  | .decrypt _ _, _ => inferInstanceAs (Decidable (_ → _))

/-! ## Sending -/

def Encryption.sent (e : Encryption) : Option Bytes := e.ciphertext.map fun _ => e.plaintext

/-- The `i`-th encryption of a side has gone under its `i`-th number. -/
structure Sends (side : Side) (e : Endpoint) : Prop where
  txSequence : e.session.txSequence = side.start + 2 * e.session.cipher.made.length
  txSequence_lt : e.session.txSequence < 2 ^ 64
  nonces : e.session.cipher.made.map Encryption.nonce
    = (List.range e.session.cipher.made.length).map
        fun i => constructNonce e.session.txNoncePrefix (side.start + 2 * i)
  plaintexts : e.sent.map Prod.fst = e.session.cipher.made.filterMap Encryption.sent
  frames : ∀ i x ciphertext, e.session.cipher.made[i]? = some x →
    x.ciphertext = some ciphertext →
      wireFrame (side.start + 2 * i) x.nonce ciphertext ∈ e.sent.map Prod.snd

/-- The number in a nonce can be read back, whatever its prefix. -/
theorem constructNonce_injective {p q : FixedBytes 4} {a b : Nat} (ha : a < 2 ^ 64)
    (hb : b < 2 ^ 64) (h : constructNonce p a = constructNonce q b) : a = b := by
  have hbytes : p.val ++ Bytes.toLE 8 a = q.val ++ Bytes.toLE 8 b := congrArg FixedBytes.val h
  have hlen : p.val.length = q.val.length := by
    rw [FixedBytes.length_val, FixedBytes.length_val]
  have hpow : (256 : Nat) ^ 8 = 2 ^ 64 := by norm_num
  rw [← hpow] at ha hb
  exact Bytes.toLE_injective ha hb (List.append_inj hbytes hlen).2

namespace Sends

variable {side : Side} {e : Endpoint}

theorem number_lt (h : Sends side e) {i : Nat} (hi : i < e.session.cipher.made.length) :
    side.start + 2 * i < 2 ^ 64 := by
  have htx := h.txSequence
  have hlt := h.txSequence_lt
  omega

theorem nonce_eq (h : Sends side e) {i : Nat} {x : Encryption}
    (hx : e.session.cipher.made[i]? = some x) :
    x.nonce = constructNonce e.session.txNoncePrefix (side.start + 2 * i) := by
  obtain ⟨hi, -⟩ := List.getElem?_eq_some_iff.mp hx
  have hmap := congrArg (fun ns => ns[i]?) h.nonces
  simp only [List.getElem?_map, hx, List.getElem?_range hi, Option.map_some] at hmap
  exact Option.some.inj hmap

theorem nodup (h : Sends side e) : (e.session.cipher.made.map Encryption.nonce).Nodup := by
  rw [h.nonces]
  apply List.Nodup.map_on _ List.nodup_range
  intro i hi j hj heq
  have hnumber := constructNonce_injective (h.number_lt (List.mem_range.mp hi))
    (h.number_lt (List.mem_range.mp hj)) heq
  omega

theorem fresh {s : SecureSession} (hmade : s.cipher.made = []) (htx : s.txSequence = side.start) :
    Sends side (.fresh s) where
  txSequence := by simp [Endpoint.fresh, hmade, htx]
  txSequence_lt := by
    have := side.start_le_one
    simp only [Endpoint.fresh, htx]
    omega
  nonces := by simp [Endpoint.fresh, hmade]
  plaintexts := by simp [Endpoint.fresh, hmade]
  frames := by simp [Endpoint.fresh, hmade]

/-- The next number goes into one more encryption; its frame is sent if there is one. -/
theorem afterEncrypt (h : Sends side e) (C : Crates) (plaintext : Bytes)
    (hlt : e.session.txSequence < 2 ^ 64 - 2) {sent : List (Bytes × Bytes)}
    (hplain : sent.map Prod.fst = e.sent.map Prod.fst
      ++ ((C.encrypt e.session.cipher.key
        (constructNonce e.session.txNoncePrefix e.session.txSequence) plaintext).map
          fun _ => plaintext).toList)
    (hframes : sent.map Prod.snd = e.sent.map Prod.snd
      ++ ((C.encrypt e.session.cipher.key
        (constructNonce e.session.txNoncePrefix e.session.txSequence) plaintext).map
          (wireFrame e.session.txSequence
            (constructNonce e.session.txNoncePrefix e.session.txSequence))).toList) :
    Sends side { e with session := e.session.afterEncrypt C plaintext, sent := sent } where
  txSequence := by
    have htx := h.txSequence
    simp only [SecureSession.afterEncrypt, List.length_append, List.length_singleton]
    omega
  txSequence_lt := by
    simp only [SecureSession.afterEncrypt]
    omega
  nonces := by
    simp only [SecureSession.afterEncrypt, List.map_append, List.length_append,
      List.length_singleton, List.range_succ, h.nonces, ← h.txSequence, List.map_cons,
      List.map_nil]
  plaintexts := by
    simp only [SecureSession.afterEncrypt, List.filterMap_append, ← h.plaintexts, hplain]
    rw [List.filterMap_cons, List.filterMap_nil, Encryption.sent]
    cases C.encrypt e.session.cipher.key
      (constructNonce e.session.txNoncePrefix e.session.txSequence) plaintext with
    | none => rfl
    | some ciphertext => rfl
  frames := by
    intro i x ciphertext hx hct
    simp only [SecureSession.afterEncrypt] at hx
    rw [hframes, List.mem_append]
    by_cases hi : i < e.session.cipher.made.length
    · rw [List.getElem?_append_left hi] at hx
      exact .inl (h.frames i x ciphertext hx hct)
    · rw [List.getElem?_append_right (by omega), List.getElem?_singleton] at hx
      split at hx
      next hi' =>
        right
        cases hx
        have hnumber : side.start + 2 * i = e.session.txSequence := by
          rw [h.txSequence]
          omega
        rw [show C.encrypt _ _ _ = some ciphertext from hct, hnumber]
        exact List.mem_singleton.mpr rfl
      next => cases hx

theorem encrypted (h : Sends side e) (C : Crates) (plaintext : Bytes) :
    Sends side (e.encrypted plaintext (encrypt C plaintext e.session)) := by
  by_cases hlt : e.session.txSequence < 2 ^ 64 - 2
  · rw [encrypt_of_lt C e.session plaintext hlt]
    rcases hct : C.encrypt e.session.cipher.key
        (constructNonce e.session.txNoncePrefix e.session.txSequence) plaintext with _ | ciphertext
    · exact h.afterEncrypt C plaintext hlt (by simp [hct]) (by simp [hct])
    · exact h.afterEncrypt C plaintext hlt (by simp [hct]) (by simp [hct])
  · obtain ⟨_, hfail⟩ := encrypt_exhausted C e.session plaintext (by omega)
    rw [hfail]
    exact h

theorem decrypted (h : Sends side e) (C : Crates) (data : Bytes) :
    Sends side (e.decrypted (decrypt C data e.session)) := by
  have hs := decrypt_snd C e.session data
  generalize decrypt C data e.session = reply at hs
  obtain ⟨outcome, s⟩ := reply
  -- Neither the counter nor the cipher of the sending half is touched.
  have hsend : Sends side { e with session := s } := by
    rcases hs with (rfl : s = e.session) | (rfl : s = e.session.afterDecrypt)
    · exact h
    · exact ⟨h.txSequence, h.txSequence_lt, h.nonces, h.plaintexts, h.frames⟩
  cases outcome with
  | error _ => exact hsend
  | ok _ => exact ⟨hsend.txSequence, hsend.txSequence_lt, hsend.nonces, hsend.plaintexts,
      hsend.frames⟩

end Sends

/-! ## Both sides -/

@[simp] theorem Endpoint.session_encrypted (e : Endpoint) (plaintext : Bytes)
    (reply : Res IpcError Bytes × SecureSession) :
    (e.encrypted plaintext reply).session = reply.2 := by
  obtain ⟨_ | _, _⟩ := reply <;> rfl

@[simp] theorem Endpoint.session_decrypted (e : Endpoint)
    (reply : Res IpcError Bytes × SecureSession) : (e.decrypted reply).session = reply.2 := by
  obtain ⟨_ | _, _⟩ := reply <;> rfl

/-- A step leaves a side alone, encrypts there or decrypts there. -/
theorem step_cases (C : Crates) (a : Action) (ch : Channel) (side : Side) :
    (step C a ch).2 side = ch side
      ∨ (∃ plaintext, (step C a ch).2 side
          = (ch side).encrypted plaintext (encrypt C plaintext (ch side).session))
      ∨ ∃ data, a = .decrypt side data
          ∧ (step C a ch).2 side = (ch side).decrypted (decrypt C data (ch side).session) := by
  cases a with
  | encrypt side' plaintext =>
    by_cases h : side = side'
    · subst h
      exact .inr (.inl ⟨plaintext, Function.update_self _ _ _⟩)
    · exact .inl (Function.update_of_ne h _ _)
  | decrypt side' data =>
    by_cases h : side = side'
    · subst h
      exact .inr (.inr ⟨data, rfl, Function.update_self _ _ _⟩)
    · exact .inl (Function.update_of_ne h _ _)

theorem sends_step {ch : Channel} (h : ∀ side, Sends side (ch side)) (C : Crates) (a : Action)
    (side : Side) : Sends side ((step C a ch).2 side) := by
  obtain hs | ⟨plaintext, hs⟩ | ⟨data, -, hs⟩ := step_cases C a ch side
  · rw [hs]
    exact h side
  · rw [hs]
    exact (h side).encrypted C plaintext
  · rw [hs]
    exact (h side).decrypted C data

/-- The parities of the two counters keep the nonces of the two sides apart, also where the
prefixes are equal. -/
theorem nonces_nodup {ch : Channel} (h : ∀ side, Sends side (ch side)) : ch.nonces.Nodup := by
  have hside : ∀ side, ((ch side).session.cipher.made.map
      fun e => ((ch side).session.cipher.key, e.nonce)).Nodup := by
    intro side
    have hmap := (h side).nodup.map (f := Prod.mk (ch side).session.cipher.key)
      fun _ _ heq => (Prod.mk.inj heq).2
    rwa [List.map_map] at hmap
  unfold Channel.nonces
  apply List.Nodup.append (hside .client) (hside .server)
  intro p hclient hserver
  obtain ⟨x, hx, rfl⟩ := List.mem_map.mp hclient
  obtain ⟨y, hy, heq⟩ := List.mem_map.mp hserver
  obtain ⟨i, hi⟩ := List.mem_iff_getElem?.mp hx
  obtain ⟨j, hj⟩ := List.mem_iff_getElem?.mp hy
  have hnonce : y.nonce = x.nonce := (Prod.mk.inj heq).2
  rw [(h .server).nonce_eq hj, (h .client).nonce_eq hi] at hnonce
  have hnumber := constructNonce_injective
    ((h .server).number_lt (List.getElem?_eq_some_iff.mp hj).1)
    ((h .client).number_lt (List.getElem?_eq_some_iff.mp hi).1) hnonce
  simp only [Side.start] at hnumber
  omega

/-! ## Receiving -/

/-- What a side has accepted, against what the other one has encrypted. -/
structure Receives (side : Side) (ch : Channel) : Prop where
  rxSequence : ∃ j, (ch side).session.rxSequence = side.other.start + 2 * j
    ∧ (ch side).accepted.length ≤ j
  inStep : ¬ Lost side ch →
    ((ch side.other).session.cipher.made.take (ch side).accepted.length).map Encryption.sent
      = (ch side).accepted.map some
  isPrefix : (ch side).accepted <+: (ch side.other).sent.map Prod.fst

namespace Receives

variable {side : Side} {ch ch' : Channel}

theorem init {client server : SecureSession} (hclient : client.rxSequence = 1)
    (hserver : server.rxSequence = 0) : Receives side (.init client server) where
  rxSequence := by
    cases side with
    | client => exact ⟨0, hclient, Nat.le_refl 0⟩
    | server => exact ⟨0, hserver, Nat.le_refl 0⟩
  inStep _ := by cases side <;> rfl
  isPrefix := by cases side <;> exact List.nil_prefix

/-- The other side may go on encrypting. -/
theorem mono (h : Receives side ch)
    (hrx : (ch' side).session.rxSequence = (ch side).session.rxSequence)
    (hacc : (ch' side).accepted = (ch side).accepted)
    (hmade : (ch side.other).session.cipher.made <+: (ch' side.other).session.cipher.made)
    (hsent : (ch side.other).sent <+: (ch' side.other).sent) : Receives side ch' where
  rxSequence := by
    rw [hrx, hacc]
    exact h.rxSequence
  inStep hlost := by
    have hstep := h.inStep (by rwa [Lost, hrx, hacc] at hlost)
    have hlen := congrArg List.length hstep
    rw [List.length_map, List.length_map, List.length_take] at hlen
    obtain ⟨more, hmore⟩ := hmade
    rw [hacc, ← hstep, ← hmore, List.take_append_of_le_length (by omega)]
  isPrefix := by
    rw [hacc]
    exact h.isPrefix.trans (hsent.map Prod.fst)

theorem refused (h : Receives side ch) {s : SecureSession}
    (hs : s = (ch side).session ∨ s = (ch side).session.afterDecrypt) :
    Receives side (Function.update ch side { ch side with session := s }) := by
  rcases hs with rfl | rfl
  · rwa [Function.update_eq_self]
  obtain ⟨j, hrx, hle⟩ := h.rxSequence
  have hspent : (ch side).session.afterDecrypt.rxSequence = side.other.start + 2 * (j + 1) := by
    show (ch side).session.rxSequence + 2 = _
    omega
  refine ⟨?_, ?_, ?_⟩
  · rw [Function.update_self]
    exact ⟨j + 1, hspent, Nat.le_succ_of_le hle⟩
  · intro hlost
    rw [Lost, Function.update_self, not_not, hspent] at hlost
    dsimp only at hlost
    omega
  · rw [Function.update_self, Function.update_of_ne side.other_ne]
    exact h.isPrefix

theorem next (h : Receives side ch) (hother : Sends side.other (ch side.other))
    {nonce : Nonce} {plaintext ciphertext : Bytes} (hlost : ¬ Lost side ch)
    (hmade : (ch side.other).session.cipher.made[(ch side).accepted.length]?
      = some ⟨nonce, plaintext, some ciphertext⟩) :
    Receives side (Function.update ch side
      { ch side with
        session := (ch side).session.afterDecrypt
        accepted := (ch side).accepted ++ [plaintext] }) := by
  have hstep : ((ch side.other).session.cipher.made.take ((ch side).accepted.length + 1)).map
      Encryption.sent = ((ch side).accepted ++ [plaintext]).map some := by
    rw [List.take_add_one, hmade, List.map_append, h.inStep hlost, List.map_append]
    rfl
  obtain ⟨j, hrx, -⟩ := h.rxSequence
  rw [Lost, not_not, hrx] at hlost
  refine ⟨?_, ?_, ?_⟩
  · rw [Function.update_self]
    refine ⟨j + 1, ?_, ?_⟩
    · show (ch side).session.rxSequence + 2 = _
      omega
    · rw [List.length_append, List.length_singleton]
      omega
  · intro _
    rw [Function.update_self, Function.update_of_ne side.other_ne, List.length_append,
      List.length_singleton]
    exact hstep
  · rw [Function.update_self, Function.update_of_ne side.other_ne, hother.plaintexts]
    have hfilter : (ch side).accepted ++ [plaintext]
        = ((ch side.other).session.cipher.made.take ((ch side).accepted.length + 1)).filterMap
            Encryption.sent := by
      have hid := congrArg (List.filterMap id) hstep
      rw [List.filterMap_map, List.filterMap_map, Function.id_comp, Function.id_comp,
        List.filterMap_some] at hid
      exact hid.symm
    rw [hfilter]
    exact (List.take_prefix _ _).filterMap _

end Receives

/-- Nothing that was encrypted or sent is taken back. -/
theorem sent_step (C : Crates) (a : Action) (ch : Channel) (side : Side) :
    (ch side).session.cipher.made <+: ((step C a ch).2 side).session.cipher.made
      ∧ (ch side).sent <+: ((step C a ch).2 side).sent := by
  obtain hs | ⟨plaintext, hs⟩ | ⟨data, -, hs⟩ := step_cases C a ch side
  · rw [hs]
    exact ⟨List.prefix_rfl, List.prefix_rfl⟩
  · rw [hs, Endpoint.session_encrypted]
    constructor
    · rcases encrypt_snd C (ch side).session plaintext with hs | hs
      · rw [hs]
      · rw [hs]
        exact List.prefix_append _ _
    · rcases encrypt C plaintext (ch side).session with ⟨_ | frame, _⟩
      · exact List.prefix_rfl
      · exact List.prefix_append _ _
  · rw [hs, Endpoint.session_decrypted]
    constructor
    · rcases decrypt_snd C (ch side).session data with hs | hs
      · rw [hs]
      · rw [hs]
        exact List.prefix_rfl
    · rcases decrypt C data (ch side).session with ⟨_ | plaintext, _⟩
      · exact List.prefix_rfl
      · exact List.prefix_rfl

variable {C : Crates} {a : Action} {ch : Channel} {side : Side} {data plaintext : Bytes}
  {s : SecureSession}

/-- Only its own `decrypt` calls move what a side expects and what it has accepted. -/
theorem received_step (C : Crates) (ch : Channel) (h : ∀ data, a ≠ .decrypt side data) :
    ((step C a ch).2 side).session.rxSequence = (ch side).session.rxSequence
      ∧ ((step C a ch).2 side).accepted = (ch side).accepted := by
  obtain hs | ⟨plaintext, hs⟩ | ⟨data, ha, -⟩ := step_cases C a ch side
  · rw [hs]
    exact ⟨rfl, rfl⟩
  · rw [hs, Endpoint.session_encrypted]
    constructor
    · rcases encrypt_snd C (ch side).session plaintext with hs | hs
      · rw [hs]
      · rw [hs]
        rfl
    · rcases encrypt C plaintext (ch side).session with ⟨_ | frame, _⟩ <;> rfl
  · exact absurd ha (h data)

theorem accepted_made (hsends : ∀ side, Sends side (ch side))
    (hrx : ∃ j, (ch side).session.rxSequence = side.other.start + 2 * j)
    (hauth : Authentic C (.decrypt side data) ch)
    (h : decrypt C data (ch side).session = (.ok plaintext, s)) :
    ∃ j, (ch side).session.rxSequence = side.other.start + 2 * j
      ∧ (ch side.other).session.cipher.made[j]?
          = some ⟨constructNonce (ch side).session.rxNoncePrefix (ch side).session.rxSequence,
              plaintext, some (data.drop 20)⟩ := by
  obtain ⟨-, -, hlt, -, hopen, -⟩ := decrypt_eq_ok.mp h
  obtain ⟨j, hj⟩ := hrx
  -- The number in the nonce tells whose encryption it was, and which.
  have hnumber : ∀ side' i, (ch side').session.cipher.made[i]?
      = some ⟨constructNonce (ch side).session.rxNoncePrefix (ch side).session.rxSequence,
          plaintext, some (data.drop 20)⟩ →
        side'.start + 2 * i = side.other.start + 2 * j := by
    intro side' i hi
    rw [← hj]
    exact constructNonce_injective
      ((hsends side').number_lt (List.getElem?_eq_some_iff.mp hi).1) (by omega)
      ((hsends side').nonce_eq hi).symm
  rcases hauth plaintext hopen with hmem | hmem
  · obtain ⟨i, hi⟩ := List.mem_iff_getElem?.mp hmem
    have hown := hnumber side i hi
    have hsum := side.start_other_add
    omega
  · obtain ⟨i, hi⟩ := List.mem_iff_getElem?.mp hmem
    have hother := hnumber side.other i hi
    obtain rfl : i = j := by omega
    exact ⟨i, hj, hi⟩

theorem genuine_of_accepted (hsends : Sends side.other (ch side.other))
    (h : decrypt C data (ch side).session = (.ok plaintext, s)) {j : Nat}
    (hj : (ch side).session.rxSequence = side.other.start + 2 * j)
    (hmade : (ch side.other).session.cipher.made[j]?
      = some ⟨constructNonce (ch side).session.rxNoncePrefix (ch side).session.rxSequence,
        plaintext, some (data.drop 20)⟩) :
    Genuine side data ch := by
  obtain ⟨hlen, hseq, hlt, -⟩ := decrypt_eq_ok.mp h
  have hframe := wireFrame_of_accepted h
  have hsent := hsends.frames j _ _ hmade rfl
  rw [← hj] at hsent
  constructor
  · have hpow : (256 : Nat) ^ 8 = 2 ^ 64 := by norm_num
    exact Bytes.toLE_injective (hpow.symm ▸ frameSeq_lt data) (by omega) hseq
  · rwa [hframe]

/-- The step lemma of the receiving side -/
theorem receives_step (hsends : ∀ side, Sends side (ch side)) (h : ∀ side, Receives side ch)
    (hauth : Authentic C a ch) (hloss : NoFrameAfterLoss a ch) (side : Side) :
    Receives side (step C a ch).2 := by
  by_cases ha : ∃ data, a = .decrypt side data
  · obtain ⟨data, rfl⟩ := ha
    have hs := decrypt_snd C (ch side).session data
    rcases hreply : decrypt C data (ch side).session with ⟨_ | plaintext, s⟩
    · rw [hreply] at hs
      simp only [step, hreply]
      exact (h side).refused hs
    · obtain ⟨j, hj, -⟩ := (h side).rxSequence
      obtain ⟨j, hj, hmade⟩ := accepted_made hsends ⟨j, hj⟩ hauth hreply
      have hgenuine := genuine_of_accepted (hsends side.other) hreply hj hmade
      have hlost : ¬ Lost side ch := fun hlost => hloss hlost hgenuine
      have hcount : (ch side).accepted.length = j := by
        rw [Lost, not_not, hj] at hlost
        omega
      obtain ⟨-, -, -, -, -, rfl⟩ := decrypt_eq_ok.mp hreply
      simp only [step, hreply]
      rw [← hcount] at hmade
      exact (h side).next (hsends side.other) hlost hmade
  · have hown := received_step C ch (not_exists.mp ha)
    have hother := sent_step C a ch side.other
    exact (h side).mono hown.1 hown.2 hother.1 hother.2

/-! ## Runs -/

section Run

variable {sharedSecret clientPubkey serverPubkey salt : Bytes} {client server : SecureSession}

theorem sends_init
    (hclient : fromSharedSecretWithSalt C sharedSecret clientPubkey serverPubkey false salt
      = .ok client)
    (hserver : fromSharedSecretWithSalt C sharedSecret clientPubkey serverPubkey true salt
      = .ok server) (side : Side) : Sends side (Channel.init client server side) := by
  cases side with
  | client =>
    obtain ⟨hmade, htx, -⟩ := fromSharedSecretWithSalt_ok hclient
    exact .fresh hmade htx
  | server =>
    obtain ⟨hmade, htx, -⟩ := fromSharedSecretWithSalt_ok hserver
    exact .fresh hmade htx

/-- No nonce is used twice on any run.  On a run where no genuine frame reaches a side that has
lost a number, what a side accepts is a prefix of what the other side encrypts. -/
theorem integrity_of_noFrameAfterLoss
    (hclient : fromSharedSecretWithSalt C sharedSecret clientPubkey serverPubkey false salt
      = .ok client)
    (hserver : fromSharedSecretWithSalt C sharedSecret clientPubkey serverPubkey true salt
      = .ok server) (as : List Action) :
    (run (step C) as (.init client server)).2.nonces.Nodup
      ∧ (Machine.Along (step C) (fun a ch => Authentic C a ch ∧ NoFrameAfterLoss a ch) as
          (.init client server) →
        ∀ side, ((run (step C) as (.init client server)).2 side).accepted
          <+: ((run (step C) as (.init client server)).2 side.other).sent.map
            Prod.fst) := by
  have hinit := sends_init hclient hserver
  constructor
  · apply nonces_nodup
    have hstep : ∀ a ch, (∀ side, Sends side (ch side)) → True →
        ∀ side, Sends side ((step C a ch).2 side) := fun a ch h _ => sends_step h C a
    exact run_invariant hstep as _ hinit (along_of_forall (fun _ _ => trivial) as _)
  · intro halong side
    have hreceives : ∀ side, Receives side (Channel.init client server) := fun side =>
      .init (fromSharedSecretWithSalt_ok hclient).2.2 (fromSharedSecretWithSalt_ok hserver).2.2
    have hstep : ∀ a ch, ((∀ side, Sends side (ch side)) ∧ ∀ side, Receives side ch) →
        Authentic C a ch ∧ NoFrameAfterLoss a ch →
        (∀ side, Sends side ((step C a ch).2 side)) ∧ ∀ side, Receives side (step C a ch).2 :=
      fun a ch h hP => ⟨sends_step h.1 C a, receives_step h.1 h.2 hP.1 hP.2⟩
    have hrun := run_invariant hstep as _ ⟨hinit, hreceives⟩ halong
    exact (hrun.2 side).isPrefix

end Run

/-! ### A forgery that takes the place of a frame -/

/-- HKDF that derives equal prefixes, and a cipher with nonce and key as its tag. -/
def plainCrates : Crates where
  hkdf _ _ _ n := some (.filled n 7)
  encrypt key nonce plaintext := some (nonce.val ++ key.val.take 4 ++ plaintext)
  decrypt key nonce ciphertext :=
    if ciphertext.take 16 = nonce.val ++ key.val.take 4 then some (ciphertext.drop 16) else none

def plainSession (isServer : Bool) : SecureSession where
  cipher := { key := .filled 32 7, made := [] }
  txSequence := if isServer then 1 else 0
  rxSequence := if isServer then 0 else 1
  txNoncePrefix := .filled 4 7
  rxNoncePrefix := .filled 4 7

theorem fromSharedSecret_plain (isServer : Bool) :
    fromSharedSecretWithSalt plainCrates (List.replicate 32 1) (List.replicate 65 2)
      (List.replicate 65 3) isServer IPC_HKDF_SALT = .ok (plainSession isServer) := by
  cases isServer <;> decide +kernel

def plainFrame (seq : Nat) (plaintext : Bytes) : Bytes :=
  let nonce := constructNonce (.filled 4 7) seq
  wireFrame seq nonce (nonce.val ++ List.replicate 4 7 ++ plaintext)

/-- Both sides encrypt; frames are repeated and come late, the last one is forged. -/
def reorderedRun : List Action :=
  [.encrypt .client [1], .encrypt .server [9], .encrypt .client [2],
    .decrypt .server (plainFrame 2 [2]), .decrypt .server (plainFrame 0 [1]),
    .decrypt .server (plainFrame 0 [1]), .decrypt .client (plainFrame 1 [9]),
    .decrypt .server (plainFrame 2 [2]), .decrypt .client (Bytes.toLE 8 3 ++ List.replicate 28 0)]

theorem integrity_of_noFrameAfterLoss_reordered :
    (run (step plainCrates) reorderedRun
        (.init (plainSession false) (plainSession true))).2.nonces.Nodup
      ∧ ∀ side, ((run (step plainCrates) reorderedRun
          (.init (plainSession false) (plainSession true))).2 side).accepted
        <+: ((run (step plainCrates) reorderedRun
          (.init (plainSession false) (plainSession true))).2 side.other).sent.map Prod.fst :=
  have h := integrity_of_noFrameAfterLoss (fromSharedSecret_plain false)
    (fromSharedSecret_plain true) reorderedRun
  ⟨h.1, h.2 (by decide +kernel)⟩

/-- A frame of zeros spends the number 0; the frame of `[1]` is then refused and the frame of
`[2]` accepted. -/
def forgedRun : List Action :=
  [.encrypt .client [1], .encrypt .client [2], .decrypt .server (List.replicate 36 0),
    .decrypt .server (plainFrame 0 [1]), .decrypt .server (plainFrame 2 [2])]

/-- The server has taken the second message without the first one. -/
theorem not_prefix_of_forged :
    ∃ client server,
      fromSharedSecretWithSalt plainCrates (List.replicate 32 1) (List.replicate 65 2)
          (List.replicate 65 3) false IPC_HKDF_SALT = .ok client
        ∧ fromSharedSecretWithSalt plainCrates (List.replicate 32 1) (List.replicate 65 2)
          (List.replicate 65 3) true IPC_HKDF_SALT = .ok server
        ∧ Machine.Along (step plainCrates) (Authentic plainCrates) forgedRun (.init client server)
        ∧ ¬ ((run (step plainCrates) forgedRun (.init client server)).2 .server).accepted
            <+: ((run (step plainCrates) forgedRun (.init client server)).2
              .client).sent.map Prod.fst := by
  refine ⟨_, _, fromSharedSecret_plain false, fromSharedSecret_plain true, ?_, ?_⟩
  · decide +kernel
  · decide +kernel

end WritersProof.Ipc
