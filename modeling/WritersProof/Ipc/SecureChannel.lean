/-
  WritersProof.Ipc.SecureChannel

  The encrypted channel between components of one process
  (crates/cpoe/src/ipc/secure_channel.rs).

  Any number of threads send through one `SecureSender`; a `send` is the steps of its body, and
  the steps of all threads and of the receiver come in any order.  The loads and exchanges of the
  counter are sequentially consistent, and the queue between both halves is first in, first out.
-/
import WritersProof.Ipc.Channel
import WritersProof.Ipc.Connection
import Mathlib.Data.List.Forall2

namespace WritersProof.Ipc.SecureChannel

open Rust Machine FixedBytes

def nonceCounterMax : Nat := 2 ^ 64 - 1 - 1

def maxSecureChannelPayload : Nat := MAX_MESSAGE_SIZE

structure Crates (T : Type) where
  /-- ChaCha20-Poly1305 under a key and a nonce, with associated data -/
  encrypt : FixedBytes 32 → Nonce → (aad msg : Bytes) → Option Bytes
  decrypt : FixedBytes 32 → Nonce → (aad msg : Bytes) → Option Bytes
  /-- `bincode::serde::encode_to_vec` -/
  encode : T → Except String Bytes
  /-- `bincode::serde::decode_from_slice` with a limit -/
  decode : (limit : Nat) → Bytes → Except String T

inductive SendError where
  | serialization (e : String)
  | encryption
  | nonceExhausted
  | channel
  deriving DecidableEq

inductive RecvError where
  | decryption
  | payloadTooLarge
  | deserialization (e : String)

structure EncryptedMessage where
  nonce : Nonce
  ciphertext : Bytes

/-- Where a thread is in the body of `send` -/
inductive Pc (T : Type) where
  | idle
  /-- about to load the counter -/
  | serialized (value : T) (plaintext : Bytes)
  /-- about to exchange it -/
  | loaded (value : T) (plaintext : Bytes) (current : Nat)
  /-- about to encrypt -/
  | reserved (value : T) (plaintext : Bytes) (counter : Nat)
  /-- about to put the message into the queue -/
  | sealed (value : T) (msg : EncryptedMessage)

/-- Both halves of a channel and what they have done so far -/
structure State (T : Type) where
  nonceCounter : Nat
  pc : Nat → Pc T
  queue : List EncryptedMessage
  receiver : Bool
  encrypted : List Nonce
  /-- The values that went into the queue, and who sent them -/
  accepted : List (Nat × T)
  returned : Nat → List (T × Except SendError Unit)
  received : List (Except RecvError T)

/-- A new pair -/
def State.init (T : Type) : State T where
  nonceCounter := 0
  pc _ := .idle
  queue := []
  receiver := true
  encrypted := []
  accepted := []
  returned _ := []
  received := []

/-- A call starts, a thread goes one step on, the receiver is called or dropped.  A call of a
thread that is still in the last one is none. -/
inductive Action (T : Type) where
  | call (thread : Nat) (value : T)
  | advance (thread : Nat)
  | recv
  | dropReceiver

section Steps

variable {T : Type} (C : Crates T) (key : FixedBytes 32) (noncePrefix : FixedBytes 4) (st : State T)
  (thread : Nat)

def State.setPc (pc : Pc T) : State T :=
  { st with pc := Function.update st.pc thread pc }

@[simp] theorem State.pc_setPc_self (pc : Pc T) :
    (st.setPc thread pc).pc thread = pc := Function.update_self _ _ _

theorem State.pc_setPc_of_ne {thread t : Nat} (pc : Pc T) (h : t ≠ thread) :
    (st.setPc thread pc).pc t = st.pc t := Function.update_of_ne h _ _

/-- A call returns. -/
def State.finish (value : T) (result : Except SendError Unit) :
    State T :=
  { st with
    pc := Function.update st.pc thread .idle
    returned := Function.update st.returned thread (st.returned thread ++ [(value, result)]) }

/-- The first statement of `send` -/
def call (value : T) (st : State T) : State T :=
  match st.pc thread with
  | .idle =>
    match C.encode value with
    | .error e => st.finish thread value (.error (.serialization e))
    | .ok plaintext => st.setPc thread (.serialized value plaintext)
  | _ => st

def advance (st : State T) : State T :=
  match st.pc thread with
  | .idle => st
  | .serialized value plaintext =>
    if st.nonceCounter ≥ nonceCounterMax then st.finish thread value (.error .nonceExhausted)
    else st.setPc thread (.loaded value plaintext st.nonceCounter)
  | .loaded value plaintext current =>
    if st.nonceCounter = current then
      { st with nonceCounter := current + 1 }.setPc thread (.reserved value plaintext current)
    else st.setPc thread (.serialized value plaintext)
  | .reserved value plaintext counter =>
    let nonce := constructNonce noncePrefix counter
    let st := { st with encrypted := st.encrypted ++ [nonce] }
    match C.encrypt key nonce nonce.val plaintext with
    | none => st.finish thread value (.error .encryption)
    | some ciphertext => st.setPc thread (.sealed value ⟨nonce, ciphertext⟩)
  | .sealed value msg =>
    if st.receiver then
      { st with
        queue := st.queue ++ [msg]
        accepted := st.accepted ++ [(thread, value)] }.finish thread value (.ok ())
    else st.finish thread value (.error .channel)

def recvMessage (msg : EncryptedMessage) : Except RecvError T :=
  if msg.ciphertext.length > maxSecureChannelPayload + 16 then .error .payloadTooLarge
  else
    match C.decrypt key msg.nonce msg.nonce.val msg.ciphertext with
    | none => .error .decryption
    | some plaintext =>
      if plaintext.length > maxSecureChannelPayload then .error .payloadTooLarge
      else
        match C.decode MAX_MESSAGE_SIZE plaintext with
        | .error e => .error (.deserialization e)
        | .ok value => .ok value

/-- On an empty queue `recv` blocks. -/
def recv : State T :=
  match st.receiver, st.queue with
  | true, msg :: queue =>
    { st with queue := queue, received := st.received ++ [recvMessage C key msg] }
  | _, _ => st

def step : Action T → State T → Unit × State T
  | .call thread value, st => ((), call C thread value st)
  | .advance thread, st => ((), advance C key noncePrefix thread st)
  | .recv, st => ((), recv C key st)
  | .dropReceiver, st => ((), { st with receiver := false })

end Steps

/-! ## Nonces -/

/-- The number that a thread has reserved and not used -/
def Pc.number {T : Type} : Pc T → Option Nat
  | .reserved _ _ counter => some counter
  | _ => none

section Nonces

variable {T : Type} {C : Crates T} {key : FixedBytes 32} {noncePrefix : FixedBytes 4}
  {st : State T} {thread : Nat}

/-- Every number is below the counter and used by one thread, once. -/
structure Fresh (noncePrefix : FixedBytes 4) (st : State T) : Prop where
  counter_le : st.nonceCounter ≤ nonceCounterMax
  loaded_lt : ∀ t value plaintext current,
    st.pc t = .loaded value plaintext current → current < nonceCounterMax
  reserved_lt : ∀ t, ∀ n ∈ (st.pc t).number, n < st.nonceCounter
  reserved_unique : ∀ t t', ∀ n ∈ (st.pc t).number, n ∈ (st.pc t').number → t = t'
  used : ∃ numbers : List Nat, st.encrypted = numbers.map (constructNonce noncePrefix)
    ∧ numbers.Nodup ∧ (∀ n ∈ numbers, n < st.nonceCounter)
    ∧ ∀ t, ∀ n ∈ (st.pc t).number, n ∉ numbers

theorem Fresh.nodup (h : Fresh noncePrefix st) : st.encrypted.Nodup := by
  obtain ⟨numbers, hused, hnodup, hlt, -⟩ := h.used
  rw [hused]
  apply List.Nodup.map_on _ hnodup
  intro m hm n hn heq
  have hcounter := h.counter_le
  have hmax : nonceCounterMax < 2 ^ 64 := by decide
  have hm := hlt m hm
  have hn := hlt n hn
  exact constructNonce_injective (by omega) (by omega) heq

variable {pc : Pc T} {value : T} {plaintext : Bytes}

section

variable (h : Fresh noncePrefix st)

include h

/-- Where a thread goes that reserves nothing, what the others have reserved is still theirs. -/
theorem Fresh.setPc (hnumber : pc.number = none)
    (hloaded : ∀ value plaintext current, pc = .loaded value plaintext current →
      current < nonceCounterMax) :
    Fresh noncePrefix (st.setPc thread pc) := by
  have hpc : ∀ t, ∀ n ∈ ((st.setPc thread pc).pc t).number, n ∈ (st.pc t).number := by
    intro t n hn
    by_cases heq : t = thread
    · subst heq
      rw [State.pc_setPc_self, hnumber] at hn
      cases hn
    · rwa [State.pc_setPc_of_ne _ _ heq] at hn
  refine ⟨h.counter_le, ?_, ?_, ?_, ?_⟩
  · intro t value plaintext current ht
    by_cases heq : t = thread
    · subst heq
      rw [State.pc_setPc_self] at ht
      exact hloaded value plaintext current ht
    · rw [State.pc_setPc_of_ne _ _ heq] at ht
      exact h.loaded_lt t value plaintext current ht
  · exact fun t n hn => h.reserved_lt t n (hpc t n hn)
  · exact fun t t' n hn hn' => h.reserved_unique t t' n (hpc t n hn) (hpc t' n hn')
  · obtain ⟨numbers, hused, hnodup, hlt, hfree⟩ := h.used
    exact ⟨numbers, hused, hnodup, hlt, fun t n hn => hfree t n (hpc t n hn)⟩

theorem Fresh.finish (value : T) (result : Except SendError Unit) :
    Fresh noncePrefix (st.finish thread value result) := by
  have hset : Fresh noncePrefix (st.setPc thread .idle) := h.setPc rfl nofun
  exact ⟨hset.counter_le, hset.loaded_lt, hset.reserved_lt, hset.reserved_unique, hset.used⟩

theorem Fresh.reserve (hlt : st.nonceCounter < nonceCounterMax) :
    Fresh noncePrefix ({ st with nonceCounter := st.nonceCounter + 1 }.setPc thread
      (.reserved value plaintext st.nonceCounter)) := by
  -- What is reserved was so before, or it is the counter, and then by this thread.
  have hpc : ∀ t, ∀ n ∈ (Function.update st.pc thread
      (.reserved value plaintext st.nonceCounter) t).number,
      t ≠ thread ∧ n ∈ (st.pc t).number ∨ t = thread ∧ n = st.nonceCounter := by
    intro t n hn
    by_cases heq : t = thread
    · subst heq
      rw [Function.update_self] at hn
      exact .inr ⟨rfl, (Option.some.inj hn).symm⟩
    · rw [Function.update_of_ne heq] at hn
      exact .inl ⟨heq, hn⟩
  refine ⟨hlt, ?_, ?_, ?_, ?_⟩
  · intro t value' plaintext' current ht
    by_cases heq : t = thread
    · subst heq
      rw [State.pc_setPc_self] at ht
      cases ht
    · rw [State.pc_setPc_of_ne _ _ heq] at ht
      exact h.loaded_lt t value' plaintext' current ht
  · intro t n hn
    show n < st.nonceCounter + 1
    rcases hpc t n hn with ⟨-, hold⟩ | ⟨-, rfl⟩
    · have := h.reserved_lt t n hold
      omega
    · omega
  · intro t t' n hn hn'
    rcases hpc t n hn with ⟨hne, hold⟩ | ⟨rfl, rfl⟩
    · rcases hpc t' n hn' with ⟨hne', hold'⟩ | ⟨rfl, rfl⟩
      · exact h.reserved_unique t t' n hold hold'
      · exact absurd (h.reserved_lt t _ hold) (lt_irrefl _)
    · rcases hpc t' _ hn' with ⟨hne', hold'⟩ | ⟨rfl, -⟩
      · exact absurd (h.reserved_lt t' _ hold') (lt_irrefl _)
      · rfl
  · obtain ⟨numbers, hused, hnodup, hbelow, hfree⟩ := h.used
    refine ⟨numbers, hused, hnodup, ?_, ?_⟩
    · intro n hn
      show n < st.nonceCounter + 1
      have := hbelow n hn
      omega
    · intro t n hn
      rcases hpc t n hn with ⟨-, hold⟩ | ⟨-, rfl⟩
      · exact hfree t n hold
      · exact fun hmem => lt_irrefl _ (hbelow _ hmem)

theorem Fresh.use {counter : Nat} (hpc : st.pc thread = .reserved value plaintext counter)
    (hnumber : pc.number = none)
    (hloaded : ∀ value plaintext current, pc = .loaded value plaintext current →
      current < nonceCounterMax) :
    Fresh noncePrefix ({ st with
      encrypted := st.encrypted ++ [constructNonce noncePrefix counter] }.setPc thread pc) := by
  have hset : Fresh noncePrefix (st.setPc thread pc) := h.setPc hnumber hloaded
  have hown : counter ∈ (st.pc thread).number := by
    rw [hpc]
    exact rfl
  refine ⟨hset.counter_le, hset.loaded_lt, hset.reserved_lt, hset.reserved_unique, ?_⟩
  obtain ⟨numbers, hused, hnodup, hlt, hfree⟩ := h.used
  refine ⟨numbers ++ [counter], ?_, ?_, ?_, ?_⟩
  · rw [List.map_append, ← hused]
    rfl
  · exact hnodup.append (List.nodup_singleton _)
      (List.disjoint_singleton.mpr (hfree thread counter hown))
  · intro n hn
    rcases List.mem_append.mp hn with hold | hnew
    · exact hlt n hold
    · rw [List.mem_singleton.mp hnew]
      exact h.reserved_lt thread counter hown
  · intro t n hn hmem
    by_cases heq : t = thread
    · subst heq
      rw [State.pc_setPc_self, hnumber] at hn
      cases hn
    · rw [State.pc_setPc_of_ne _ _ heq] at hn
      rcases List.mem_append.mp hmem with hold | hnew
      · exact hfree t n hn hold
      · rw [List.mem_singleton.mp hnew] at hn
        exact heq (h.reserved_unique t thread counter hn hown)

end

theorem fresh_init : Fresh noncePrefix (State.init T) where
  counter_le := Nat.zero_le _
  loaded_lt _ _ _ _ h := by cases h
  reserved_lt _ _ h := by cases h
  reserved_unique _ _ _ h := by cases h
  used := ⟨[], rfl, List.nodup_nil, List.forall_mem_nil _, fun _ _ h => by cases h⟩

/-- Every step of every thread keeps the counters apart. -/
theorem fresh_step (a : Action T) (h : Fresh noncePrefix st) :
    Fresh noncePrefix (step C key noncePrefix a st).2 := by
  cases a with
  | call thread value =>
    show Fresh noncePrefix (call C thread value st)
    rw [call]
    split
    · split
      · exact h.finish value _
      · exact h.setPc rfl nofun
    · exact h
  | advance thread =>
    show Fresh noncePrefix (advance C key noncePrefix thread st)
    rw [advance]
    split
    case h_1 => exact h
    case h_2 value plaintext hpc =>
      by_cases hmax : st.nonceCounter ≥ nonceCounterMax
      · rw [if_pos hmax]
        exact h.finish value _
      · rw [if_neg hmax]
        apply h.setPc rfl
        intro value' plaintext' current heq
        cases heq
        exact not_le.mp hmax
    case h_3 value plaintext current hpc =>
      by_cases hcas : st.nonceCounter = current
      · subst hcas
        rw [if_pos rfl]
        -- the counter was still at the loaded value
        exact h.reserve (h.loaded_lt thread _ _ _ hpc)
      · rw [if_neg hcas]
        exact h.setPc rfl nofun
    case h_4 value plaintext counter hpc =>
      dsimp only
      split
      · have huse : Fresh noncePrefix ({ st with
            encrypted := st.encrypted ++ [constructNonce noncePrefix counter] }.setPc thread
              .idle) :=
          h.use hpc rfl nofun
        exact ⟨huse.counter_le, huse.loaded_lt, huse.reserved_lt, huse.reserved_unique, huse.used⟩
      · exact h.use hpc rfl nofun
    case h_5 value msg hpc =>
      split
      · have hfinish : Fresh noncePrefix (st.finish thread value (.ok ())) := h.finish value _
        exact ⟨hfinish.counter_le, hfinish.loaded_lt, hfinish.reserved_lt, hfinish.reserved_unique,
          hfinish.used⟩
      · exact h.finish value _
  | recv =>
    show Fresh noncePrefix (recv C key st)
    rw [recv]
    split
    · exact ⟨h.counter_le, h.loaded_lt, h.reserved_lt, h.reserved_unique, h.used⟩
    · exact h
  | dropReceiver => exact ⟨h.counter_le, h.loaded_lt, h.reserved_lt, h.reserved_unique, h.used⟩

/-- No two encryptions of a run have a nonce in common. -/
theorem nonces_nodup (as : List (Action T)) :
    (run (step C key noncePrefix) as (.init T)).2.encrypted.Nodup :=
  (run_invariant (fun a _ h _ => fresh_step a h) as _ fresh_init
    (along_of_forall (fun _ _ => trivial) as _)).nodup

end Nonces

/-! ## Delivery -/

/-- What is relied on of the crates: the cipher opens what it has sealed, a tag of 16 bytes longer,
and `bincode` decodes what it has encoded up to its limit on the decoded size. -/
structure Crates.Correct {T : Type} (C : Crates T) (decodedSize : T → Nat) : Prop where
  length_encrypt : ∀ key nonce aad msg ciphertext,
    C.encrypt key nonce aad msg = some ciphertext → ciphertext.length = msg.length + 16
  decrypt_encrypt : ∀ key nonce aad msg ciphertext,
    C.encrypt key nonce aad msg = some ciphertext → C.decrypt key nonce aad ciphertext = some msg
  decode_encode : ∀ value plaintext limit, C.encode value = .ok plaintext →
    decodedSize value ≤ limit → C.decode limit plaintext = .ok value
  decode_limit : ∀ value plaintext limit, C.encode value = .ok plaintext →
    limit < decodedSize value → ∃ e, C.decode limit plaintext = .error e

/-- The value keeps to both limits of the receiver. -/
def Fits {T : Type} (C : Crates T) (decodedSize : T → Nat) (value : T) : Prop :=
  (∀ plaintext, C.encode value = .ok plaintext → plaintext.length ≤ maxSecureChannelPayload)
    ∧ decodedSize value ≤ MAX_MESSAGE_SIZE

def Seals {T : Type} (C : Crates T) (key : FixedBytes 32) (value : T) (msg : EncryptedMessage) :
    Prop :=
  ∃ plaintext, C.encode value = .ok plaintext
    ∧ C.encrypt key msg.nonce msg.nonce.val plaintext = some msg.ciphertext

section Delivery

variable {T : Type} {C : Crates T} {key : FixedBytes 32} {noncePrefix : FixedBytes 4}
  {decodedSize : T → Nat} {st : State T} {thread : Nat}

variable {msg : EncryptedMessage}

/-- The receiver gets a value just when it keeps to both limits. -/
theorem recvMessage_eq_ok_iff (hC : C.Correct decodedSize) {value : T} (h : Seals C key value msg) :
    recvMessage C key msg = .ok value ↔ Fits C decodedSize value := by
  obtain ⟨plaintext, hencode, hencrypt⟩ := h
  have hlen := hC.length_encrypt _ _ _ _ _ hencrypt
  have hfits : Fits C decodedSize value ↔
      plaintext.length ≤ maxSecureChannelPayload ∧ decodedSize value ≤ MAX_MESSAGE_SIZE := by
    refine and_congr_left fun _ => ⟨fun h => h plaintext hencode, fun h plaintext' h' => ?_⟩
    rwa [← Except.ok.inj (hencode.symm.trans h')]
  rw [hfits, recvMessage, hC.decrypt_encrypt _ _ _ _ _ hencrypt, hlen]
  by_cases hle : plaintext.length ≤ maxSecureChannelPayload
  · rw [if_neg (by omega)]
    dsimp only
    rw [if_neg (by omega)]
    by_cases hsize : decodedSize value ≤ MAX_MESSAGE_SIZE
    · rw [hC.decode_encode _ _ _ hencode hsize]
      exact ⟨fun _ => ⟨hle, hsize⟩, fun _ => rfl⟩
    · obtain ⟨e, he⟩ := hC.decode_limit _ _ _ hencode (not_le.mp hsize)
      rw [he]
      exact ⟨nofun, fun h => absurd h.2 hsize⟩
  · rw [if_pos (by omega)]
    exact ⟨nofun, fun h => absurd h.1 hle⟩

/-- What a thread carries along belongs to its value. -/
def Pc.Carries (C : Crates T) (key : FixedBytes 32) : Pc T → Prop
  | .idle => True
  | .serialized value plaintext => C.encode value = .ok plaintext
  | .loaded value plaintext _ => C.encode value = .ok plaintext
  | .reserved value plaintext _ => C.encode value = .ok plaintext
  | .sealed value msg => Seals C key value msg

/-- The values that `send` returned `Ok` for in a thread, in order -/
def State.sent (st : State T) (thread : Nat) : List T :=
  (st.returned thread).filterMap fun call => call.2.toOption.map fun _ => call.1

/-- The accepted values are those that were received and those whose messages are waiting. -/
structure Queued (C : Crates T) (key : FixedBytes 32) (decodedSize : T → Nat) (st : State T) :
    Prop where
  carries : ∀ t, (st.pc t).Carries C key
  sent : ∀ t, (st.accepted.filter (·.1 = t)).map Prod.snd = st.sent t
  split : ∃ taken waiting, st.accepted = taken ++ waiting
    ∧ List.Forall₂ (fun a r => r = .ok a.2 ↔ Fits C decodedSize a.2) taken st.received
    ∧ List.Forall₂ (fun a msg => Seals C key a.2 msg) waiting st.queue

theorem Queued.setPc (h : Queued C key decodedSize st) {pc : Pc T} (hpc : pc.Carries C key) :
    Queued C key decodedSize (st.setPc thread pc) := by
  refine ⟨fun t => ?_, h.sent, h.split⟩
  by_cases heq : t = thread
  · subst heq
    rwa [State.pc_setPc_self]
  · rw [State.pc_setPc_of_ne _ _ heq]
    exact h.carries t

theorem sent_finish (st : State T) (thread : Nat) (value : T) (result : Except SendError Unit)
    (t : Nat) :
    (st.finish thread value result).sent t
      = st.sent t ++ if thread = t ∧ result = .ok () then [value] else [] := by
  rw [State.sent, State.finish]
  dsimp only
  by_cases heq : t = thread
  · subst heq
    rw [Function.update_self, List.filterMap_append]
    cases result with
    | error e =>
      rw [if_neg (fun h => nomatch h.2)]
      rfl
    | ok _ =>
      rw [if_pos ⟨rfl, rfl⟩]
      rfl
  · rw [Function.update_of_ne heq, if_neg (fun h => heq h.1.symm), List.append_nil]
    rfl

theorem Queued.fail (h : Queued C key decodedSize st) (value : T) (e : SendError) :
    Queued C key decodedSize (st.finish thread value (.error e)) := by
  have hset : Queued C key decodedSize (st.setPc thread .idle) := h.setPc trivial
  refine ⟨hset.carries, fun t => ?_, h.split⟩
  rw [sent_finish, if_neg (fun h => nomatch h.2), List.append_nil]
  exact h.sent t

/-- A message goes into the queue, and its call returns. -/
theorem Queued.push (h : Queued C key decodedSize st) {value : T} (hseals : Seals C key value msg) :
    Queued C key decodedSize ({ st with
      queue := st.queue ++ [msg]
      accepted := st.accepted ++ [(thread, value)] }.finish thread value (.ok ())) := by
  have hset : Queued C key decodedSize (st.setPc thread .idle) := h.setPc trivial
  refine ⟨hset.carries, fun t => ?_, ?_⟩
  · rw [sent_finish]
    show ((st.accepted ++ [(thread, value)]).filter (·.1 = t)).map Prod.snd
      = st.sent t ++ if thread = t
        ∧ (Except.ok () : Except SendError Unit) = .ok () then [value] else []
    rw [List.filter_append, List.map_append, h.sent t]
    by_cases heq : thread = t
    · rw [if_pos ⟨heq, rfl⟩]
      simp [heq]
    · rw [if_neg (fun h => heq h.1)]
      simp [heq]
  · obtain ⟨taken, waiting, haccepted, hreceived, hqueue⟩ := h.split
    refine ⟨taken, waiting ++ [(thread, value)], ?_, hreceived, ?_⟩
    · show st.accepted ++ [(thread, value)] = _
      rw [haccepted, List.append_assoc]
    · exact List.rel_append hqueue (.cons hseals .nil)

theorem Queued.pop (hC : C.Correct decodedSize) (h : Queued C key decodedSize st)
    {queue : List EncryptedMessage} (hqueue : st.queue = msg :: queue) :
    Queued C key decodedSize { st with
      queue := queue
      received := st.received ++ [recvMessage C key msg] } := by
  obtain ⟨taken, waiting, haccepted, hreceived, hwaiting⟩ := h.split
  rw [hqueue] at hwaiting
  cases hwaiting with
  | @cons a _ waiting _ hseals hrest =>
    refine ⟨h.carries, h.sent, taken ++ [a], waiting, ?_, ?_, hrest⟩
    · show st.accepted = _
      rw [haccepted, List.append_assoc, List.singleton_append]
    · exact List.rel_append hreceived (.cons (recvMessage_eq_ok_iff hC hseals) .nil)

theorem queued_init : Queued C key decodedSize (State.init T) :=
  ⟨fun _ => trivial, fun _ => rfl, [], [], rfl, .nil, .nil⟩

/-- No step loses, repeats or reorders what was accepted. -/
theorem queued_step (hC : C.Correct decodedSize) (a : Action T) (h : Queued C key decodedSize st) :
    Queued C key decodedSize (step C key noncePrefix a st).2 := by
  cases a with
  | call thread value =>
    show Queued C key decodedSize (call C thread value st)
    rw [call]
    split
    · split
      case h_1 e _ => exact h.fail value _
      case h_2 plaintext hencode => exact h.setPc hencode
    · exact h
  | advance thread =>
    have hcarries := h.carries thread
    show Queued C key decodedSize (advance C key noncePrefix thread st)
    rw [advance]
    split
    case h_1 => exact h
    case h_2 value plaintext hpc =>
      rw [hpc] at hcarries
      split
      · exact h.fail value _
      · exact h.setPc hcarries
    case h_3 value plaintext current hpc =>
      rw [hpc] at hcarries
      split
      · have hset : Queued C key decodedSize
            (st.setPc thread (.reserved value plaintext current)) := h.setPc hcarries
        exact ⟨hset.carries, hset.sent, hset.split⟩
      · exact h.setPc hcarries
    case h_4 value plaintext counter hpc =>
      rw [hpc] at hcarries
      dsimp only
      split
      · have hfail : Queued C key decodedSize
            (st.finish thread value (.error .encryption)) := h.fail value _
        exact ⟨hfail.carries, hfail.sent, hfail.split⟩
      case h_2 ciphertext hencrypt =>
        have hset : Queued C key decodedSize (st.setPc thread
            (.sealed value ⟨constructNonce noncePrefix counter, ciphertext⟩)) :=
          h.setPc ⟨plaintext, hcarries, hencrypt⟩
        exact ⟨hset.carries, hset.sent, hset.split⟩
    case h_5 value msg hpc =>
      rw [hpc] at hcarries
      split
      · exact h.push hcarries
      · exact h.fail value _
  | recv =>
    show Queued C key decodedSize (recv C key st)
    rw [recv]
    split
    case h_1 msg queue hreceiver hqueue => exact h.pop hC hqueue
    case h_2 => exact h
  | dropReceiver => exact ⟨h.carries, h.sent, h.split⟩

/-- The state after the receiver has been called once for each message of the queue -/
def State.drained (C : Crates T) (key : FixedBytes 32) (noncePrefix : FixedBytes 4)
    (st : State T) : State T :=
  (run (step C key noncePrefix) (List.replicate st.queue.length .recv) st).2

/-- Draining receives what is in the queue and does nothing else. -/
theorem run_recv (queue : List EncryptedMessage) (st : State T) (hqueue : st.queue = queue)
    (hreceiver : st.receiver = true) :
    (run (step C key noncePrefix) (List.replicate queue.length .recv) st).2
      = { st with
        queue := []
        received := st.received ++ queue.map (recvMessage C key) } := by
  induction queue generalizing st with
  | nil =>
    rw [List.map_nil, List.append_nil]
    cases st
    cases hqueue
    rfl
  | cons msg queue ih =>
    have hstep : (step C key noncePrefix .recv st).2
        = { st with queue := queue, received := st.received ++ [recvMessage C key msg] } := by
      show recv C key st = _
      rw [recv, hreceiver, hqueue]
    rw [List.length_cons, List.replicate_succ, run_cons, hstep]
    have hrest := ih { st with queue := queue, received := st.received ++ [recvMessage C key msg] }
      rfl hreceiver
    refine hrest.trans ?_
    rw [List.map_cons, List.append_assoc, List.singleton_append]

theorem drained_eq (hreceiver : st.receiver = true) :
    st.drained C key noncePrefix = { st with
      queue := []
      received := st.received ++ st.queue.map (recvMessage C key) } :=
  run_recv st.queue st rfl hreceiver

/-- Results that are each right just when a value fits are all right just when all fit. -/
theorem eq_map_ok_iff {P : T → Prop} {as : List (Nat × T)} {rs : List (Except RecvError T)}
    (h : List.Forall₂ (fun a r => r = .ok a.2 ↔ P a.2) as rs) :
    rs = as.map (fun a => .ok a.2) ↔ ∀ a ∈ as, P a.2 := by
  induction h with
  | nil => simp
  | cons hr _ ih => rw [List.map_cons, List.cons.injEq, hr, ih, List.forall_mem_cons]

theorem Queued.drained_iff (hC : C.Correct decodedSize) (h : Queued C key decodedSize st)
    (hreceiver : st.receiver = true) :
    (st.drained C key noncePrefix).received = st.accepted.map (fun a => .ok a.2)
      ↔ ∀ a ∈ st.accepted, Fits C decodedSize a.2 := by
  obtain ⟨taken, waiting, haccepted, hreceived, hqueue⟩ := h.split
  have hlast : List.Forall₂ (fun a r => r = .ok a.2 ↔ Fits C decodedSize a.2) waiting
      (st.queue.map (recvMessage C key)) :=
    List.forall₂_map_right_iff.mpr (hqueue.imp fun _ _ hseals => recvMessage_eq_ok_iff hC hseals)
  rw [drained_eq hreceiver, haccepted]
  exact eq_map_ok_iff (List.rel_append hreceived hlast)

/-- In every run no two encryptions share a nonce, and the accepted values are, for each thread,
those its calls returned `Ok` for, in order.  The receiver, as long as there is one, returns
exactly the accepted values, each once and in order, just when every one keeps to both limits. -/
theorem delivers_iff (hC : C.Correct decodedSize) (as : List (Action T)) :
    (run (step C key noncePrefix) as (.init T)).2.encrypted.Nodup
      ∧ (∀ t, ((run (step C key noncePrefix) as (.init T)).2.accepted.filter
            (·.1 = t)).map Prod.snd
          = (run (step C key noncePrefix) as (.init T)).2.sent t)
      ∧ ((run (step C key noncePrefix) as (.init T)).2.receiver = true →
        (((run (step C key noncePrefix) as (.init T)).2.drained C key noncePrefix).received
            = (run (step C key noncePrefix) as (.init T)).2.accepted.map (fun a => .ok a.2)
          ↔ ∀ a ∈ (run (step C key noncePrefix) as (.init T)).2.accepted,
            Fits C decodedSize a.2)) := by
  have hqueued : Queued C key decodedSize (run (step C key noncePrefix) as (.init T)).2 :=
    run_invariant (I := Queued C key decodedSize) (fun a _ h _ => queued_step hC a h) as _
      queued_init (along_of_forall (fun _ _ => trivial) as _)
  exact ⟨nonces_nodup as, hqueued.sent, hqueued.drained_iff hC⟩

end Delivery

/-! ### A value that only the sender takes -/

/-- Byte strings that are their own encoding, and a cipher whose tag is nonce and zeros -/
def plainCrates : Crates Bytes where
  encrypt _ nonce _ msg := some (nonce.val ++ List.replicate 4 0 ++ msg)
  decrypt _ nonce _ ciphertext :=
    if ciphertext.take 16 = nonce.val ++ List.replicate 4 0 then some (ciphertext.drop 16) else none
  encode value := .ok value
  decode limit bytes := if bytes.length ≤ limit then .ok bytes else .error "LimitExceeded"

theorem plainCrates_correct : plainCrates.Correct List.length where
  length_encrypt key nonce aad msg ciphertext h := by
    cases h
    simp
    omega
  decrypt_encrypt key nonce aad msg ciphertext h := by
    cases h
    have htag : (nonce.val ++ List.replicate 4 (0 : UInt8)).length = 16 := by simp
    simp only [plainCrates]
    rw [List.take_left' htag, if_pos rfl, List.drop_left' htag]
  decode_encode value plaintext limit h hle := by
    cases h
    exact if_pos hle
  decode_limit value plaintext limit h hlt := by
    cases h
    exact ⟨_, if_neg (not_le.mpr hlt)⟩

/-- Two threads, of which one loses the race for the first number -/
def racing : List (Action Bytes) :=
  [.call 0 [1], .call 1 [2], .advance 0, .advance 1, .advance 1, .advance 0, .advance 0, .advance 0,
    .advance 1, .advance 1, .recv, .advance 0, .advance 0]

theorem delivers_iff_racing :
    (run (step plainCrates default (filled 4 7)) racing
        (.init Bytes)).2.encrypted.Nodup
      ∧ (∀ t, ((run (step plainCrates default (filled 4 7)) racing
          (.init Bytes)).2.accepted.filter (·.1 = t)).map Prod.snd
          = (run (step plainCrates default (filled 4 7)) racing
            (.init Bytes)).2.sent t)
      ∧ (((run (step plainCrates default (filled 4 7)) racing
            (.init Bytes)).2.drained plainCrates default (filled 4 7)).received
          = (run (step plainCrates default (filled 4 7)) racing
            (.init Bytes)).2.accepted.map (fun a => .ok a.2)
        ↔ ∀ a ∈ (run (step plainCrates default (filled 4 7)) racing
            (.init Bytes)).2.accepted, Fits plainCrates List.length a.2) :=
  have h := delivers_iff plainCrates_correct racing
  ⟨h.1, h.2.1, h.2.2 (by decide +kernel)⟩

def sendAll (value : Bytes) : List (Action Bytes) :=
  [.call 0 value, .advance 0, .advance 0, .advance 0, .advance 0]

theorem accepted_sendAll (value : Bytes) :
    (run (step plainCrates default (filled 4 7)) (sendAll value)
        (.init Bytes)).2.accepted = [(0, value)]
      ∧ (run (step plainCrates default (filled 4 7)) (sendAll value)
        (.init Bytes)).2.sent 0 = [value]
      ∧ (run (step plainCrates default (filled 4 7)) (sendAll value)
        (.init Bytes)).2.receiver = true := ⟨rfl, rfl, rfl⟩

/-- `send` returns `Ok` for a value one byte too long for the receiver. -/
theorem not_delivered_oversize :
    (run (step plainCrates default (filled 4 7))
        (sendAll (List.replicate (256 * 1024 + 1) 0)) (.init Bytes)).2.sent 0
        = [List.replicate (256 * 1024 + 1) 0]
      ∧ ((run (step plainCrates default (filled 4 7))
          (sendAll (List.replicate (256 * 1024 + 1) 0)) (.init Bytes)).2.drained plainCrates default
            (filled 4 7)).received ≠ [.ok (List.replicate (256 * 1024 + 1) 0)] := by
  obtain ⟨haccepted, hsent, hreceiver⟩ := accepted_sendAll (List.replicate (256 * 1024 + 1) 0)
  refine ⟨hsent, fun hreceived => ?_⟩
  have hqueued : Queued plainCrates default List.length (run
      (step plainCrates default (filled 4 7))
      (sendAll (List.replicate (256 * 1024 + 1) 0)) (.init Bytes)).2 :=
    run_invariant (I := Queued plainCrates default List.length)
      (fun a _ h _ => queued_step plainCrates_correct a h) _ _ queued_init
      (along_of_forall (fun _ _ => trivial) _ _)
  have hiff := @Queued.drained_iff _ _ _ (filled 4 7) _ _ plainCrates_correct hqueued
    hreceiver
  have hfits := hiff.mp (by rw [hreceived, haccepted]; rfl)
  rw [haccepted] at hfits
  have hle := (hfits _ List.mem_cons_self).2
  rw [List.length_replicate] at hle
  exact absurd hle (by decide)

end WritersProof.Ipc.SecureChannel
