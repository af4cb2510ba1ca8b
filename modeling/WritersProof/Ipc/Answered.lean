/-
  WritersProof.Ipc.Answered

  What is left of a connection after a call that has failed.

  The client asks, the server answers, the client reads: between two exchanges both ends
  expect the same numbers and nothing is on its way (`Agree`).

  An error then comes from an encoding that fails, which leaves both ends in agreement, or it
  drops the connection (`usable_along`).
-/
import WritersProof.Ipc.Connection
import WritersProof.Ipc.Channel

namespace WritersProof.Ipc

open Rust Bytes

/-- AES-256-GCM opens what it has encrypted, a tag of 16 bytes longer; messages are never too
long for it. -/
structure Crates.Correct (C : Crates) : Prop where
  encrypt_isSome : ∀ key nonce message, message.length ≤ MAX_MESSAGE_SIZE →
    (C.encrypt key nonce message).isSome
  length_encrypt : ∀ key nonce message ciphertext,
    C.encrypt key nonce message = some ciphertext → ciphertext.length = message.length + 16
  decrypt_encrypt : ∀ key nonce message ciphertext,
    C.encrypt key nonce message = some ciphertext → C.decrypt key nonce ciphertext = some message

/-- A payload has 36 bytes more than the encoding in it. -/
def FitsFrame (json : Bytes) : Prop := json.length + 36 ≤ MAX_MESSAGE_SIZE

instance (json : Bytes) : Decidable (FitsFrame json) := inferInstanceAs (Decidable (_ ≤ _))

/-! ## One direction -/

structure Paired (sender receiver : SecureSession) : Prop where
  key : sender.cipher.key = receiver.cipher.key
  noncePrefix : sender.txNoncePrefix = receiver.rxNoncePrefix
  number : sender.txSequence = receiver.rxSequence

def SecureSession.payload (C : Crates) (s : SecureSession) (json : Bytes) : Bytes :=
  let nonce := constructNonce s.txNoncePrefix s.txSequence
  wireFrame s.txSequence nonce ((C.encrypt s.cipher.key nonce json).getD [])

section Direction

variable {C : Crates} {s r : SecureSession} {json : Bytes}

theorem Paired.next (h : Paired s r) : Paired (s.afterEncrypt C json) r.afterDecrypt :=
  ⟨h.key, h.noncePrefix, congrArg (· + 2) h.number⟩

theorem Paired.back (h : Paired r s) : Paired r.afterDecrypt (s.afterEncrypt C json) :=
  ⟨h.key, h.noncePrefix, h.number⟩

theorem exists_ciphertext (hC : C.Correct) (s : SecureSession) (hfits : FitsFrame json) :
    ∃ ciphertext, C.encrypt s.cipher.key (constructNonce s.txNoncePrefix s.txSequence) json
      = some ciphertext ∧ ciphertext.length = json.length + 16 := by
  have hle : json.length ≤ MAX_MESSAGE_SIZE := by
    unfold FitsFrame at hfits
    omega
  obtain ⟨ciphertext, h⟩ := Option.isSome_iff_exists.mp (hC.encrypt_isSome s.cipher.key
    (constructNonce s.txNoncePrefix s.txSequence) json hle)
  exact ⟨ciphertext, h, hC.length_encrypt _ _ _ _ h⟩

theorem encrypt_of_fits (hC : C.Correct) (hfits : FitsFrame json)
    (hlt : s.txSequence < 2 ^ 64 - 2) :
    encrypt C json s = (.ok (s.payload C json), s.afterEncrypt C json) := by
  obtain ⟨ciphertext, h, -⟩ := exists_ciphertext hC s hfits
  rw [encrypt_of_lt C s json hlt, h, SecureSession.payload, h]
  rfl

theorem length_wireFrame (seq : Nat) (nonce : Nonce) (ciphertext : Bytes) :
    (wireFrame seq nonce ciphertext).length = ciphertext.length + 20 := by
  simp only [wireFrame, List.length_append, length_toLE, FixedBytes.length_val]
  omega

theorem length_payload (hC : C.Correct) (s : SecureSession) (hfits : FitsFrame json) :
    (s.payload C json).length = json.length + 36 := by
  obtain ⟨ciphertext, h, hlen⟩ := exists_ciphertext hC s hfits
  rw [SecureSession.payload, h, Option.getD_some, length_wireFrame, hlen]

/-- What the cipher has made of a message for the expected number, it opens again. -/
theorem decrypt_wireFrame (hC : C.Correct) {seq : Nat} {ciphertext : Bytes}
    (hlt : seq + 2 < 2 ^ 64) (hnumber : r.rxSequence = seq)
    (h : C.encrypt r.cipher.key (constructNonce r.rxNoncePrefix seq) json = some ciphertext) :
    decrypt C (wireFrame seq (constructNonce r.rxNoncePrefix seq) ciphertext) r
      = (.ok json, r.afterDecrypt) := by
  have hlength := length_wireFrame seq (constructNonce r.rxNoncePrefix seq) ciphertext
  have htag := hC.length_encrypt _ _ _ _ h
  have hdrop : (wireFrame seq (constructNonce r.rxNoncePrefix seq) ciphertext).drop 8
      = (constructNonce r.rxNoncePrefix seq).val ++ ciphertext := by
    rw [wireFrame, List.append_assoc, List.drop_left' (length_toLE _ _)]
  refine decrypt_eq_ok.mpr ⟨by omega, ?_, by omega, ?_, ?_, rfl⟩
  · have hseq : frameSeq (wireFrame seq (constructNonce r.rxNoncePrefix seq) ciphertext)
        = ofLE (toLE 8 seq) := by
      rw [frameSeq, wireFrame, List.append_assoc, List.take_left' (length_toLE _ _)]
    rw [hseq, ofLE_toLE_of_lt (by omega), hnumber]
  · rw [hdrop, List.take_left' (FixedBytes.length_val _), hnumber]
  · have hrest : (wireFrame seq (constructNonce r.rxNoncePrefix seq) ciphertext).drop 20
        = ciphertext := by
      rw [show 20 = 8 + 12 from rfl, ← List.drop_drop, hdrop,
        List.drop_left' (FixedBytes.length_val _)]
    rw [hrest, hnumber]
    exact hC.decrypt_encrypt _ _ _ _ h

theorem decrypt_payload (hC : C.Correct) (hpaired : Paired s r) (hfits : FitsFrame json)
    (hlt : s.txSequence < 2 ^ 64 - 2) :
    decrypt C (s.payload C json) r = (.ok json, r.afterDecrypt) := by
  obtain ⟨ciphertext, h, -⟩ := exists_ciphertext hC s hfits
  rw [SecureSession.payload, h, Option.getD_some, hpaired.noncePrefix]
  rw [hpaired.key, hpaired.noncePrefix] at h
  exact decrypt_wireFrame hC (by omega) hpaired.number.symm h

end Direction

/-- A whole frame that is not too large is read as it was written. -/
theorem incoming_framed {payload : Bytes} (h : payload.length ≤ MAX_MESSAGE_SIZE) :
    incoming (framed payload) = .frame payload [] := by
  have hmax : MAX_MESSAGE_SIZE < 256 ^ 4 := by decide
  have hlen : ofLE (toLE 4 payload.length) = payload.length :=
    ofLE_toLE_of_lt (by omega)
  have htake : (framed payload).take 4 = toLE 4 payload.length :=
    List.take_left' (length_toLE _ _)
  have hdrop : (framed payload).drop 4 = payload := List.drop_left' (length_toLE _ _)
  have hlong : ¬ (framed payload).length < 4 := by
    rw [framed, List.length_append, length_toLE]
    omega
  rw [incoming, if_neg hlong, htake, hdrop, hlen, if_neg (by omega), if_neg (by omega),
    List.take_length, List.drop_length]

theorem incoming_nil : incoming [] = .waiting := rfl

/-! ## Agreement -/

/-- Both ends are there, expect the same numbers, and nothing is on its way. -/
structure Agree (link : Link) (c : SecureSession) : Prop where
  connected : link.connected = true
  client : link.client = some c
  serving : link.serving = true
  requests : Paired c link.server
  responses : Paired link.server c
  toServer : link.toServer = []
  toClient : link.toClient = []

/-- The next requests and responses have numbers. -/
def NumbersLeft (link : Link) : Prop :=
  (∀ c ∈ link.client, c.txSequence + 2 < 2 ^ 64 - 2) ∧ link.server.txSequence + 2 < 2 ^ 64 - 2

instance (link : Link) : Decidable (NumbersLeft link) := inferInstanceAs (Decidable (_ ∧ _))

section Results

variable {Message : Type} (S : Service Message) (C : Crates)

/-- Both ends agree, and the next request that fits gets the response that the server has
encoded for it, when the calls get through and the response fits too. -/
structure Usable (link : Link) : Prop where
  agree : ∃ c, Agree link c
  answered : ∀ msg json turn response, S.encodeMessageJson msg = .ok json → FitsFrame json →
    S.encodeMessageJson (respond S turn json).message = .ok response → FitsFrame response →
    turn.written = none →
    (sendMessage S C .done msg link).1 = .ok ()
      ∧ (recvMessage S C .arrived (serve S C turn (sendMessage S C .done msg link).2)).1
        = mapErr ((S.decodeMessageJson response).map some) .deserializationFailed

/-- What the next frame for the server decrypts to -/
def request (link : Link) : Option Bytes :=
  match incoming link.toServer with
  | .frame buffer _ => (decrypt C buffer link.server).1.toOption
  | _ => none

/-- The call gets through or runs out of time. -/
def WriteIo.intact : WriteIo → Bool
  | .failed _ => false
  | _ => true

def ReadIo.intact : ReadIo → Bool
  | .arrived => true
  | .elapsed _ => true
  | _ => false

/-- The condition on a step, while the client is connected -/
def Allowed (op : Op Message) (link : Link) : Prop :=
  link.connected = true → NumbersLeft link ∧
    match op with
    | .send msg io =>
      (link.toServer = [] ∧ link.toClient = []) ∧ io.intact = true
        ∧ ∀ json ∈ (S.encodeMessageJson msg).toOption, FitsFrame json
    | .recv io => io.intact = true
    | .serve turn => turn.written = none ∧ ∀ json ∈ request C link,
        ∃ response ∈ (S.encodeMessageJson (respond S turn json).message).toOption,
          FitsFrame response
    | .close => False

instance decidableAllowed : ∀ (op : Op Message) (link : Link), Decidable (Allowed S C op link)
  | .send _ _, _ => inferInstanceAs (Decidable (_ → _ ∧ (_ ∧ _) ∧ _ ∧ ∀ json ∈ _, FitsFrame json))
  | .recv _, _ => inferInstanceAs (Decidable (_ → _ ∧ _))
  | .serve _, _ => inferInstanceAs (Decidable (_ → _ ∧ _ ∧ ∀ json ∈ _, ∃ response ∈ _,
      FitsFrame response))
  | .close, _ => inferInstanceAs (Decidable (_ → _ ∧ False))

variable {S C}

/-! ## An exchange -/

/-- A request is on its way. -/
def Link.asked (C : Crates) (link : Link) (c : SecureSession) (json : Bytes) : Link :=
  { link with client := some (c.afterEncrypt C json), toServer := framed (c.payload C json) }

def Link.responded (C : Crates) (link : Link) (c : SecureSession) (json response : Bytes) : Link :=
  { link with
    client := some (c.afterEncrypt C json)
    server := link.server.afterDecrypt.afterEncrypt C response
    toServer := []
    toClient := framed (link.server.payload C response) }

def Link.exchanged (C : Crates) (link : Link) (c : SecureSession) (json response : Bytes) : Link :=
  { link with
    client := some (c.afterEncrypt C json).afterDecrypt
    server := link.server.afterDecrypt.afterEncrypt C response
    toServer := []
    toClient := [] }

variable {link : Link} {c : SecureSession} {json response : Bytes}

theorem Agree.exchanged (h : Agree link c) :
    Agree (link.exchanged C c json response) (c.afterEncrypt C json).afterDecrypt where
  connected := h.connected
  client := rfl
  serving := h.serving
  requests := ⟨h.requests.key, h.requests.noncePrefix, congrArg (· + 2) h.requests.number⟩
  responses := ⟨h.responses.key, h.responses.noncePrefix, congrArg (· + 2) h.responses.number⟩
  toServer := rfl
  toClient := rfl

variable {msg : Message} {turn : Turn Message}

theorem sendMessage_of_error (h : Agree link c) {io : WriteIo} {e : String}
    (hjson : S.encodeMessageJson msg = .error e) :
    sendMessage S C io msg link = (fail (.serializationFailed e), link) := by
  unfold sendMessage
  rw [Call.asks_bind, Call.reject_bind_neg (by simp [h.connected]), Call.asks_bind,
    Call.reject_bind_neg (by simp [h.client]), hjson]
  rfl

/-- A message whose encryption succeeds is sent unless it is too large. -/
theorem sendMessage_encrypted (h : Agree link c) (io : WriteIo) {msg : Message} {payload : Bytes}
    (hjson : S.encodeMessageJson msg = .ok json)
    (hcall : encrypt C json c = (.ok payload, c.afterEncrypt C json)) :
    sendMessage S C io msg link = (Call.reject (MAX_MESSAGE_SIZE < payload.length)
        (AsyncIpcClientError.messageTooLarge payload.length MAX_MESSAGE_SIZE) >>= fun _ =>
      writeFrame io payload) { link with client := some (c.afterEncrypt C json) } := by
  have hcall : clientCall (encrypt C json)
      (fun e => .protocolError s!"Encryption failed: {e.text}") link
      = (.ok payload, { link with client := some (c.afterEncrypt C json) }) := by
    rw [clientCall, h.client]
    dsimp only
    rw [hcall]
    rfl
  unfold sendMessage
  rw [Call.asks_bind, Call.reject_bind_neg (by simp [h.connected]), Call.asks_bind,
    Call.reject_bind_neg (by simp [h.client]), hjson, mapErr, Call.lift_ok_bind,
    Call.bind_of_ok hcall]

theorem sendMessage_of_fits (hC : C.Correct) (h : Agree link c) {io : WriteIo} {msg : Message}
    (hjson : S.encodeMessageJson msg = .ok json) (hfits : FitsFrame json)
    (hlt : c.txSequence < 2 ^ 64 - 2) :
    sendMessage S C io msg link = writeFrame io (c.payload C json)
      { link with client := some (c.afterEncrypt C json) } := by
  have hlen := length_payload hC c hfits
  rw [sendMessage_encrypted h io hjson (encrypt_of_fits hC hfits hlt)]
  unfold FitsFrame at hfits
  exact Call.reject_bind_neg (by omega) _ _ _

theorem sendMessage_done (hC : C.Correct) (h : Agree link c)
    (hjson : S.encodeMessageJson msg = .ok json) (hfits : FitsFrame json)
    (hlt : c.txSequence < 2 ^ 64 - 2) :
    sendMessage S C .done msg link = (.ok (), link.asked C c json) := by
  rw [sendMessage_of_fits hC h hjson hfits hlt, writeFrame, Link.asked, h.toServer]
  rfl

section

variable (hC : C.Correct)

include hC

theorem incoming_asked (hfits : FitsFrame json) :
    incoming (link.asked C c json).toServer = .frame (c.payload C json) [] := by
  apply incoming_framed
  rw [length_payload hC c hfits]
  exact hfits

theorem request_asked (h : Agree link c) (hfits : FitsFrame json)
    (hlt : c.txSequence < 2 ^ 64 - 2) :
    request C (link.asked C c json) = some json := by
  rw [request, incoming_asked hC hfits]
  dsimp only
  rw [show (link.asked C c json).server = link.server from rfl,
    decrypt_payload hC h.requests hfits hlt]
  rfl

theorem sendEncrypted_of_fits (hfits : FitsFrame response)
    (hlt : link.server.txSequence < 2 ^ 64 - 2) :
    sendEncrypted C none response link
      = (.ok (), { link with
          server := link.server.afterEncrypt C response
          toClient := link.toClient ++ framed (link.server.payload C response) }) := by
  have hlen := length_payload hC link.server hfits
  have hmax : MAX_MESSAGE_SIZE < 2 ^ 32 := by decide
  unfold FitsFrame at hfits
  rw [sendEncrypted, encrypt_of_fits hC hfits hlt]
  dsimp only
  rw [if_neg (by omega)]

/-- A response that fits is sent, whoever made it. -/
theorem answer_of_fits (link : Link) (hwritten : turn.written = none)
    (hjson : S.encodeMessageJson (respond S turn json).message = .ok response)
    (hfits : FitsFrame response) (hlt : link.server.txSequence < 2 ^ 64 - 2) :
    answer S C turn json link = { link with
      server := link.server.afterEncrypt C response
      toClient := link.toClient ++ framed (link.server.payload C response) } := by
  unfold answer
  cases hrespond : respond S turn json with
  | bestEffort message =>
    rw [hrespond] at hjson
    dsimp only [Response.message] at hjson ⊢
    rw [hjson]
    dsimp only
    rw [hwritten, sendEncrypted_of_fits hC hfits hlt]
  | handled message =>
    rw [hrespond] at hjson
    dsimp only [Response.message] at hjson ⊢
    rw [hjson]
    dsimp only
    rw [hwritten, sendEncrypted_of_fits hC hfits hlt]

theorem serve_asked (h : Agree link c) (hfits : FitsFrame json) (hlt : c.txSequence < 2 ^ 64 - 2)
    (hwritten : turn.written = none)
    (hjson : S.encodeMessageJson (respond S turn json).message = .ok response)
    (hfits' : FitsFrame response) (hlt' : link.server.txSequence < 2 ^ 64 - 2) :
    serve S C turn (link.asked C c json) = link.responded C c json response := by
  have hserving : (link.asked C c json).serving = true := h.serving
  let read := { link.asked C c json with server := link.server.afterDecrypt, toServer := [] }
  have hanswer := answer_of_fits hC read hwritten hjson hfits' hlt'
  have hne : c.payload C json ≠ [] := by
    apply List.ne_nil_of_length_pos
    rw [length_payload hC c hfits]
    omega
  rw [serve, if_neg (by simp [hserving]), incoming_asked hC hfits]
  dsimp only
  rw [if_neg hne, show (link.asked C c json).server = link.server from rfl,
    decrypt_payload hC h.requests hfits hlt]
  dsimp only
  rw [hanswer]
  simp only [read, Link.responded, Link.asked, h.toClient, List.nil_append]
  rfl

theorem recvMessage_responded (h : Agree link c) (hfits : FitsFrame response)
    (hlt : link.server.txSequence < 2 ^ 64 - 2) :
    recvMessage S C .arrived (link.responded C c json response)
      = (mapErr ((S.decodeMessageJson response).map some) .deserializationFailed,
        link.exchanged C c json response) := by
  have hlen := length_payload hC link.server hfits
  have hbuffer : recvBuffer .arrived (link.responded C c json response)
      = (.ok (some (link.server.payload C response)),
        { link.responded C c json response with toClient := [] }) := by
    have hin : incoming (framed (link.server.payload C response))
        = .frame (link.server.payload C response) [] := by
      apply incoming_framed
      rw [hlen]
      exact hfits
    rw [recvBuffer, show (link.responded C c json response).toClient
      = framed (link.server.payload C response) from rfl]
    dsimp only
    rw [hin]
  have hpaired : Paired link.server (c.afterEncrypt C json) :=
    ⟨h.responses.key, h.responses.noncePrefix, h.responses.number⟩
  have hcall : clientCall (decrypt C (link.server.payload C response))
      (fun e => .protocolError s!"Decryption failed: {e.text}")
      { link.responded C c json response with toClient := [] }
      = (.ok response, link.exchanged C c json response) := by
    rw [clientCall]
    simp only [Link.responded]
    rw [decrypt_payload hC hpaired hfits hlt]
    rfl
  unfold recvMessage
  rw [Call.asks_bind, Call.reject_bind_neg (by simp [Link.responded, h.connected]),
    Call.bind_of_ok hbuffer]
  dsimp only
  rw [Call.bind_of_ok hcall]
  cases S.decodeMessageJson response with
  | error e => rfl
  | ok message => rfl

/-- Where both ends agree, a request that fits gets its own response. -/
theorem usable_of_agree (h : Agree link c) (hlt : c.txSequence < 2 ^ 64 - 2)
    (hlt' : link.server.txSequence < 2 ^ 64 - 2) : Usable S C link where
  agree := ⟨c, h⟩
  answered := by
    intro msg json turn response hjson hfits hresponse hfits' hwritten
    rw [sendMessage_done hC h hjson hfits hlt, serve_asked hC h hfits hlt hwritten hresponse
      hfits' hlt', recvMessage_responded hC h hfits' hlt']
    exact ⟨rfl, rfl⟩

end

/-! ## Messages that are too large -/

theorem sendMessage_tooLarge (h : Agree link c) (io : WriteIo) {ciphertext : Bytes}
    (hjson : S.encodeMessageJson msg = .ok json) (hlt : c.txSequence < 2 ^ 64 - 2)
    (hcipher : C.encrypt c.cipher.key (constructNonce c.txNoncePrefix c.txSequence) json
      = some ciphertext) (hlong : MAX_MESSAGE_SIZE < ciphertext.length + 20) :
    sendMessage S C io msg link
      = (fail (.messageTooLarge (ciphertext.length + 20) MAX_MESSAGE_SIZE),
        { link with client := some (c.afterEncrypt C json) }) := by
  have hcall : encrypt C json c = (.ok (wireFrame c.txSequence
      (constructNonce c.txNoncePrefix c.txSequence) ciphertext), c.afterEncrypt C json) := by
    rw [encrypt_of_lt C c json hlt, hcipher]
    rfl
  rw [sendMessage_encrypted h io hjson hcall, length_wireFrame]
  exact Call.reject_bind_pos hlong _ _ _

/-- The server then expects a number that the client has spent. -/
theorem not_usable_of_spent (h : Agree link c) :
    ¬ Usable S C { link with client := some (c.afterEncrypt C json) } := by
  rintro ⟨⟨c', h'⟩, -⟩
  have hc' : c.afterEncrypt C json = c' := Option.some.inj h'.client
  have hspent : c.txSequence + 2 = link.server.rxSequence := by
    rw [show c.txSequence + 2 = (c.afterEncrypt C json).txSequence from rfl, hc']
    exact h'.requests.number
  have hnumber : c.txSequence = link.server.rxSequence := h.requests.number
  omega

/-! ## Runs -/

/-- Where a connection is between two steps -/
inductive Phase (C : Crates) : Link → Prop
  | gone {link : Link} (h : link.connected = false) : Phase C link
  | idle {link : Link} {c : SecureSession} (h : Agree link c) : Phase C link
  | asked {link : Link} {c : SecureSession} {json : Bytes} (h : Agree link c)
      (hfits : FitsFrame json) (hlt : c.txSequence < 2 ^ 64 - 2) : Phase C (link.asked C c json)
  | responded {link : Link} {c : SecureSession} {json response : Bytes} (h : Agree link c)
      (hfits : FitsFrame response) (hlt : link.server.txSequence < 2 ^ 64 - 2) :
      Phase C (link.responded C c json response)

/-- What a step has to leave behind -/
def Recovers (S : Service Message) (C : Crates) (reply : Reply Message) (link : Link) : Prop :=
  reply.Failed → link.connected = true → Usable S C link

theorem framed_ne_nil (payload : Bytes) : framed payload ≠ [] := by
  apply List.ne_nil_of_length_pos
  rw [framed, List.length_append, length_toLE]
  omega

theorem sendMessage_gone (h : link.connected = false) (io : WriteIo) (msg : Message) :
    sendMessage S C io msg link = (fail .notConnected, link) := by
  unfold sendMessage
  rw [Call.asks_bind, Call.reject_bind_pos h]

theorem recvMessage_gone (h : link.connected = false) (io : ReadIo) :
    recvMessage S C io link = (fail .notConnected, link) := by
  unfold recvMessage
  rw [Call.asks_bind, Call.reject_bind_pos h]

theorem recvMessage_waiting (h : link.connected = true) (hin : link.toClient = []) :
    recvMessage S C .arrived link = (.ok none, link) := by
  have hbuffer : recvBuffer .arrived link = (.ok none, link) := by
    rw [recvBuffer, hin, incoming_nil]
  unfold recvMessage
  rw [Call.asks_bind, Call.reject_bind_neg (by simp [h]), Call.bind_of_ok hbuffer]
  rfl

theorem recvMessage_elapsed (h : link.connected = true) (n : Nat) :
    (recvMessage S C (.elapsed n) link).2.connected = false := by
  have hbuffer : recvBuffer (.elapsed n) link
      = (fail .timeout, { link with toClient := link.toClient.drop n }.poisoned) := rfl
  unfold recvMessage
  rw [Call.asks_bind, Call.reject_bind_neg (by simp [h]), Call.bind_of_error hbuffer]
  rfl

theorem serve_idle (h : link.toServer = []) (turn : Turn Message) : serve S C turn link = link := by
  unfold serve
  rw [h, incoming_nil]
  split
  · rfl
  · rfl

/-- The server does not end the client's connection. -/
theorem sendEncrypted_connected (written : Option Nat) (json : Bytes) :
    (sendEncrypted C written json link).2.connected = link.connected := by
  unfold sendEncrypted
  split
  · rfl
  · split
    · rfl
    · split
      · rfl
      · rfl

theorem answer_connected (turn : Turn Message) (json : Bytes) :
    (answer S C turn json link).connected = link.connected := by
  unfold answer
  split
  · split
    · exact sendEncrypted_connected _ _
    · rfl
  · split
    next bytes _ =>
      have hkept := @sendEncrypted_connected C link turn.written bytes
      rcases hsend : sendEncrypted C turn.written bytes link with ⟨e | ⟨⟩, link'⟩
      · rw [hsend] at hkept
        exact hkept
      · rw [hsend] at hkept
        exact hkept
    · exact sendEncrypted_connected _ _

theorem serve_connected (turn : Turn Message) :
    (serve S C turn link).connected = link.connected := by
  unfold serve
  split
  · rfl
  · split
    · rfl
    · rfl
    · split
      · rfl
      · split
        · exact answer_connected _ _
        · rfl

/-- A read where nothing is on its way to the client -/
theorem recv_step {io : ReadIo} (hphase : Phase C link) (hconnected : link.connected = true)
    (hin : link.toClient = []) (hio : io.intact = true) :
    Phase C (Op.step S C (.recv io) link).2
      ∧ Recovers S C (Op.step S C (.recv io) link).1 (Op.step S C (.recv io) link).2 := by
  cases io with
  | arrived =>
    have hrecv : Op.step S C (.recv .arrived) link = (.received (.ok none), link) := by
      rw [Op.step, recvMessage_waiting hconnected hin]
    rw [hrecv]
    exact ⟨hphase, fun ⟨e, he⟩ => nomatch he⟩
  | elapsed n =>
    have hgone := @recvMessage_elapsed _ S C link hconnected n
    exact ⟨.gone hgone, fun _ h => absurd (hgone.symm.trans h) (by decide)⟩
  | closed => cases hio
  | failed n => cases hio

/-- Without a connection every call fails, and there is none after it. -/
theorem step_gone (h : link.connected = false) (op : Op Message) :
    (op.step S C link).2.connected = false := by
  cases op with
  | send msg io => rw [Op.step, sendMessage_gone h]; exact h
  | recv io => rw [Op.step, recvMessage_gone h]; exact h
  | serve turn => exact (serve_connected turn).trans h
  | close => exact h

theorem send_step (hC : C.Correct) (h : Agree link c) {io : WriteIo}
    (hallowed : Allowed S C (.send msg io) link) :
    Phase C (Op.step S C (.send msg io) link).2
      ∧ Recovers S C (Op.step S C (.send msg io) link).1 (Op.step S C (.send msg io) link).2 := by
  obtain ⟨⟨hnumber, hnumber'⟩, -, hio, hfits⟩ := hallowed h.connected
  have hlt := hnumber c h.client
  have husable : Usable S C link := usable_of_agree hC h (by omega) (by omega)
  cases hjson : S.encodeMessageJson msg with
  | error e =>
    rw [Op.step, sendMessage_of_error h hjson]
    exact ⟨.idle h, fun _ _ => husable⟩
  | ok json =>
    have hfits : FitsFrame json := hfits json (by rw [hjson]; rfl)
    have hsent := @sendMessage_of_fits _ S C link c json hC h io msg hjson hfits (by omega)
    cases io with
    | done =>
      rw [Op.step, sendMessage_done hC h hjson hfits (by omega)]
      exact ⟨.asked h hfits (by omega), fun ⟨e, he⟩ => nomatch he⟩
    | elapsed n =>
      rw [Op.step, hsent]
      exact ⟨.gone rfl, fun _ hc => nomatch hc⟩
    | failed n => cases hio

/-- The server answers the request that is there. -/
theorem serve_step (hC : C.Correct) (h : Agree link c) (hfits : FitsFrame json)
    (hlt : c.txSequence < 2 ^ 64 - 2) (hallowed : Allowed S C (.serve turn) (link.asked C c json)) :
    Phase C (serve S C turn (link.asked C c json)) := by
  obtain ⟨⟨-, hnumber⟩, hwritten, hresponse⟩ := hallowed h.connected
  obtain ⟨response, hmem, hfits'⟩ := hresponse json (request_asked hC h hfits hlt)
  have hlt' : link.server.txSequence + 2 < 2 ^ 64 - 2 := hnumber
  have hjson : S.encodeMessageJson (respond S turn json).message = .ok response := by
    cases hencoded : S.encodeMessageJson (respond S turn json).message with
    | error e => rw [hencoded] at hmem; cases hmem
    | ok bytes => rw [hencoded] at hmem; cases hmem; rfl
  rw [serve_asked hC h hfits hlt hwritten hjson hfits' (by omega)]
  exact .responded h hfits' (by omega)

theorem read_step (hC : C.Correct) (h : Agree link c) (hfits : FitsFrame response)
    (hlt : link.server.txSequence < 2 ^ 64 - 2) {io : ReadIo}
    (hallowed : Allowed S C (.recv io) (link.responded C c json response)) :
    Phase C (Op.step S C (.recv io) (link.responded C c json response)).2
      ∧ Recovers S C (Op.step S C (.recv io) (link.responded C c json response)).1
        (Op.step S C (.recv io) (link.responded C c json response)).2 := by
  obtain ⟨⟨hnumber, hnumber'⟩, hio⟩ := hallowed h.connected
  have hclient : c.txSequence + 2 + 2 < 2 ^ 64 - 2 := hnumber _ rfl
  have hserver : link.server.txSequence + 2 + 2 < 2 ^ 64 - 2 := hnumber'
  have hexchanged : Agree (link.exchanged C c json response)
    (c.afterEncrypt C json).afterDecrypt := h.exchanged
  cases io with
  | arrived =>
    rw [Op.step, recvMessage_responded hC h hfits hlt]
    refine ⟨.idle hexchanged, fun _ _ => usable_of_agree hC hexchanged ?_ ?_⟩
    · show c.txSequence + 2 < 2 ^ 64 - 2
      omega
    · show link.server.txSequence + 2 < 2 ^ 64 - 2
      omega
  | elapsed n =>
    have hgone := @recvMessage_elapsed _ S C (link.responded C c json response) h.connected n
    exact ⟨.gone hgone, fun _ hc => absurd (hgone.symm.trans hc) (by decide)⟩
  | closed => cases hio
  | failed n => cases hio

/-- Every allowed step ends in a phase, and after a failed one the link is usable. -/
theorem step_phase (hC : C.Correct) (op : Op Message) (hphase : Phase C link)
    (hallowed : Allowed S C op link) :
    Phase C (op.step S C link).2 ∧ Recovers S C (op.step S C link).1 (op.step S C link).2 := by
  cases hphase with
  | gone h =>
    have hgone := @step_gone _ S C link h op
    exact ⟨.gone hgone, fun _ hc => absurd (hgone.symm.trans hc) (by decide)⟩
  | @idle _ c h =>
    cases op with
    | send msg io => exact send_step hC h hallowed
    | recv io => exact recv_step (.idle h) h.connected h.toClient (hallowed h.connected).2
    | serve turn =>
      rw [Op.step, serve_idle h.toServer]
      exact ⟨.idle h, fun hc => nomatch hc⟩
    | close => exact (hallowed h.connected).2.elim
  | @asked link c json h hfits hlt =>
    cases op with
    | send msg io => exact absurd (hallowed h.connected).2.1.1 (framed_ne_nil _)
    | recv io =>
      exact recv_step (.asked h hfits hlt) h.connected h.toClient (hallowed h.connected).2
    | serve turn => exact ⟨serve_step hC h hfits hlt hallowed, fun hc => nomatch hc⟩
    | close => exact (hallowed h.connected).2.elim
  | @responded link c json response h hfits hlt =>
    cases op with
    | send msg io => exact absurd (hallowed h.connected).2.1.2 (framed_ne_nil _)
    | recv io => exact read_step hC h hfits hlt hallowed
    | serve turn =>
      rw [Op.step, serve_idle rfl]
      exact ⟨.responded h hfits hlt, fun hc => nomatch hc⟩
    | close => exact (hallowed h.connected).2.elim

/-! ## The handshake -/

variable {secret clientPubkey serverPubkey : Bytes}

/-- Both sides derive one key and two prefixes, and start at the numbers of the other one. -/
theorem paired_of_derived {salt : Bytes} {s c : SecureSession}
    (hs : fromSharedSecretWithSalt C secret clientPubkey serverPubkey true salt = .ok s)
    (hc : fromSharedSecretWithSalt C secret clientPubkey serverPubkey false salt = .ok c) :
    Paired c s ∧ Paired s c := by
  unfold fromSharedSecretWithSalt at hs hc
  simp only [reject_bind_eq_ok] at hs hc
  obtain ⟨-, -, -, hs⟩ := hs
  obtain ⟨-, -, -, hc⟩ := hc
  obtain ⟨key, hkey, hs⟩ := res_bind_eq_ok.mp hs
  obtain ⟨clientPrefix, hclient, hs⟩ := res_bind_eq_ok.mp hs
  obtain ⟨serverPrefix, hserver, hs⟩ := res_bind_eq_ok.mp hs
  rw [hkey, res_ok_bind, hclient, res_ok_bind, hserver, res_ok_bind] at hc
  cases hs
  cases hc
  exact ⟨⟨rfl, rfl, rfl⟩, ⟨rfl, rfl, rfl⟩⟩

/-- A confirmed key spends one number at each side. -/
theorem confirm_eq_ok {s s' r r' : SecureSession} (h : confirm C s r = .ok (s', r')) :
    s' = s.afterEncrypt C KEY_CONFIRM_PLAINTEXT ∧ r' = r.afterDecrypt := by
  unfold confirm at h
  rcases hframe : encrypt C KEY_CONFIRM_PLAINTEXT s with ⟨frame, s₁⟩
  rw [hframe] at h
  obtain ⟨bytes, hbytes, h⟩ := res_bind_eq_ok.mp h
  rcases htoken : decrypt C bytes r with ⟨token, r₁⟩
  rw [htoken] at h
  obtain ⟨plaintext, hplaintext, h⟩ := res_bind_eq_ok.mp h
  obtain ⟨-, h⟩ := reject_bind_eq_ok.mp h
  cases h
  subst hbytes hplaintext
  have hlt : s.txSequence < 2 ^ 64 - 2 := by
    by_contra hge
    obtain ⟨e, hfail⟩ := encrypt_exhausted C s KEY_CONFIRM_PLAINTEXT (by omega)
    rw [hfail] at hframe
    cases hframe
  rw [encrypt_of_lt C s _ hlt] at hframe
  obtain ⟨-, -, -, -, -, hr⟩ := decrypt_eq_ok.mp htoken
  exact ⟨(congrArg Prod.snd hframe).symm, hr⟩

/-- The handshake ends in agreement. -/
theorem agree_of_establish {link : Link}
    (h : establish C secret clientPubkey serverPubkey = .ok link) : ∃ c, Agree link c := by
  unfold establish at h
  obtain ⟨s, hs, h⟩ := res_bind_eq_ok.mp h
  obtain ⟨c, hc, h⟩ := res_bind_eq_ok.mp h
  obtain ⟨⟨s', c'⟩, hserver, h⟩ := res_bind_eq_ok.mp h
  obtain ⟨⟨c'', s''⟩, hclient, h⟩ := res_bind_eq_ok.mp h
  obtain ⟨rfl, rfl⟩ := confirm_eq_ok hserver
  obtain ⟨rfl, rfl⟩ := confirm_eq_ok hclient
  obtain ⟨hrequests, hresponses⟩ := paired_of_derived hs hc
  cases h
  exact ⟨_, rfl, rfl, rfl, hrequests.back.next, hresponses.next.back, rfl, rfl⟩

/-- **Every failed call of a run that keeps to the conditions leaves a connection that is
usable, or none.** -/
theorem usable_along (hC : C.Correct) (ops : List (Op Message)) {link : Link}
    (hlink : establish C secret clientPubkey serverPubkey = .ok link)
    (hallowed : Machine.Along (Op.step S C) (Allowed S C) ops link) :
    Machine.Along (Op.step S C)
      (fun op link => Recovers S C (op.step S C link).1 (op.step S C link).2) ops link := by
  obtain ⟨c, h⟩ := agree_of_establish hlink
  exact Machine.along_of_invariant (fun op link hphase hop => step_phase hC op hphase hop)
    ops link (.idle h) hallowed

end Results

/-! ### A service of blanks -/

/-- A message is a number of blanks; none does not encode, and one does not decode. -/
def blanks : Service Nat where
  error _ _ := 2
  encodeMessageJson n := if n = 0 then .error "no blanks" else .ok (List.replicate n 32)
  decodeMessageJson json := if json.length = 1 then .error "one blank" else .ok json.length
  validatePaths _ := .ok ()
  requiredRole _ := .user
  rateLimitKey _ := .general
  clientRole := .user

theorem plainCrates_correct : plainCrates.Correct where
  encrypt_isSome _ _ _ _ := rfl
  length_encrypt key nonce message ciphertext h := by
    cases h
    simp
    omega
  decrypt_encrypt key nonce message ciphertext h := by
    cases h
    have htag : (nonce.val ++ key.val.take 4).length = 16 := by simp
    simp only [plainCrates]
    rw [List.take_left' htag, if_pos rfl, List.drop_left' htag]

/-- Both sessions after the handshake -/
def plainLink : Link where
  connected := true
  client := some (((plainSession false).afterDecrypt).afterEncrypt plainCrates
    KEY_CONFIRM_PLAINTEXT)
  serving := true
  server := ((plainSession true).afterEncrypt plainCrates KEY_CONFIRM_PLAINTEXT).afterDecrypt
  toServer := []
  toClient := []

theorem establish_plain :
    establish plainCrates (List.replicate 32 1) (List.replicate 65 2) (List.replicate 65 3)
      = .ok plainLink := by
  decide +kernel

/-- A message that does not encode, a response that does not decode, and a next exchange. -/
theorem usable_along_blanks :
    Machine.Along (Op.step blanks plainCrates)
      (fun op link => Recovers blanks plainCrates (op.step blanks plainCrates link).1
        (op.step blanks plainCrates link).2)
      [.send 0 .done, .send 5 .done, .serve ⟨true, 1, none⟩, .recv .arrived,
        .send 6 .done, .serve ⟨false, 7, none⟩, .recv .arrived, .recv (.elapsed 3)] plainLink :=
  usable_along plainCrates_correct _ establish_plain (by decide +kernel)

/-- After a message of 300000 bytes the client is connected and expects a number that the
server does not. -/
theorem not_recovers_oversize :
    ∃ link, establish plainCrates (List.replicate 32 1) (List.replicate 65 2)
        (List.replicate 65 3) = .ok link
      ∧ ¬ Machine.Along (Op.step blanks plainCrates)
        (fun op link => Recovers blanks plainCrates (op.step blanks plainCrates link).1
          (op.step blanks plainCrates link).2)
        [.send 300000 .done] link := by
  refine ⟨plainLink, establish_plain, fun h => ?_⟩
  obtain ⟨c, hagree⟩ := agree_of_establish establish_plain
  have hjson : blanks.encodeMessageJson 300000 = .ok (List.replicate 300000 32) := rfl
  have hnumber : c.txSequence = 2 := by
    have hserver : plainLink.server.rxSequence = 2 := by decide +kernel
    exact hagree.requests.number.trans hserver
  let nonce := constructNonce c.txNoncePrefix c.txSequence
  have hcipher : plainCrates.encrypt c.cipher.key nonce (List.replicate 300000 32)
      = some (nonce.val ++ c.cipher.key.val.take 4 ++ List.replicate 300000 32) := rfl
  have hlong : MAX_MESSAGE_SIZE
      < (nonce.val ++ c.cipher.key.val.take 4 ++ List.replicate 300000 32).length + 20 := by
    rw [List.length_append, List.length_replicate, MAX_MESSAGE_SIZE]
    omega
  have hsend := sendMessage_tooLarge hagree .done hjson (by omega) hcipher hlong
  have hrecovers : Recovers blanks plainCrates
      (Op.step blanks plainCrates (.send 300000 .done) plainLink).1
      (Op.step blanks plainCrates (.send 300000 .done) plainLink).2 := h.1
  rw [Op.step, hsend] at hrecovers
  exact not_usable_of_spent hagree (hrecovers ⟨_, rfl⟩ hagree.connected)

end WritersProof.Ipc
