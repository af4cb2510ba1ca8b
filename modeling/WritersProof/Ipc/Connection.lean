/-
  WritersProof.Ipc.Connection

  A client and the server's loop at the two ends of one stream
  (crates/cpoe/src/ipc/async_client.rs, server_handler.rs, crypto.rs).

  Every message is a frame, a length of 4 bytes and as many bytes of an encrypted payload.
  The stream keeps what was written and not yet read, in both directions.  What time and
  the operating system do to a call is an argument of it: it gets through, it fails after some
  bytes, or its deadline elapses after some bytes.

  A call that waits for bytes which are not there changes nothing and returns nothing.
-/
import WritersProof.Ipc.Crypto
import WritersProof.Lib.Machine

namespace WritersProof.Ipc

open Rust

def MAX_MESSAGE_SIZE : Nat := 256 * 1024

/-! ## Messages -/

inductive IpcRole where
  | readOnly
  | user
  | admin

namespace IpcRole

def rank : IpcRole → Nat
  | readOnly => 0
  | user => 1
  | admin => 2

def name : IpcRole → String
  | readOnly => "ReadOnly"
  | user => "User"
  | admin => "Admin"

end IpcRole

inductive IpcOperation where
  | «export»
  | verify
  | forensics
  | processScore
  | checkpoint
  | witnessing
  | general

def IpcOperation.name : IpcOperation → String
  | .«export» => "Export"
  | verify => "Verify"
  | forensics => "Forensics"
  | processScore => "ProcessScore"
  | checkpoint => "Checkpoint"
  | witnessing => "Witnessing"
  | general => "General"

inductive IpcErrorCode where
  | invalidMessage
  | permissionDenied
  | rateLimited

/-- The messages of a service, their encoding, and what the server checks about them -/
structure Service (Message : Type) where
  error : IpcErrorCode → String → Message
  encodeMessageJson : Message → Except String Bytes
  decodeMessageJson : Bytes → Except String Message
  validatePaths : Message → Except String Unit
  requiredRole : Message → IpcRole
  rateLimitKey : Message → IpcOperation
  clientRole : IpcRole

/-- `Display` -/
def IpcError.text : IpcError → String
  | .sequenceDesync expected got =>
    s!"SequenceDesync: expected {expected}, got {got} (client should retry)"
  | .other message => message

inductive AsyncIpcClientError where
  | sendFailed
  | receiveFailed
  | serializationFailed (message : String)
  | deserializationFailed (message : String)
  | connectionClosed
  | notConnected
  | messageTooLarge (size max : Nat)
  | protocolError (message : String)
  | timeout

/-! ## The stream -/

/-- Both ends of a connection, and what is on its way between them -/
structure Link where
  /-- The client has a `stream`. -/
  connected : Bool
  client : Option SecureSession
  serving : Bool
  server : SecureSession
  toServer : Bytes
  toClient : Bytes
  deriving DecidableEq

/-- `self.stream = None; self.secure_session = None;` -/
def Link.poisoned (link : Link) : Link := { link with connected := false, client := none }

/-- The loop ends. -/
def Link.closed (link : Link) : Link := { link with serving := false }

def framed (payload : Bytes) : Bytes := Bytes.toLE 4 payload.length ++ payload

/-- What a reader of a frame finds -/
inductive Incoming where
  | waiting
  | tooLarge (len : Nat) (rest : Bytes)
  | frame (buffer rest : Bytes)

/-- A frame that is too large leaves its payload in the stream. -/
def incoming (stream : Bytes) : Incoming :=
  let len := Bytes.ofLE (stream.take 4)
  let rest := stream.drop 4
  if stream.length < 4 then .waiting
  else if len > MAX_MESSAGE_SIZE then .tooLarge len rest
  else if rest.length < len then .waiting
  else .frame (rest.take len) (rest.drop len)

inductive WriteIo where
  | done
  | failed (written : Nat)
  | elapsed (written : Nat)

inductive ReadIo where
  | arrived
  | closed
  | failed (read : Nat)
  | elapsed (read : Nat)

section Defs

variable {Message : Type} (S : Service Message) (C : Crates)

/-! ## The client -/

def clientCall {α : Type} (x : Call SecureSession IpcError α)
    (f : IpcError → AsyncIpcClientError) : Call Link AsyncIpcClientError α := fun link =>
  match link.client with
  | none => (fail .notConnected, link)
  | some session =>
    let (result, session) := x session
    (mapFault result f, { link with client := some session })

/-- Only a write that runs out of time drops the stream. -/
def writeFrame (io : WriteIo) (payload : Bytes) : Call Link AsyncIpcClientError Unit := fun link =>
  match io with
  | .done => (.ok (), { link with toServer := link.toServer ++ framed payload })
  | .failed written =>
    (fail .sendFailed, { link with toServer := link.toServer ++ (framed payload).take written })
  | .elapsed written =>
    (fail .timeout,
      { link with toServer := link.toServer ++ (framed payload).take written }.poisoned)

/-- The size is checked when the sequence number is spent. -/
def sendMessage (io : WriteIo) (msg : Message) : Call Link AsyncIpcClientError Unit := do
  let connected ← Call.asks Link.connected
  Call.reject (connected = false) .notConnected
  let session ← Call.asks Link.client
  Call.reject (session = none) .notConnected
  let encoded ← Call.lift (mapErr (S.encodeMessageJson msg) .serializationFailed)
  let payload ← clientCall (encrypt C encoded) fun e =>
    .protocolError s!"Encryption failed: {e.text}"
  Call.reject (payload.length > MAX_MESSAGE_SIZE) (.messageTooLarge payload.length MAX_MESSAGE_SIZE)
  writeFrame io payload

/-- The payload of a frame; none while the read waits -/
def recvBuffer (io : ReadIo) : Call Link AsyncIpcClientError (Option Bytes) := fun link =>
  match io with
  | .arrived =>
    match incoming link.toClient with
    | .waiting => (.ok none, link)
    | .tooLarge len rest =>
      (fail (.messageTooLarge len MAX_MESSAGE_SIZE), { link with toClient := rest })
    | .frame buffer rest => (.ok (some buffer), { link with toClient := rest })
  | .closed => (fail .connectionClosed, { link with toClient := [] })
  | .failed read => (fail .receiveFailed, { link with toClient := link.toClient.drop read })
  | .elapsed read =>
    (fail .timeout, { link with toClient := link.toClient.drop read }.poisoned)

/-- None while the call waits -/
def recvMessage (io : ReadIo) : Call Link AsyncIpcClientError (Option Message) := do
  let connected ← Call.asks Link.connected
  Call.reject (connected = false) .notConnected
  match ← recvBuffer io with
  | none => pure none
  | some buffer =>
    let plaintext ← clientCall (decrypt C buffer) fun e =>
      .protocolError s!"Decryption failed: {e.text}"
    let message ← Call.lift (mapErr (S.decodeMessageJson plaintext) .deserializationFailed)
    pure (some message)

/-! ## The server -/

/-- What the server meets when it handles a message: the rate limiter, the handler, and how
many bytes a write gets through where it fails -/
structure Turn (Message : Type) where
  allowed : Bool
  handled : Message
  written : Option Nat

/-- A response, and whether an error in sending it ends the loop -/
inductive Response (Message : Type) where
  | bestEffort (message : Message)
  | handled (message : Message)

def Response.message : Response Message → Message
  | bestEffort message => message
  | handled message => message

def respond (turn : Turn Message) (plaintext : Bytes) : Response Message :=
  match S.decodeMessageJson plaintext with
  | .error _ => .bestEffort (S.error .invalidMessage "Invalid message format")
  | .ok msg =>
    match S.validatePaths msg with
    | .error e => .bestEffort (S.error .permissionDenied e)
    | .ok () =>
      if S.clientRole.rank < (S.requiredRole msg).rank then
        .bestEffort (S.error .permissionDenied
          (s!"Insufficient permissions: requires {(S.requiredRole msg).name}, "
            ++ s!"client has {S.clientRole.name}"))
      else if turn.allowed = false then
        .bestEffort (S.error .rateLimited
          s!"Rate limit exceeded for operation: {(S.rateLimitKey msg).name}")
      else .handled turn.handled

/-- Nothing compares the size of the payload to what the client accepts. -/
def sendEncrypted (written : Option Nat) (json : Bytes) : Call Link IpcError Unit := fun link =>
  match encrypt C json link.server with
  | (.error e, server) => (.error e, { link with server })
  | (.ok encrypted, server) =>
    if 2 ^ 32 ≤ encrypted.length then
      (fail (.other "Encrypted payload exceeds u32::MAX"), { link with server })
    else
      match written with
      | none => (.ok (), { link with server, toClient := link.toClient ++ framed encrypted })
      | some n =>
        (fail (.other "write failed"),
          { link with server, toClient := link.toClient ++ (framed encrypted).take n })

/-- The answer to a response that does not serialize -/
def serializationFallback : Bytes :=
  Bytes.utf8 ("\x7b\"type\":\"Error\",\"code\":\"InternalError\","
    ++ "\"message\":\"Internal serialization error\"\x7d")

def answer (turn : Turn Message) (plaintext : Bytes) (link : Link) : Link :=
  match respond S turn plaintext with
  | .bestEffort message =>
    match S.encodeMessageJson message with
    | .ok json => (sendEncrypted C turn.written json link).2
    | .error _ => link
  | .handled message =>
    match S.encodeMessageJson message with
    | .ok json =>
      match sendEncrypted C turn.written json link with
      | (.ok (), link) => link
      | (.error _, link) => link.closed
    | .error _ => (sendEncrypted C turn.written serializationFallback link).2.closed

/-- One round of the loop: a frame that is not empty, not too large, and decrypts is
answered; any other one ends the loop. -/
def serve (turn : Turn Message) (link : Link) : Link :=
  if link.serving = false then link
  else
    match incoming link.toServer with
    | .waiting => link
    | .tooLarge _ rest => { link with toServer := rest }.closed
    | .frame buffer rest =>
      if buffer = [] then { link with toServer := rest }.closed
      else
        match decrypt C buffer link.server with
        | (.ok plaintext, server) =>
          answer S C turn plaintext { link with server, toServer := rest }
        | (.error _, server) => { link with server, toServer := rest }.closed

/-! ## Runs -/

/-- The calls of the client, and what the server does meanwhile; `close` is its idle timeout or
a failed read. -/
inductive Op (Message : Type) where
  | send (msg : Message) (io : WriteIo)
  | recv (io : ReadIo)
  | serve (turn : Turn Message)
  | close

/-- What a call of the client returns -/
inductive Reply (Message : Type) where
  | none
  | sent (result : Res AsyncIpcClientError Unit)
  | received (result : Res AsyncIpcClientError (Option Message))

/-- The call has returned an error. -/
def Reply.Failed : Reply Message → Prop
  | none => False
  | sent result => ∃ e, result = fail e
  | received result => ∃ e, result = fail e

def Op.step : Op Message → Link → Reply Message × Link
  | send msg io, link =>
    let (result, link) := sendMessage S C io msg link
    (.sent result, link)
  | recv io, link =>
    let (result, link) := recvMessage S C io link
    (.received result, link)
  | serve turn, link => (.none, Ipc.serve S C turn link)
  | close, link => (.none, link.closed)

/-! ## The handshake -/

def KEY_CONFIRM_PLAINTEXT : Bytes := Bytes.utf8 "cpoe-key-confirm-ok"

def confirm (sender receiver : SecureSession) :
    Res IpcError (SecureSession × SecureSession) := do
  let (frame, sender) := encrypt C KEY_CONFIRM_PLAINTEXT sender
  let (token, receiver) := decrypt C (← frame) receiver
  reject ((← token) ≠ KEY_CONFIRM_PLAINTEXT) (.other "Key confirmation mismatch")
  pure (sender, receiver)

/-- The link after a handshake with one secret: the server confirms first. -/
def establish (sharedSecret clientPubkey serverPubkey : Bytes) : Res IpcError Link := do
  let server ← fromSharedSecret C sharedSecret clientPubkey serverPubkey true
  let client ← fromSharedSecret C sharedSecret clientPubkey serverPubkey false
  let (server, client) ← confirm C server client
  let (client, server) ← confirm C client server
  pure { connected := true, client := some client, serving := true, server
         toServer := [], toClient := [] }

end Defs

end WritersProof.Ipc
