/-
  WritersProof.Evidence.Cosigned

  Packets that are signed and then co-signed, in any order of the calls.

  The hash that is signed covers the co-signature of the packet, and a co-signature is
  made after the signature: what was signed is not what is verified.  A co-signature
  of a hardware-backed provider names a kind of provider that no verifier knows.  And a
  verifier compares the signature of the co-signature before it, and not its place.
-/
import WritersProof.Evidence.Signing

namespace WritersProof.Evidence

open Rust FixedBytes
open Checkpoint (Digest)

inductive SigningCall where
  | setVerifierNonce (nonce : Digest)
  | sign (seed : Digest)
  | signWithDid (seed : Digest) (authorDid : Option String)
  | signWithNonce (seed nonce : Digest)
  | cosignHardware (provider : Provider) (prev : Option HardwareCosignature)

def SigningCall.seed : SigningCall → Option Digest
  | .sign seed => some seed
  | .signWithDid seed _ => some seed
  | .signWithNonce seed _ => some seed
  | .setVerifierNonce _ => none
  | .cosignHardware _ _ => none

section Defs

variable (C : Crates) (p : Packet)

def Packet.call : SigningCall → Res Error Packet
  | .setVerifierNonce nonce => .ok (p.setVerifierNonce nonce)
  | .sign seed => p.sign C seed
  | .signWithDid seed authorDid => p.signWithDid C seed authorDid
  | .signWithNonce seed nonce => p.signWithNonce C seed nonce
  | .cosignHardware provider prev => p.cosignHardware C provider prev

def Packet.calls : Packet → List SigningCall → Res Error Packet
  | p, [] => .ok p
  | p, call :: calls => do
    let p ← p.call C call
    Packet.calls p calls

/-- A provider whose signatures verify as those of its kind. -/
structure Provider.Agrees (provider : Provider) : Prop where
  verify_sign : ∀ payload signature, provider.sign payload = .ok signature →
    verifySignatureForProvider C provider.providerType provider.publicKey payload signature = .ok ()
  software : provider.hardwareBacked = false → provider.providerType = "software"

/-- What the signing payload of a packet with this encoding is the hash of -/
def Packet.payloadInput (data : Bytes) : Bytes :=
  match p.verifierNonce with
  | some nonce => nonceInput (C.sha256 (contentInput data)) nonce
  | none => contentInput data

def Packet.payloadInputs : List Bytes :=
  match C.packetCbor p.cleared with
  | .error _ => []
  | .ok data => [contentInput data, p.payloadInput C data]

def cosignInput (swSig : FixedBytes 64) (provider : Provider) (clock : Nat)
    (prev : Option HardwareCosignature) : Bytes :=
  hwEntangledInput (Bytes.utf8 p.document.finalHash) swSig.val clock clock provider.deviceId
    provider.publicKey (prevSignature prev)

def Packet.cosignInputs : SigningCall → List Bytes
  | .cosignHardware provider prev =>
    match p.packetSignature, provider.clock with
    | some swSig, .ok clock => [cosignInput p swSig provider clock prev]
    | _, _ => []
  | _ => []

/-- The packets of a run, each with what is hashed for its payload and for the co-signature
    that the next call makes -/
def Packet.trace (p : Packet) : List SigningCall → List (Packet × List Bytes)
  | [] => [(p, p.payloadInputs C)]
  | call :: calls =>
    (p, p.payloadInputs C ++ p.cosignInputs call)
      :: match p.call C call with
        | .ok q => Packet.trace q calls
        | .error _ => []

/-- Neither encoding nor hash nor signature takes one packet of a run for another. -/
structure Separated (seeds : List Digest) (run : List (Packet × List Bytes)) : Prop where
  encoding : ∀ x ∈ run, ∀ y ∈ run, ∀ data, C.packetCbor x.1.cleared = .ok data →
    C.packetCbor y.1.cleared = .ok data → x.1.cleared = y.1.cleared
  collisionFree : ∀ a ∈ run.flatMap Prod.snd, ∀ b ∈ run.flatMap Prod.snd,
    C.sha256 a = C.sha256 b → a = b
  signature : ∀ x ∈ run, ∀ y ∈ run, ∀ seed ∈ seeds, ∀ seed' ∈ seeds, ∀ payload payload',
    x.1.signingPayload C = .ok payload → y.1.signingPayload C = .ok payload' →
      C.ed25519.verify (C.ed25519.publicKey seed') payload'.val
        (C.ed25519.sign seed payload.val) = true → payload = payload'

/-- `cosig` with what a co-signature takes from the provider and from `prev`. -/
def copied (provider : Provider) (prev : Option HardwareCosignature) (cosig : HardwareCosignature) :
    HardwareCosignature :=
  { cosig with
    publicKey := provider.publicKey
    deviceId := provider.deviceId
    monotonicCounter := cosig.tpmClockMs
    providerType := if provider.hardwareBacked then "hardware" else "software"
    algorithm := provider.algorithm
    saltCommitment := none
    prevHwSignature := some (prevSignature prev)
    bindingType := some "ed25519" }

/-- The packet carries a co-signature of the provider, after `prev`, over the signature that
    the packet has. -/
structure SelfCosigned (p : Packet) (provider : Provider) (prev : Option HardwareCosignature)
    (cosig : HardwareCosignature) : Prop where
  carried : p.hardwareCosignature = some cosig
  clock : provider.clock = .ok cosig.tpmClockMs
  entangled : ∃ swSig, p.packetSignature = some swSig
    ∧ cosig.entangledHash = (C.sha256 (cosignInput p swSig provider cosig.tpmClockMs prev)).val
  signature : provider.sign cosig.entangledHash = .ok cosig.signature
  place : nextChainIndex prev = .ok cosig.chainIndex
  fields : cosig = copied provider prev cosig

/-- `signature` is that of a packet of the run, as one of the keys made it. -/
def SignedIn (seeds : List Digest) (run : List (Packet × List Bytes)) (y : Packet)
    (signature : FixedBytes 64) : Prop :=
  (∃ inputs, (y, inputs) ∈ run) ∧ ∃ seed ∈ seeds, ∃ payload, y.signingPayload C = .ok payload
    ∧ signature = C.ed25519.sign seed payload.val

/-- The co-signature is over the signature of a packet of the run that does not carry it. -/
def FirstOver (seeds : List Digest) (run : List (Packet × List Bytes)) (document : DocumentInfo)
    (cosig : HardwareCosignature) : Prop :=
  ∃ y swSig, SignedIn C seeds run y swSig ∧ y.hardwareCosignature ≠ some cosig
    ∧ ∃ clock deviceId publicKey prevHwSignature,
      let input := hwEntangledInput (Bytes.utf8 document.finalHash) swSig.val clock clock deviceId
        publicKey prevHwSignature
      input ∈ run.flatMap Prod.snd ∧ cosig.entangledHash = (C.sha256 input).val

/-- Where the signature of a packet and its co-signature come from -/
structure Traced (seeds : List Digest) (run : List (Packet × List Bytes)) (p : Packet) : Prop where
  cosigned : ∀ cosig, p.hardwareCosignature = some cosig → FirstOver C seeds run p.document cosig
  signed : ∀ swSig, p.packetSignature = some swSig → ∃ y, SignedIn C seeds run y swSig
    ∧ ∀ cosig, y.hardwareCosignature = some cosig → FirstOver C seeds run p.document cosig

end Defs

/-- Packets that are co-signed one after the other, from a co-signature on. -/
inductive CosignedFrom (C : Crates) : Option HardwareCosignature → List Packet → Prop where
  | nil (prev : Option HardwareCosignature) : CosignedFrom C prev []
  | cons {prev : Option HardwareCosignature} {provider : Provider} {p q : Packet}
      {qs : List Packet} :
      p.cosignHardware C provider prev = .ok q → CosignedFrom C q.hardwareCosignature qs →
      CosignedFrom C prev (q :: qs)

variable {C : Crates} {p q : Packet} {before after : List SigningCall}
  {seed content payload : Digest} {data : Bytes} {x : Packet × List Bytes} {inputs : List Bytes}
  {swSig : FixedBytes 64} {clock : Nat} {c : HardwareCosignature}

/-! ## Calls -/

theorem calls_append :
    p.calls C (before ++ after) = .ok q ↔
      ∃ p', p.calls C before = .ok p' ∧ p'.calls C after = .ok q := by
  induction before generalizing p with
  | nil => simp [Packet.calls]
  | cons call before ih =>
    simp only [List.cons_append, Packet.calls, res_bind_eq_ok, ih]
    constructor
    · rintro ⟨p₁, hcall, p', hbefore, hafter⟩
      exact ⟨p', ⟨p₁, hcall, hbefore⟩, hafter⟩
    · rintro ⟨p', ⟨p₁, hcall, hbefore⟩, hafter⟩
      exact ⟨p₁, hcall, p', hbefore, hafter⟩

variable {call : SigningCall} {provider : Provider} {prev : Option HardwareCosignature}
  {cosig : HardwareCosignature}

theorem calls_singleton : p.calls C [call] = .ok q ↔ p.call C call = .ok q := by
  simp only [Packet.calls, res_bind_eq_ok, Except.ok.injEq, exists_eq_right]

theorem cosignHardware_eq_ok :
    p.cosignHardware C provider prev = .ok q ↔ ∃ cosig,
      cosignature C p provider prev = .ok cosig
        ∧ { p with hardwareCosignature := some cosig } = q := by
  unfold Packet.cosignHardware
  simp only [res_bind_eq_ok, Except.ok.injEq]

/-- What a call does to the signature of a packet and to its co-signature -/
inductive Called (C : Crates) (call : SigningCall) (p q : Packet) : Prop where
  | signed (seed payload : Digest) : call.seed = some seed → q.signingPayload C = .ok payload →
      q.packetSignature = some (C.ed25519.sign seed payload.val) →
      q.signingPublicKey = some (C.ed25519.publicKey seed) →
      q.hardwareCosignature = p.hardwareCosignature → Called C call p q
  | cleared : call.seed = none → q.packetSignature = none →
      q.hardwareCosignature = p.hardwareCosignature → Called C call p q
  | cosigned (provider : Provider) (prev : Option HardwareCosignature)
      (cosig : HardwareCosignature) : call = .cosignHardware provider prev →
      cosignature C p provider prev = .ok cosig →
      q = { p with hardwareCosignature := some cosig } → Called C call p q

theorem signed_of_sign {p' : Packet} (hseed : call.seed = some seed) (h : p'.sign C seed = .ok q)
    (hcosig : p'.hardwareCosignature = p.hardwareCosignature) :
    Called C call p q := by
  obtain ⟨payload, hpayload, rfl⟩ := sign_eq_ok.mp h
  refine .signed seed payload hseed ?_ rfl rfl hcosig
  rw [← hpayload]
  exact signingPayload_congr rfl rfl

theorem called (h : p.call C call = .ok q) : Called C call p q := by
  cases call with
  | setVerifierNonce nonce =>
    obtain rfl := Except.ok.inj h
    exact .cleared rfl rfl rfl
  | sign seed => exact signed_of_sign rfl h rfl
  | signWithDid seed authorDid =>
    have hsign : ({ p with authorDid } : Packet).sign C seed = .ok q := h
    exact signed_of_sign rfl hsign rfl
  | signWithNonce seed nonce =>
    have hsign : (p.setVerifierNonce nonce).sign C seed = .ok q := h
    exact signed_of_sign rfl hsign rfl
  | cosignHardware provider prev =>
    obtain ⟨cosig, hcosig, rfl⟩ := cosignHardware_eq_ok.mp h
    exact .cosigned provider prev cosig rfl hcosig rfl

theorem document_call (h : p.call C call = .ok q) : q.document = p.document := by
  cases call with
  | setVerifierNonce nonce =>
    obtain rfl := Except.ok.inj h
    rfl
  | cosignHardware provider prev =>
    obtain ⟨cosig, -, rfl⟩ := cosignHardware_eq_ok.mp h
    rfl
  | sign seed | signWithDid seed authorDid | signWithNonce seed nonce =>
    obtain ⟨payload, -, rfl⟩ := sign_eq_ok.mp h
    rfl

/-- Calls that do not sign remove the signature or change the co-signature alone. -/
theorem unsigned_calls {calls : List SigningCall} (hseed : ∀ call ∈ calls, call.seed = none)
    (h : p.calls C calls = .ok q) :
    q.packetSignature = none ∨ ∃ cosig, q = { p with hardwareCosignature := cosig } := by
  induction calls generalizing p with
  | nil =>
    obtain rfl := Except.ok.inj h
    exact .inr ⟨_, rfl⟩
  | cons call calls ih =>
    rw [List.forall_mem_cons] at hseed
    obtain ⟨p₁, hcall, hcalls⟩ := res_bind_eq_ok.mp h
    rcases ih hseed.2 hcalls with hgone | ⟨cosig, rfl⟩
    · exact .inl hgone
    · cases called hcall with
      | signed seed payload hsome => exact absurd (hseed.1.symm.trans hsome) nofun
      | cleared _ hgone _ => exact .inl hgone
      | cosigned _ _ cosig₁ _ _ hp₁ =>
        subst hp₁
        exact .inr ⟨cosig, rfl⟩

/-- After the last signature, and up to a co-signature, there are co-signatures only;
    the last one is that of the packet as it was signed. -/
theorem cosigned_of_calls (hseed : ∀ call ∈ after, call.seed = none)
    (h : p.calls C (after ++ [.cosignHardware provider prev]) = .ok q) :
    ∃ cosig held, p.calls C after = .ok { p with hardwareCosignature := held }
      ∧ cosignature C p provider prev = .ok cosig
      ∧ q = { p with hardwareCosignature := some cosig } := by
  obtain ⟨p', hafter, hlast⟩ := calls_append.mp h
  obtain ⟨cosig, hcosig, rfl⟩ := cosignHardware_eq_ok.mp (calls_singleton.mp hlast)
  rcases unsigned_calls hseed hafter with hgone | ⟨held, rfl⟩
  · -- without a signature there is no co-signature
    unfold cosignature at hcosig
    rw [hgone] at hcosig
    cases hcosig
  · exact ⟨cosig, held, hafter, hcosig, rfl⟩

/-! ## The signature -/

theorem contentHash_eq_ok :
    p.contentHash C = .ok content ↔ ∃ data, C.packetCbor p.cleared = .ok data
      ∧ C.sha256 (contentInput data) = content := by
  rw [contentHash_eq]
  unfold hashContentCbor
  simp only [res_bind_eq_ok, mapErr_eq_ok, Except.ok.injEq]

theorem signingPayload_eq_ok : p.signingPayload C = .ok payload ↔
    ∃ data, C.packetCbor p.cleared = .ok data ∧ C.sha256 (p.payloadInput C data) = payload := by
  unfold Packet.signingPayload Packet.payloadInput
  simp only [res_bind_eq_ok, contentHash_eq_ok]
  constructor
  · rintro ⟨_, ⟨data, hdata, rfl⟩, h⟩
    refine ⟨data, hdata, ?_⟩
    cases hnonce : p.verifierNonce <;> rw [hnonce] at h <;> exact Except.ok.inj h
  · rintro ⟨data, hdata, rfl⟩
    refine ⟨_, ⟨data, hdata, rfl⟩, ?_⟩
    cases p.verifierNonce <;> rfl

theorem contentInput_ne_nonceInput {nonce : Digest} :
    contentInput data ≠ nonceInput content nonce := by
  intro h
  unfold contentInput nonceInput at h
  rw [List.append_assoc] at h
  -- the two separators differ in their sixth byte
  have hbyte := congrArg (fun bytes => bytes[5]?) h
  rw [List.getElem?_append_left (by decide), List.getElem?_append_left (by decide)] at hbyte
  exact absurd hbyte (by decide)

/-- Payloads of one hash are of contents of one hash, with or without a nonce. -/
theorem content_eq {data' : Bytes} (h : p.payloadInput C data = q.payloadInput C data') :
    C.sha256 (contentInput data) = C.sha256 (contentInput data') := by
  unfold Packet.payloadInput at h
  cases hp : p.verifierNonce with
  | none =>
    cases hq : q.verifierNonce with
    | none =>
      rw [hp, hq] at h
      exact congrArg C.sha256 h
    | some nonce' =>
      rw [hp, hq] at h
      exact absurd h contentInput_ne_nonceInput
  | some nonce =>
    cases hq : q.verifierNonce with
    | none =>
      rw [hp, hq] at h
      exact absurd h.symm contentInput_ne_nonceInput
    | some nonce' =>
      rw [hp, hq] at h
      simp only [nonceInput, List.append_assoc] at h
      have hlength : (C.sha256 (contentInput data)).val.length
          = (C.sha256 (contentInput data')).val.length := by
        rw [length_val, length_val]
      exact ext_val (List.append_inj_left (List.append_cancel_left h) hlength)

/-! ## Runs -/

variable {start : Packet} {calls : List SigningCall} {seeds : List Digest}

theorem head_trace (p : Packet) (calls : List SigningCall) :
    ∃ inputs, (p, inputs) ∈ p.trace C calls := by
  cases calls with
  | nil => exact ⟨_, List.mem_singleton_self _⟩
  | cons call calls => exact ⟨_, List.mem_cons_self⟩

theorem trace_append (h : p.calls C before = .ok q) (hx : x ∈ q.trace C after) :
    x ∈ p.trace C (before ++ after) := by
  induction before generalizing p with
  | nil =>
    obtain rfl := Except.ok.inj h
    exact hx
  | cons call before ih =>
    obtain ⟨p₁, hcall, hcalls⟩ := res_bind_eq_ok.mp h
    rw [List.cons_append, Packet.trace, hcall]
    exact List.mem_cons_of_mem _ (ih hcalls)

theorem last_trace (h : p.calls C calls = .ok q) : ∃ inputs, (q, inputs) ∈ p.trace C calls := by
  have hmem : (q, q.payloadInputs C) ∈ p.trace C (calls ++ []) :=
    trace_append h (List.mem_singleton_self _)
  rw [List.append_nil] at hmem
  exact ⟨_, hmem⟩

theorem mem_hashed (hx : x ∈ start.trace C calls) {a : Bytes} (ha : a ∈ x.1.payloadInputs C) :
    a ∈ (start.trace C calls).flatMap Prod.snd := by
  refine List.mem_flatMap.mpr ⟨x, hx, ?_⟩
  induction calls generalizing start with
  | nil =>
    obtain rfl := List.mem_singleton.mp hx
    exact ha
  | cons call calls ih =>
    rw [Packet.trace] at hx
    rcases List.mem_cons.mp hx with rfl | hx
    · exact List.mem_append_left _ ha
    · cases hcall : start.call C call with
      | error e =>
        rw [hcall] at hx
        cases hx
      | ok q =>
        rw [hcall] at hx
        exact ih hx

theorem cleared_eq {y : Packet × List Bytes} (hsep : Separated C seeds (start.trace C calls))
    (hx : x ∈ start.trace C calls) (hy : y ∈ start.trace C calls)
    (hp : x.1.signingPayload C = .ok payload) (hq : y.1.signingPayload C = .ok payload) :
    x.1.cleared = y.1.cleared := by
  obtain ⟨data, hdata, rfl⟩ := signingPayload_eq_ok.mp hp
  obtain ⟨data', hdata', hsame⟩ := signingPayload_eq_ok.mp hq
  have hpayload := hsep.collisionFree (y.1.payloadInput C data')
    (mem_hashed hy (by simp [Packet.payloadInputs, hdata'])) (x.1.payloadInput C data)
    (mem_hashed hx (by simp [Packet.payloadInputs, hdata])) hsame
  have hinput := hsep.collisionFree (contentInput data')
    (mem_hashed hy (by simp [Packet.payloadInputs, hdata'])) (contentInput data)
    (mem_hashed hx (by simp [Packet.payloadInputs, hdata])) (content_eq hpayload)
  obtain rfl : data' = data := List.append_cancel_left hinput
  exact hsep.encoding x hx y hy data' hdata hdata'

theorem verifySignature_eq_ok {signature : FixedBytes 64} {publicKey : Digest}
    (hsignature : p.packetSignature = some signature) (hkey : p.signingPublicKey = some publicKey) :
    p.verifySignature C p.verifierNonce = .ok () ↔ C.ed25519.validKey publicKey = true
      ∧ ∃ payload, p.signingPayload C = .ok payload
        ∧ C.ed25519.verify publicKey payload.val signature = true := by
  unfold Packet.verifySignature
  cases hnonce : p.verifierNonce with
  | none =>
    simp only [hsignature, hkey, okOr_some, res_ok_bind, reject_bind_eq_ok, Bool.not_eq_false]
    simp only [res_bind_eq_ok, reject_eq_ok, Bool.not_eq_false]
  | some nonce =>
    simp only [hsignature, hkey, okOr_some, res_ok_bind, reject_bind_eq_ok, Bool.not_eq_false,
      ne_eq, not_true_eq_false, not_false_eq_true, true_and]
    simp only [res_bind_eq_ok, reject_eq_ok, Bool.not_eq_false]

theorem verifySignature_cosigned_iff (hC : C.ed25519.Correct) {inputs' : List Bytes}
    (hpayload : p.signingPayload C = .ok payload)
    (hsignature : p.packetSignature = some (C.ed25519.sign seed payload.val))
    (hkey : p.signingPublicKey = some (C.ed25519.publicKey seed))
    (hsep : Separated C seeds (start.trace C calls)) (hseed : seed ∈ seeds)
    (hp : (p, inputs) ∈ start.trace C calls)
    (hq : ({ p with hardwareCosignature := some cosig }, inputs') ∈ start.trace C calls) :
    ({ p with hardwareCosignature := some cosig } : Packet).verifySignature C p.verifierNonce
        = .ok () ↔ p.hardwareCosignature = some cosig := by
  constructor
  · intro hverify
    obtain ⟨-, payload', hpayload', hverified⟩ :=
      (verifySignature_eq_ok (C := C) (p := { p with hardwareCosignature := some cosig })
        hsignature hkey).mp hverify
    obtain rfl := hsep.signature _ hp _ hq seed hseed seed hseed payload payload' hpayload
      hpayload' hverified
    have hcleared := cleared_eq hsep hp hq hpayload hpayload'
    exact congrArg Packet.hardwareCosignature hcleared
  · intro hcosig
    have hsame : ({ p with hardwareCosignature := some cosig } : Packet) = p := by
      rw [← hcosig]
    rw [hsame, verifySignature_eq_ok hsignature hkey]
    exact ⟨hC.validKey_publicKey seed, payload, hpayload, hC.verify_sign seed payload.val⟩

/-! ## The co-signature -/

theorem cosignature_eq_ok :
    cosignature C p provider prev = .ok cosig ↔ ∃ swSig clock chainIndex signature,
      p.packetSignature = some swSig ∧ provider.clock = .ok clock
        ∧ nextChainIndex prev = .ok chainIndex
        ∧ provider.sign (computeHwEntangledHash C (Bytes.utf8 p.document.finalHash) swSig.val clock
            clock provider.deviceId provider.publicKey (prevSignature prev)).val = .ok signature
        ∧ { entangledHash := (computeHwEntangledHash C (Bytes.utf8 p.document.finalHash) swSig.val
              clock clock provider.deviceId provider.publicKey (prevSignature prev)).val
            signature
            publicKey := provider.publicKey
            deviceId := provider.deviceId
            tpmClockMs := clock
            monotonicCounter := clock
            providerType := if provider.hardwareBacked then "hardware" else "software"
            algorithm := provider.algorithm
            saltCommitment := none
            prevHwSignature := some (prevSignature prev)
            chainIndex
            bindingType := some "ed25519" } = cosig := by
  unfold cosignature
  simp only [res_bind_eq_ok, okOr_eq_ok, mapErr_eq_ok, Except.ok.injEq]
  constructor
  · rintro ⟨swSig, hsw, clock, hclock, chainIndex, hindex, signature, hsign, hcosig⟩
    exact ⟨swSig, clock, chainIndex, signature, hsw, hclock, hindex, hsign, hcosig⟩
  · rintro ⟨swSig, clock, chainIndex, signature, hsw, hclock, hindex, hsign, hcosig⟩
    exact ⟨swSig, hsw, clock, hclock, chainIndex, hindex, signature, hsign, hcosig⟩

/-- Each co-signature is one place after the one it continues. -/
theorem chainIndex_cosignature {prev : HardwareCosignature}
    (h : cosignature C p provider (some prev) = .ok cosig) :
    cosig.chainIndex = prev.chainIndex + 1 := by
  obtain ⟨_, _, chainIndex, _, -, -, hindex, -, rfl⟩ := cosignature_eq_ok.mp h
  exact (unwrap_checkedAdd_eq_ok.mp hindex).2

theorem checkChain_cosignature (h : cosignature C p provider prev = .ok cosig) :
    checkChain cosig prev = .ok () := by
  cases prev with
  | none =>
    obtain ⟨_, _, chainIndex, _, -, -, hindex, -, rfl⟩ := cosignature_eq_ok.mp h
    obtain rfl := Except.ok.inj hindex
    rfl
  | some c =>
    obtain ⟨_, _, chainIndex, _, -, -, hindex, -, rfl⟩ := cosignature_eq_ok.mp h
    obtain rfl : chainIndex = c.chainIndex + 1 := (unwrap_checkedAdd_eq_ok.mp hindex).2
    show reject ((some (prevSignature (some c))).getD [] ≠ c.signature) _ = .ok ()
    rw [reject_eq_ok]
    exact fun hne => hne rfl

/-- A co-signature verifies unless its provider is hardware-backed: the kind that it
    names then is none. -/
theorem verifyHardwareCosignature_cosigned_iff (hagrees : provider.Agrees C)
    (h : cosignature C p provider prev = .ok cosig) :
    ({ p with hardwareCosignature := some cosig } : Packet).verifyHardwareCosignature C prev
        = .ok () ↔ provider.hardwareBacked = false := by
  have hchain := checkChain_cosignature h
  obtain ⟨swSig, clock, chainIndex, signature, hsw, -, -, hsign, rfl⟩ := cosignature_eq_ok.mp h
  unfold Packet.verifyHardwareCosignature
  simp only [okOr_some, res_ok_bind, hsw, hchain, reject_bind_eq_ok, ne_eq, not_true_eq_false,
    not_false_eq_true, true_and, mapFault_eq_ok]
  cases hbacked : provider.hardwareBacked with
  | false =>
    have hverified := hagrees.verify_sign _ _ hsign
    rw [hagrees.software hbacked] at hverified
    simpa using hverified
  | true =>
    simp only [if_true, Bool.true_eq_false, iff_false]
    simp [verifySignatureForProvider, fail]

theorem selfCosigned_iff : SelfCosigned C p provider prev cosig ↔
    p.hardwareCosignature = some cosig ∧ cosignature C p provider prev = .ok cosig := by
  constructor
  · rintro ⟨hcarried, hclock, ⟨swSig, hsw, hentangled⟩, hsign, hplace, hfields⟩
    refine ⟨hcarried, cosignature_eq_ok.mpr ⟨swSig, cosig.tpmClockMs, cosig.chainIndex,
      cosig.signature, hsw, hclock, hplace, ?_, ?_⟩⟩
    · rwa [hentangled] at hsign
    · rw [hfields]
      exact congrArg (fun hash => copied provider prev { cosig with entangledHash := hash })
        hentangled.symm
  · rintro ⟨hcarried, hcosig⟩
    obtain ⟨swSig, clock, chainIndex, signature, hsw, hclock, hplace, hsign, rfl⟩ :=
      cosignature_eq_ok.mp hcosig
    exact ⟨hcarried, hclock, ⟨swSig, hsw, rfl⟩, hsign, hplace, rfl⟩

/-! ## Where co-signatures come from -/

variable {run : List (Packet × List Bytes)}

/-- A co-signature that is made of a traced packet is over a signature made without it: that
    of the packet when it was signed, or an earlier one when it carried the same then. -/
theorem firstOver_cosignature (h : Traced C seeds run p)
    (hin : ∀ a ∈ p.cosignInputs (.cosignHardware provider prev), a ∈ run.flatMap Prod.snd)
    (hcosig : cosignature C p provider prev = .ok cosig) :
    FirstOver C seeds run p.document cosig := by
  obtain ⟨swSig, clock, chainIndex, signature, hsw, hclock, -, -, hfields⟩ :=
    cosignature_eq_ok.mp hcosig
  obtain ⟨y, hy, hfirst⟩ := h.signed swSig hsw
  by_cases hsame : y.hardwareCosignature = some cosig
  · exact hfirst cosig hsame
  · refine ⟨y, swSig, hy, hsame, clock, provider.deviceId, provider.publicKey,
      prevSignature prev, hin _ ?_, ?_⟩
    · simp only [Packet.cosignInputs, hsw, hclock]
      exact List.mem_singleton_self _
    · rw [← hfields]
      rfl

theorem traced_call (h : Traced C seeds run p) (hcall : p.call C call = .ok q)
    (hin : ∀ a ∈ p.cosignInputs call, a ∈ run.flatMap Prod.snd) (hq : ∃ inputs, (q, inputs) ∈ run)
    (hseed : ∀ seed, call.seed = some seed → seed ∈ seeds) :
    Traced C seeds run q := by
  have hdoc := document_call hcall
  cases called hcall with
  | signed seed payload hsome hpayload hsignature hkey hsame =>
    have hfirst : ∀ cosig, q.hardwareCosignature = some cosig →
        FirstOver C seeds run q.document cosig := by
      intro cosig hcosig
      rw [hdoc]
      exact h.cosigned cosig (hsame ▸ hcosig)
    refine ⟨hfirst, fun swSig hsw => ⟨q, ⟨hq, seed, hseed seed hsome, payload, hpayload, ?_⟩,
      hfirst⟩⟩
    exact Option.some.inj (hsw.symm.trans hsignature)
  | cleared _ hgone hsame =>
    refine ⟨fun cosig hcosig => ?_, fun swSig hsw => absurd (hsw.symm.trans hgone) nofun⟩
    rw [hdoc]
    exact h.cosigned cosig (hsame ▸ hcosig)
  | cosigned provider prev cosig hcosign hcosig hqp =>
    subst hcosign
    subst hqp
    refine ⟨fun cosig' hsome => ?_, h.signed⟩
    obtain rfl := Option.some.inj hsome
    exact firstOver_cosignature (p := p) h hin hcosig

theorem traced_calls (h : Traced C seeds run p) (hcalls : p.calls C before = .ok q)
    (hrun : ∀ x ∈ p.trace C (before ++ after), x ∈ run)
    (hseeds : ∀ seed ∈ before.filterMap SigningCall.seed, seed ∈ seeds) :
    Traced C seeds run q := by
  induction before generalizing p with
  | nil =>
    obtain rfl := Except.ok.inj hcalls
    exact h
  | cons call before ih =>
    obtain ⟨p₁, hcall, hcalls⟩ := res_bind_eq_ok.mp hcalls
    rw [List.cons_append, Packet.trace, hcall, List.forall_mem_cons] at hrun
    obtain ⟨inputs, hhead⟩ := head_trace (C := C) p₁ (before ++ after)
    refine ih (traced_call h hcall (fun a ha => ?_) ⟨inputs, hrun.2 _ hhead⟩ fun seed hseed => ?_)
      hcalls hrun.2 fun seed hseed => hseeds seed ?_
    · exact List.mem_flatMap.mpr ⟨_, hrun.1, List.mem_append_right _ ha⟩
    · exact hseeds seed (List.mem_filterMap.mpr ⟨call, List.mem_cons_self, hseed⟩)
    · obtain ⟨call', hmem, hsome⟩ := List.mem_filterMap.mp hseed
      exact List.mem_filterMap.mpr ⟨call', List.mem_cons_of_mem _ hmem, hsome⟩

theorem cosignInput_mem (prev : Option HardwareCosignature) (h : start.calls C before = .ok p)
    (hsw : p.packetSignature = some swSig) (hclock : provider.clock = .ok clock) :
    cosignInput p swSig provider clock prev
      ∈ (start.trace C (before ++ [.cosignHardware provider prev])).flatMap Prod.snd := by
  refine List.mem_flatMap.mpr ⟨_, trace_append h List.mem_cons_self, List.mem_append_right _ ?_⟩
  simp only [Packet.cosignInputs, hsw, hclock]
  exact List.mem_singleton_self _

/-- What is hashed for co-signatures tells their signatures apart. -/
theorem swBinding_eq {docHash publicKey publicKey' prevSig prevSig' : Bytes}
    {swSig' : FixedBytes 64} {clock' : Nat} {deviceId deviceId' : String}
    (h : hwEntangledInput docHash swSig.val clock clock deviceId publicKey prevSig
      = hwEntangledInput docHash swSig'.val clock' clock' deviceId' publicKey' prevSig') :
    swSig = swSig' := by
  unfold hwEntangledInput at h
  rw [length_val, length_val] at h
  simp only [List.append_assoc] at h
  have hbinding := List.append_cancel_left (List.append_cancel_left (List.append_cancel_left h))
  have hlength : swSig.val.length = swSig'.val.length := by
    rw [length_val, length_val]
  exact ext_val (List.append_inj_left hbinding hlength)

/-- In a run from a packet without signature and co-signature, no signed packet carries a
    co-signature over the signature that it has. -/
theorem not_carried (hC : C.ed25519.Correct) (hsep : Separated C seeds (start.trace C calls))
    (htraced : Traced C seeds (start.trace C calls) p) (hp : (p, inputs) ∈ start.trace C calls)
    (hseed : seed ∈ seeds) (hpayload : p.signingPayload C = .ok payload)
    (hin : cosignInput p (C.ed25519.sign seed payload.val) provider clock prev
      ∈ (start.trace C calls).flatMap Prod.snd)
    (hover : cosig.entangledHash
      = (C.sha256 (cosignInput p (C.ed25519.sign seed payload.val) provider clock prev)).val) :
    p.hardwareCosignature ≠ some cosig := by
  intro hcarried
  obtain ⟨y, swSig, ⟨⟨inputs', hy⟩, seed', hseed', payload', hpayload', rfl⟩, hne, clock', deviceId,
    publicKey, prevSig, hin', hover'⟩ := htraced.cosigned cosig hcarried
  have hinput := hsep.collisionFree _ hin' _ hin (ext_val (hover'.symm.trans hover))
  have hsignature := swBinding_eq hinput
  -- the signature of `y` is that of `p`, so that both were signed with the same content
  have hverified : C.ed25519.verify (C.ed25519.publicKey seed) payload.val
      (C.ed25519.sign seed' payload'.val) = true := by
    rw [hsignature]
    exact hC.verify_sign seed payload.val
  obtain rfl := hsep.signature _ hy _ hp seed' hseed' seed hseed payload' payload hpayload'
    hpayload hverified
  have hcleared : y.cleared = p.cleared := cleared_eq hsep hy hp hpayload' hpayload
  exact hne ((congrArg Packet.hardwareCosignature hcleared).trans hcarried)

/-! ## Accepted predecessors -/

theorem checkChain_moved (prev' : HardwareCosignature) (place : Nat) :
    checkChain cosig (some { prev' with chainIndex := place }) = checkChain cosig (some prev') := by
  unfold checkChain
  cases cosig.chainIndex <;> rfl

/-- The place of the co-signature before it is not compared. -/
theorem verifyHardwareCosignature_moved (prev' : HardwareCosignature) (place : Nat) :
    p.verifyHardwareCosignature C (some { prev' with chainIndex := place })
      = p.verifyHardwareCosignature C (some prev') := by
  unfold Packet.verifyHardwareCosignature
  simp only [checkChain_moved]
  rfl

/-- A verifier takes any co-signature with the right signature for the one before, and the
    next place is just after those at the right place. -/
theorem accepted_place_iff {prev' : HardwareCosignature}
    (h : p.cosignHardware C provider (some c) = .ok q)
    (hverify : q.verifyHardwareCosignature C (some prev') = .ok ()) :
    ∃ cosig, q.hardwareCosignature = some cosig ∧ prev'.signature = c.signature
      ∧ (cosig.chainIndex = prev'.chainIndex + 1 ↔ prev'.chainIndex = c.chainIndex) := by
  obtain ⟨cosig, hcosig, rfl⟩ := cosignHardware_eq_ok.mp h
  have hplace := chainIndex_cosignature hcosig
  refine ⟨cosig, rfl, ?_, by omega⟩
  obtain ⟨swSig, clock, chainIndex, signature, hsw, -, -, -, rfl⟩ := cosignature_eq_ok.mp hcosig
  unfold Packet.verifyHardwareCosignature at hverify
  simp only [okOr_some, res_ok_bind, hsw] at hverify
  obtain ⟨⟨⟩, hchain, -⟩ := res_bind_eq_ok.mp hverify
  obtain rfl : chainIndex = c.chainIndex + 1 := hplace
  unfold checkChain at hchain
  exact (not_not.mp (reject_eq_ok.mp hchain)).symm

/-! ## Signed, then co-signed -/

/-- After the last signature and a co-signature both verify when the packet had that very
    co-signature as it was signed, from a provider without hardware, which it never has when
    the calls start from a packet without either.  And of packets co-signed one after the
    other, one verifies after any co-signature with the signature of its predecessor's; the
    next place is just after those that have the predecessor's place too. -/
theorem cosigned_verifies_iff (hC : C.ed25519.Correct) :
    (∀ (start p q : Packet) (before after : List SigningCall) (last : SigningCall) (seed : Digest)
        (provider : Provider) (prev : Option HardwareCosignature),
      last.seed = some seed → (∀ call ∈ after, call.seed = none) →
      start.calls C (before ++ [last]) = .ok p →
      start.calls C (before ++ [last] ++ (after ++ [.cosignHardware provider prev])) = .ok q →
      provider.Agrees C →
      Separated C (seed :: before.filterMap SigningCall.seed)
        (start.trace C (before ++ [last] ++ (after ++ [.cosignHardware provider prev]))) →
        (q.verifySignature C q.verifierNonce = .ok ()
            ∧ q.verifyHardwareCosignature C prev = .ok ()
          ↔ provider.hardwareBacked = false ∧ ∃ cosig, SelfCosigned C p provider prev cosig)
        ∧ (start.packetSignature = none → start.hardwareCosignature = none →
          q.verifySignature C q.verifierNonce ≠ .ok ()))
      ∧ ∀ (prev : Option HardwareCosignature) (qs : List Packet), CosignedFrom C prev qs →
          qs.IsChain fun q q' => ∀ c, q.hardwareCosignature = some c →
            ∀ prev', q'.verifyHardwareCosignature C (some prev') = .ok () →
              (∀ place, q'.verifyHardwareCosignature C
                (some { prev' with chainIndex := place }) = .ok ())
              ∧ ∃ cosig, q'.hardwareCosignature = some cosig ∧ prev'.signature = c.signature
                ∧ (cosig.chainIndex = prev'.chainIndex + 1 ↔ prev'.chainIndex = c.chainIndex) := by
  constructor
  · intro start p q before after last seed provider prev hlast hafter hp hq hagrees hsep
    obtain ⟨p', hp', hq'⟩ := calls_append.mp hq
    obtain rfl := Except.ok.inj (hp.symm.trans hp')
    obtain ⟨_, _, hlastCall⟩ := calls_append.mp hp
    -- the last signing made the signature that the packet has
    obtain ⟨payload, hpayload, hsignature, hkey⟩ :
        ∃ payload, p.signingPayload C = .ok payload
          ∧ p.packetSignature = some (C.ed25519.sign seed payload.val)
          ∧ p.signingPublicKey = some (C.ed25519.publicKey seed) := by
      cases called (calls_singleton.mp hlastCall) with
      | signed seed' payload hsome hpayload hsignature hkey _ =>
        obtain rfl := Option.some.inj (hlast.symm.trans hsome)
        exact ⟨payload, hpayload, hsignature, hkey⟩
      | cleared hnone _ _ => exact absurd (hlast.symm.trans hnone) nofun
      | cosigned provider prev cosig hcall _ _ =>
        subst hcall
        cases hlast
    obtain ⟨cosig, held, hheld, hcosig, rfl⟩ := cosigned_of_calls hafter hq'
    obtain ⟨inputs, hpmem⟩ := head_trace (C := C) p (after ++ [.cosignHardware provider prev])
    have hpmem := trace_append hp hpmem
    obtain ⟨inputs', hqmem⟩ := last_trace hq
    have hseed : seed ∈ seed :: before.filterMap SigningCall.seed := List.mem_cons_self
    have hsame := verifySignature_cosigned_iff hC hpayload hsignature hkey hsep hseed hpmem hqmem
    constructor
    · rw [hsame, verifyHardwareCosignature_cosigned_iff hagrees hcosig]
      constructor
      · rintro ⟨hcarried, hbacked⟩
        exact ⟨hbacked, cosig, selfCosigned_iff.mpr ⟨hcarried, hcosig⟩⟩
      · rintro ⟨hbacked, cosig', hself⟩
        obtain ⟨hcarried, hcosig'⟩ := selfCosigned_iff.mp hself
        obtain rfl := Except.ok.inj (hcosig.symm.trans hcosig')
        exact ⟨hcarried, hbacked⟩
    · intro hunsigned huncosigned hverify
      have hstart : Traced C (seed :: before.filterMap SigningCall.seed)
          (start.trace C (before ++ [last] ++ (after ++ [.cosignHardware provider prev]))) start :=
        ⟨fun cosig hsome => absurd (huncosigned.symm.trans hsome) nofun,
          fun swSig hsome => absurd (hunsigned.symm.trans hsome) nofun⟩
      -- what a packet of the run carries was made in the run
      have htraced := traced_calls hstart hp (fun _ hx => hx) fun seed' hseed' => by
        rw [List.filterMap_append, List.mem_append] at hseed'
        rcases hseed' with hseed' | hseed'
        · exact List.mem_cons_of_mem _ hseed'
        · simp only [List.filterMap_cons, hlast, List.filterMap_nil, List.mem_singleton] at hseed'
          exact hseed' ▸ List.mem_cons_self
      obtain ⟨swSig, clock, chainIndex, signature, hsw, hclock, -, -, hfields⟩ :=
        cosignature_eq_ok.mp hcosig
      obtain rfl := Option.some.inj (hsw.symm.trans hsignature)
      have hbefore : start.calls C (before ++ [last] ++ after)
          = .ok { p with hardwareCosignature := held } := calls_append.mpr ⟨p, hp, hheld⟩
      have hin := cosignInput_mem prev hbefore hsw hclock
      rw [List.append_assoc (before ++ [last])] at hin
      exact not_carried hC hsep htraced hpmem hseed hpayload hin
        (congrArg HardwareCosignature.entangledHash hfields).symm (hsame.mp hverify)
  · -- one link of the chain; the rest by induction on how it was made
    intro prev qs hqs
    induction hqs with
    | nil prev => exact .nil
    | @cons prev provider p q qs hq hqs ih =>
      cases hqs with
      | nil => exact .singleton q
      | @cons _ provider' p' q' qs hq' hqs =>
        refine List.isChain_cons_cons.mpr ⟨?_, ih⟩
        intro c hsome prev' hverify
        rw [hsome] at hq'
        refine ⟨fun place => ?_, accepted_place_iff hq' hverify⟩
        rw [verifyHardwareCosignature_moved, hverify]

/-! ## A packet that is signed and co-signed, twice -/

/-- Crates whose encoding tells the co-signature, and whose signatures are sums of first bytes. -/
def cosignCrates : Crates :=
  { sumCrates with
    ed25519 := .remaking fun seed message =>
      filled 64 (seed.val.headD 0 + message.headD 0)
    packetCbor := fun packet =>
      .ok ((packet.hardwareCosignature.map fun c => c.entangledHash.take 1).getD []) }

theorem cosignCrates_correct : cosignCrates.ed25519.Correct := Ed25519.remaking_correct _

def softwareProvider : Provider :=
  { hardwareBacked := false
    providerType := "software"
    deviceId := "software-1"
    publicKey := (filled 32 3).val
    algorithm := "Ed25519"
    sign := fun payload => .ok (cosignCrates.ed25519.sign (filled 32 3) payload).val
    clock := .ok 7 }

theorem softwareProvider_agrees : softwareProvider.Agrees cosignCrates := by
  refine ⟨fun payload signature h => ?_, fun _ => rfl⟩
  obtain rfl := Except.ok.inj h
  have hkey : tryFrom 32 softwareProvider.publicKey = some (filled 32 3) :=
    by decide
  have hsignature :=
    tryFrom_val (cosignCrates.ed25519.sign (filled 32 3) payload)
  have hverified : cosignCrates.ed25519.verifyStrict (filled 32 3) payload
      (cosignCrates.ed25519.sign (filled 32 3) payload) = true := decide_eq_true rfl
  have hvalid : cosignCrates.ed25519.validKey (filled 32 3) = true := rfl
  have hkind : softwareProvider.providerType = "software" := rfl
  rw [verifySignatureForProvider, if_pos hkind]
  simp only [tryVerifyEd25519, hkey, hsignature, hvalid, hverified]
  rfl

def signingSeed : Digest := filled 32 5

def signedTwice : List SigningCall :=
  [.sign signingSeed] ++ [.cosignHardware softwareProvider none] ++ [.sign signingSeed]

def lastCosign : SigningCall := .cosignHardware softwareProvider none

def twiceRun : List (Packet × List Bytes) :=
  (Packet.default 0).trace cosignCrates (signedTwice ++ [lastCosign])

theorem separated_signedTwice : Separated cosignCrates [signingSeed, signingSeed] twiceRun where
  encoding := by
    intro x hx y hy data hdata hdata'
    have hsame : ∀ x ∈ twiceRun, ∀ y ∈ twiceRun, cosignCrates.packetCbor x.1.cleared
        = cosignCrates.packetCbor y.1.cleared → x.1.cleared = y.1.cleared := by decide +kernel
    exact hsame x hx y hy (hdata.trans hdata'.symm)
  collisionFree := by decide +kernel
  signature := by
    intro x hx y hy seed hseed seed' hseed' payload payload' hpayload hpayload' hverify
    have hsame : ∀ x ∈ twiceRun, ∀ y ∈ twiceRun, ∀ seed ∈ [signingSeed, signingSeed],
        ∀ seed' ∈ [signingSeed, signingSeed],
        ∀ payload ∈ (x.1.signingPayload cosignCrates).toOption,
        ∀ payload' ∈ (y.1.signingPayload cosignCrates).toOption,
          cosignCrates.ed25519.verify (cosignCrates.ed25519.publicKey seed') payload'.val
            (cosignCrates.ed25519.sign seed payload.val) = true → payload = payload' := by
      decide +kernel
    exact hsame x hx y hy seed hseed seed' hseed' payload (hpayload ▸ rfl) payload'
      (hpayload' ▸ rfl) hverify

/-- A software provider co-signs a packet that is signed and co-signed. -/
theorem cosign_cosigned (hsigned : q.packetSignature ≠ none) (hplace : c.chainIndex = 0) : ∃ cosig,
    q.cosignHardware cosignCrates softwareProvider (some c)
        = .ok { q with hardwareCosignature := some cosig }
      ∧ cosig.chainIndex = 1
      ∧ ({ q with hardwareCosignature := some cosig } : Packet).verifyHardwareCosignature
        cosignCrates (some c) = .ok () := by
  obtain ⟨swSig, hsw⟩ := Option.ne_none_iff_exists'.mp hsigned
  have hnext : nextChainIndex (some c) = .ok 1 :=
    unwrap_checkedAdd_eq_ok.mpr ⟨by rw [hplace]; decide, by rw [hplace]⟩
  have hcosig : cosignature cosignCrates q softwareProvider (some c) = .ok _ :=
    cosignature_eq_ok.mpr ⟨swSig, 7, 1, _, hsw, rfl, hnext, rfl, rfl⟩
  exact ⟨_, cosignHardware_eq_ok.mpr ⟨_, hcosig, rfl⟩, rfl,
    (verifyHardwareCosignature_cosigned_iff softwareProvider_agrees hcosig).mpr rfl⟩

/-- Signed and co-signed, and both once more: the packet's signature does not verify.  A further
    co-signature verifies, wherever the one before it is said to stand. -/
theorem cosigned_verifies_iff_twice : ∃ q c q',
    (Packet.default 0).calls cosignCrates (signedTwice ++ [lastCosign]) = .ok q
      ∧ q.verifySignature cosignCrates q.verifierNonce ≠ .ok () ∧ q.hardwareCosignature = some c
      ∧ q.cosignHardware cosignCrates softwareProvider (some c) = .ok q'
      ∧ ∀ place, q'.verifyHardwareCosignature cosignCrates
        (some { c with chainIndex := place }) = .ok () := by
  obtain ⟨q, hq, hshown⟩ := exists_ok_of_toOption
    (show ((Packet.default 0).calls cosignCrates (signedTwice ++ [lastCosign])).toOption.map
      (fun q => (q.packetSignature.isSome, q.hardwareCosignature.map (·.chainIndex)))
        = some (true, some 0) by decide +kernel)
  obtain ⟨hsigned, hplace⟩ := Prod.mk.inj hshown
  obtain ⟨c, hc, hzero⟩ := Option.map_eq_some_iff.mp hplace
  obtain ⟨p, hp, hlast⟩ := calls_append.mp hq
  obtain ⟨cosig, hq', -, hverify⟩ := cosign_cosigned (Option.ne_none_iff_isSome.mpr hsigned) hzero
  obtain ⟨hruns, hchains⟩ := cosigned_verifies_iff cosignCrates_correct
  refine ⟨q, c, _, hq, ?_, hc, hq', ?_⟩
  · exact (hruns (Packet.default 0) p q
      [.sign signingSeed, .cosignHardware softwareProvider none] [] (.sign signingSeed)
      signingSeed softwareProvider none rfl nofun hp hq softwareProvider_agrees
      separated_signedTwice).2 rfl rfl
  · have hchain := hchains none [q, { q with hardwareCosignature := some cosig }]
      (.cons (calls_singleton.mp hlast) (hc ▸ .cons hq' (.nil _)))
    exact ((List.isChain_cons_cons.mp hchain).1 c hc c hverify).1

/-- Signed and co-signed, every call returning, the packet's signature does not verify; and
    its next co-signature, in the second place, verifies after one in the sixth. -/
theorem not_verifies_cosigned : cosignCrates.ed25519.Correct ∧ softwareProvider.Agrees cosignCrates
    ∧ ∃ q c q' cosig, (Packet.default 0).calls cosignCrates [.sign signingSeed, lastCosign] = .ok q
      ∧ q.verifySignature cosignCrates none ≠ .ok () ∧ q.hardwareCosignature = some c
      ∧ q.cosignHardware cosignCrates softwareProvider (some c) = .ok q'
      ∧ q'.hardwareCosignature = some cosig
      ∧ q'.verifyHardwareCosignature cosignCrates (some { c with chainIndex := 5 }) = .ok ()
      ∧ cosig.chainIndex ≠ 5 + 1 := by
  obtain ⟨q, hq, hshown⟩ := exists_ok_of_toOption
    (show ((Packet.default 0).calls cosignCrates [.sign signingSeed, lastCosign]).toOption.map
      (fun q => (q.packetSignature.isSome, q.hardwareCosignature.map (·.chainIndex),
        decide (q.verifySignature cosignCrates none = .ok ())))
        = some (true, some 0, false) by decide +kernel)
  obtain ⟨hsigned, hshown⟩ := Prod.mk.inj hshown
  obtain ⟨hplace, hfails⟩ := Prod.mk.inj hshown
  obtain ⟨c, hc, hzero⟩ := Option.map_eq_some_iff.mp hplace
  obtain ⟨cosig, hq', hone, hverify⟩ :=
    cosign_cosigned (Option.ne_none_iff_isSome.mpr hsigned) hzero
  refine ⟨cosignCrates_correct, softwareProvider_agrees, q, c, _, cosig, hq,
    of_decide_eq_false hfails, hc, hq', rfl, ?_, by omega⟩
  rw [verifyHardwareCosignature_moved, hverify]

end WritersProof.Evidence
