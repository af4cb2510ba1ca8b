/-
  WritersProof.War.TrustBundle

  The list of CA keys, from a manifest that one pinned key signs
  (crates/cpoe/src/war/trust_bundle.rs).

  A manifest holds its keys twice: as entries, which are returned, and as part of the
  text that is signed.  Nothing compares the two, so whoever has one signed manifest
  can put any entries in front of its text.
-/
import WritersProof.Lib.Ed25519
import WritersProof.Lib.Hex
import WritersProof.Lib.Vec

namespace WritersProof.War

open Rust Bytes

structure CaBundleEntry where
  kid : String
  pubkeyHex : String
  notBefore : String
  notAfter : String

structure CaBundleManifest where
  version : Nat
  publishedAt : String
  keys : List CaBundleEntry
  signature : String
  payload : String

inductive TrustBundleError where
  | parseError (message : String)
  | versionMismatch (version : Nat)
  | invalidSignature
  | invalidEntries

/-- What the crates it uses do. -/
structure BundlePlatform where
  /-- `serde_json::from_str::<CaBundleManifest>` -/
  parseManifest : String → Except String CaBundleManifest
  /-- The `keys` of a payload, the JSON text of `{version, published_at, keys}` -/
  payloadKeys : String → Option (List CaBundleEntry)
  ed25519 : Ed25519
  /-- `DateTime::parse_from_rfc3339` succeeds. -/
  isRfc3339 : String → Bool

def manifestSigningPubkeyHex : String :=
  "73a3439b6fc939b12241f5f797960001918dcf19c017937cedb534e6b90b1e3f"

def manifestSigningPubkey : Option (FixedBytes 32) :=
  (Hex.decode manifestSigningPubkeyHex).bind (FixedBytes.tryFrom 32)

section Defs

variable (P : BundlePlatform)

def verifyManifestSignature (manifest : CaBundleManifest) : Bool :=
  if (utf8 manifestSigningPubkeyHex).all fun b => b = 48 then false
  else
    match manifestSigningPubkey with
    | none => false
    | some pubkey =>
      if P.ed25519.validKey pubkey = false then false
      else
        match (Hex.decode manifest.signature).bind (FixedBytes.tryFrom 64) with
        | none => false
        | some signature =>
          P.ed25519.verifyStrict pubkey (utf8 manifest.payload) signature

def validateBundleEntries (entries : List CaBundleEntry) : Bool :=
  !entries.isEmpty && entries.all fun entry =>
    !entry.kid.isEmpty && ((Hex.decode entry.pubkeyHex).map List.length).getD 0 = 32
      && P.isRfc3339 entry.notBefore && P.isRfc3339 entry.notAfter

def parseAndValidate (json : String) : Res TrustBundleError (List CaBundleEntry) := do
  let manifest ← mapErr (P.parseManifest json) .parseError
  reject (manifest.version = 0) (.versionMismatch manifest.version)
  reject (verifyManifestSignature P manifest = false) .invalidSignature
  reject (validateBundleEntries P manifest.keys = false) .invalidEntries
  .ok manifest.keys

def pinnedBundle : List CaBundleEntry :=
  [{ kid := "a77d85cc10cc677d"
     pubkeyHex := "c7ff2220542bd8c130355580c14666e786111b97beae142003ceeb4a51084575"
     notBefore := "2026-06-18T00:00:00Z"
     notAfter := "2036-06-17T23:59:59Z" }]

/-- What one `load_bundle` finds: the cache file, when it reads it as fresh and when it
    reads it again, and the answer of the server. -/
structure BundleSources where
  freshCache : Option String
  remote : Option String
  staleCache : Option String

def loadFrom (source : Option String) : Option (List CaBundleEntry) :=
  source.bind fun json => (parseAndValidate P json).toOption

def loadBundle (sources : BundleSources) : List CaBundleEntry :=
  match loadFrom P sources.freshCache with
  | some entries => entries
  | none =>
    match loadFrom P sources.remote with
    | some entries => entries
    | none =>
      match loadFrom P sources.staleCache with
      | some entries => entries
      | none => pinnedBundle

/-- The returned keys are those of the payload whose signature was checked. -/
def Authentic (json : String) : Prop :=
  ∀ keys, parseAndValidate P json = .ok keys →
    ∃ manifest, P.parseManifest json = .ok manifest ∧ P.payloadKeys manifest.payload = some keys

/-- A manifest that is not rejected has the same keys in its entries and its payload. -/
def CopiesAgree (json : String) : Prop :=
  ∀ manifest, P.parseManifest json = .ok manifest →
    manifest.version = 0 ∨ verifyManifestSignature P manifest = false
      ∨ validateBundleEntries P manifest.keys = false
      ∨ P.payloadKeys manifest.payload = some manifest.keys

def BundleSources.texts (sources : BundleSources) : List String :=
  sources.freshCache.toList ++ sources.remote.toList ++ sources.staleCache.toList

end Defs

variable {P : BundlePlatform} {keys entries : List CaBundleEntry}

theorem parseAndValidate_eq_ok {json : String} :
    parseAndValidate P json = .ok keys ↔
      ∃ manifest, P.parseManifest json = .ok manifest ∧ manifest.version ≠ 0
        ∧ verifyManifestSignature P manifest = true
        ∧ validateBundleEntries P manifest.keys = true ∧ manifest.keys = keys := by
  unfold parseAndValidate
  rw [res_bind_eq_ok]
  simp only [mapErr_eq_ok, reject_bind_eq_ok, Bool.not_eq_false, Except.ok.injEq, ne_eq]

theorem loadFrom_of_ok {json : String} (h : parseAndValidate P json = .ok keys) :
    loadFrom P (some json) = some keys := by
  rw [loadFrom, Option.bind_some, h]
  rfl

/-- A fresh cache is used before anything else. -/
theorem loadBundle_of_fresh {sources : BundleSources}
    (h : loadFrom P sources.freshCache = some entries) : loadBundle P sources = entries := by
  rw [loadBundle, h]

/-- Only a payload under a signature of the pinned key is accepted. -/
theorem exists_signature {manifest : CaBundleManifest}
    (h : verifyManifestSignature P manifest = true) :
    ∃ pubkey ∈ manifestSigningPubkey, ∃ signature,
      P.ed25519.verifyStrict pubkey (utf8 manifest.payload) signature = true := by
  unfold verifyManifestSignature at h
  split at h
  · cases h
  · split at h
    · cases h
    next pubkey hpubkey =>
      split at h
      · cases h
      · split at h
        · cases h
        next signature _ => exact ⟨pubkey, hpubkey, signature, h⟩

theorem authentic_iff {json : String} : Authentic P json ↔ CopiesAgree P json := by
  constructor
  · intro hauthentic manifest hmanifest
    by_cases hversion : manifest.version = 0
    · exact .inl hversion
    cases hsignature : verifyManifestSignature P manifest with
    | false => exact .inr (.inl rfl)
    | true =>
      cases hentries : validateBundleEntries P manifest.keys with
      | false => exact .inr (.inr (.inl rfl))
      | true =>
        obtain ⟨manifest', hmanifest', hkeys⟩ := hauthentic manifest.keys
          (parseAndValidate_eq_ok.mpr ⟨manifest, hmanifest, hversion, hsignature, hentries, rfl⟩)
        obtain rfl := Except.ok.inj (hmanifest.symm.trans hmanifest')
        exact .inr (.inr (.inr hkeys))
  · intro hagree keys hok
    obtain ⟨manifest, hmanifest, hversion, hsignature, hentries, rfl⟩ :=
      parseAndValidate_eq_ok.mp hok
    refine ⟨manifest, hmanifest, ?_⟩
    rcases hagree manifest hmanifest with hzero | hbad | hbad | hkeys
    · exact absurd hzero hversion
    · rw [hsignature] at hbad
      cases hbad
    · rw [hentries] at hbad
      cases hbad
    · exact hkeys

/-- Entries of a text whose copies agree are entries of a signed payload. -/
theorem signed_of_loadFrom {Signed : Bytes → Prop}
    (hunforgeable : ∀ pubkey ∈ manifestSigningPubkey, ∀ payload signature,
      P.ed25519.verifyStrict pubkey payload signature = true → Signed payload)
    {source : Option String} (hagree : ∀ json ∈ source, CopiesAgree P json)
    (h : loadFrom P source = some entries) :
    ∃ payload, Signed (utf8 payload) ∧ P.payloadKeys payload = some entries := by
  obtain ⟨json, hjson, h⟩ := Option.bind_eq_some_iff.mp h
  have hok : parseAndValidate P json = .ok entries := by
    cases hparse : parseAndValidate P json with
    | error e =>
      rw [hparse] at h
      cases h
    | ok keys =>
      rw [hparse] at h
      rw [Option.some.inj h]
  obtain ⟨manifest, hmanifest, hkeys⟩ := authentic_iff.mpr (hagree json hjson) entries hok
  obtain ⟨manifest', hmanifest', -, hsignature, -⟩ := parseAndValidate_eq_ok.mp hok
  obtain rfl := Except.ok.inj (hmanifest.symm.trans hmanifest')
  obtain ⟨pubkey, hpubkey, signature, hverify⟩ := exists_signature hsignature
  exact ⟨manifest.payload, hunforgeable pubkey hpubkey _ signature hverify, hkeys⟩

/-- `parse_and_validate` returns the keys that were signed exactly when the two copies of
    a manifest agree; and where they do in all it may read, `load_bundle` returns pinned
    or signed entries only. -/
theorem authentic_bundle (P : BundlePlatform) (Signed : Bytes → Prop)
    (hunforgeable : ∀ pubkey ∈ manifestSigningPubkey, ∀ payload signature,
      P.ed25519.verifyStrict pubkey payload signature = true → Signed payload) :
    (∀ json, Authentic P json ↔ CopiesAgree P json)
      ∧ ∀ sources : BundleSources, (∀ json ∈ sources.texts, CopiesAgree P json) →
        ∀ entry ∈ loadBundle P sources, entry ∈ pinnedBundle
          ∨ ∃ payload keys, Signed (utf8 payload) ∧ P.payloadKeys payload = some keys
            ∧ entry ∈ keys := by
  refine ⟨fun _ => authentic_iff, fun sources hagree entry hentry => ?_⟩
  have hsource : ∀ source : Option String, (∀ json ∈ source, json ∈ sources.texts) →
      ∀ entries, loadFrom P source = some entries → entry ∈ entries →
        ∃ payload keys, Signed (utf8 payload) ∧ P.payloadKeys payload = some keys
          ∧ entry ∈ keys := by
    intro source hsub entries hload hmem
    obtain ⟨payload, hsigned, hkeys⟩ :=
      signed_of_loadFrom hunforgeable (fun json hjson => hagree json (hsub json hjson)) hload
    exact ⟨payload, entries, hsigned, hkeys, hmem⟩
  unfold loadBundle at hentry
  split at hentry
  next entries hload =>
    refine .inr (hsource _ (fun json hjson => ?_) entries hload hentry)
    exact List.mem_append_left _ (List.mem_append_left _ (Option.mem_toList.mpr hjson))
  next =>
    split at hentry
    next entries hload =>
      refine .inr (hsource _ (fun json hjson => ?_) entries hload hentry)
      exact List.mem_append_left _ (List.mem_append_right _ (Option.mem_toList.mpr hjson))
    next =>
      split at hentry
      next entries hload =>
        refine .inr (hsource _ (fun json hjson => ?_) entries hload hentry)
        exact List.mem_append_right _ (Option.mem_toList.mpr hjson)
      next => exact .inl hentry

/-! ## One signed payload in two manifests -/

def CaBundleEntry.json (entry : CaBundleEntry) : String :=
  "\x7b\"kid\":\"" ++ entry.kid ++ "\",\"pubkey_hex\":\"" ++ entry.pubkeyHex
    ++ "\",\"not_before\":\"" ++ entry.notBefore ++ "\",\"not_after\":\"" ++ entry.notAfter
    ++ "\"\x7d"

/-- Version, time and keys as JSON, up to the closing brace. -/
def listJson (keys : List CaBundleEntry) : String :=
  "\x7b\"version\":1,\"published_at\":\"2026-06-18T00:00:00Z\",\"keys\":["
    ++ String.join (keys.map CaBundleEntry.json) ++ "]"

def escaped (text : String) : String :=
  String.ofList (text.toList.flatMap fun c =>
    if c = Char.ofNat 34 then [Char.ofNat 92, c] else [c])

def signedPayload : String := listJson pinnedBundle ++ "\x7d"

def signedSignature : FixedBytes 64 := FixedBytes.filled 64 7

def manifestWith (keys : List CaBundleEntry) : CaBundleManifest :=
  { version := 1, publishedAt := "2026-06-18T00:00:00Z", keys
    signature := Hex.encode signedSignature.val, payload := signedPayload }

def manifestJson (keys : List CaBundleEntry) : String :=
  listJson keys ++ ",\"signature\":\"" ++ Hex.encode signedSignature.val ++ "\",\"payload\":\""
    ++ escaped signedPayload ++ "\"\x7d"

/-- A key that nobody has signed. -/
def foreignEntry : CaBundleEntry :=
  { kid := "0000000000000000"
    pubkeyHex := "0101010101010101010101010101010101010101010101010101010101010101"
    notBefore := "2026-06-18T00:00:00Z", notAfter := "2036-06-17T23:59:59Z" }

/-- A platform that reads two texts, and on which that payload is all that was signed. -/
def twoManifests : BundlePlatform :=
  { parseManifest := fun json =>
      if json = manifestJson pinnedBundle then .ok (manifestWith pinnedBundle)
      else if json = manifestJson [foreignEntry] then .ok (manifestWith [foreignEntry])
      else .error "expected value at line 1 column 1"
    payloadKeys := fun payload => if payload = signedPayload then some pinnedBundle else none
    ed25519 :=
      { publicKey := id
        sign := fun _ _ => signedSignature
        validKey := fun _ => true
        verify := fun _ message signature =>
          message = utf8 signedPayload && signature.val = signedSignature.val
        verifyStrict := fun _ message signature =>
          message = utf8 signedPayload && signature.val = signedSignature.val }
    isRfc3339 := fun text => text = "2026-06-18T00:00:00Z" || text = "2036-06-17T23:59:59Z" }

theorem verifyStrict_twoManifests (pubkey : FixedBytes 32) (message : Bytes)
    (signature : FixedBytes 64) :
    twoManifests.ed25519.verifyStrict pubkey message signature
      = (decide (message = utf8 signedPayload)
        && decide (signature.val = signedSignature.val)) := rfl

theorem verifyManifestSignature_manifestWith (keys : List CaBundleEntry) :
    verifyManifestSignature twoManifests (manifestWith keys) = true := by
  obtain ⟨pubkey, hpubkey⟩ : ∃ pubkey, manifestSigningPubkey = some pubkey :=
    Option.isSome_iff_exists.mp (by decide +kernel)
  have hzeros : (utf8 manifestSigningPubkeyHex).all (fun b => b = 48) = false := by
    decide +kernel
  have hsignature : (Hex.decode (manifestWith keys).signature).bind (FixedBytes.tryFrom 64)
      = some signedSignature := by
    show (Hex.decode (Hex.encode signedSignature.val)).bind (FixedBytes.tryFrom 64) = _
    rw [Hex.decode_encode, Option.bind_some, FixedBytes.tryFrom_val]
  unfold verifyManifestSignature
  rw [hzeros, if_neg Bool.false_ne_true, hpubkey]
  dsimp only
  rw [hsignature, show twoManifests.ed25519.validKey pubkey = true from rfl, if_neg (by decide)]
  dsimp only
  rw [verifyStrict_twoManifests, show (manifestWith keys).payload = signedPayload from rfl,
    decide_eq_true (Eq.refl (utf8 signedPayload)),
    decide_eq_true (Eq.refl signedSignature.val), Bool.and_self]

theorem parse_manifestWith {json : String}
    (hparse : twoManifests.parseManifest json = .ok (manifestWith keys))
    (hentries : validateBundleEntries twoManifests keys = true) :
    parseAndValidate twoManifests json = .ok keys := by
  refine parseAndValidate_eq_ok.mpr ⟨manifestWith keys, hparse, Nat.one_ne_zero, ?_, ?_, rfl⟩
  · exact verifyManifestSignature_manifestWith keys
  · exact hentries

theorem manifestJson_inj {a b : CaBundleEntry} (h : manifestJson [a] = manifestJson [b]) :
    a.json = b.json := by
  unfold manifestJson listJson at h
  simpa only [String.append_left_inj, String.append_right_inj, List.map_cons, List.map_nil,
    String.join, List.foldl, String.empty_append] using h

theorem parseManifest_pinned :
    twoManifests.parseManifest (manifestJson pinnedBundle) = .ok (manifestWith pinnedBundle) := by
  unfold twoManifests
  dsimp only
  rw [if_pos rfl]

theorem parseManifest_foreign :
    twoManifests.parseManifest (manifestJson [foreignEntry])
      = .ok (manifestWith [foreignEntry]) := by
  unfold twoManifests
  dsimp only
  have hne : manifestJson [foreignEntry] ≠ manifestJson pinnedBundle := fun h =>
    absurd (manifestJson_inj h) (by decide +kernel)
  rw [if_neg hne, if_pos rfl]

theorem parse_pinned : parseAndValidate twoManifests (manifestJson pinnedBundle)
    = .ok pinnedBundle :=
  parse_manifestWith parseManifest_pinned (by decide +kernel)

theorem parse_foreign : parseAndValidate twoManifests (manifestJson [foreignEntry])
    = .ok [foreignEntry] :=
  parse_manifestWith parseManifest_foreign (by decide +kernel)

theorem payloadKeys_signed : twoManifests.payloadKeys signedPayload = some pinnedBundle := by
  unfold twoManifests
  dsimp only
  rw [if_pos rfl]

/-- A genuine manifest in the cache. -/
theorem authentic_bundle_pinned :
    (∀ json, Authentic twoManifests json ↔ CopiesAgree twoManifests json)
      ∧ ∀ entry ∈ loadBundle twoManifests
          { freshCache := some (manifestJson pinnedBundle), remote := none, staleCache := none },
        entry ∈ pinnedBundle ∨ ∃ payload keys, utf8 payload = utf8 signedPayload
          ∧ twoManifests.payloadKeys payload = some keys ∧ entry ∈ keys := by
  obtain ⟨hiff, hload⟩ :=
    authentic_bundle twoManifests (fun bytes => bytes = utf8 signedPayload)
    (fun pubkey _ payload signature h => of_decide_eq_true (Bool.and_eq_true_iff.mp h).1)
  refine ⟨hiff, hload _ fun json hjson => ?_⟩
  obtain rfl : json = manifestJson pinnedBundle := by simpa [BundleSources.texts] using hjson
  refine (hiff _).mp fun keys hok => ⟨_, parseManifest_pinned, ?_⟩
  rw [parse_pinned] at hok
  rw [← Except.ok.inj hok]
  exact payloadKeys_signed

/-- The signed payload under entries that it does not list: they are returned, and also
    loaded from a cache file. -/
theorem not_authentic_foreign : ¬Authentic twoManifests (manifestJson [foreignEntry])
    ∧ loadBundle twoManifests { freshCache := some (manifestJson [foreignEntry]), remote := none
                                staleCache := none } = [foreignEntry]
    ∧ foreignEntry ∉ pinnedBundle ∧ ∀ payload keys, twoManifests.payloadKeys payload = some keys →
        foreignEntry ∉ keys := by
  have hne : foreignEntry ∉ pinnedBundle := fun h =>
    absurd (congrArg CaBundleEntry.kid (List.mem_singleton.mp h)) (by decide +kernel)
  have hpayload : ∀ payload keys, twoManifests.payloadKeys payload = some keys →
      foreignEntry ∉ keys := by
    intro payload keys hkeys
    unfold twoManifests at hkeys
    dsimp only at hkeys
    split at hkeys
    · rwa [← Option.some.inj hkeys]
    · cases hkeys
  refine ⟨fun hauthentic => ?_, ?_, hne, hpayload⟩
  · obtain ⟨manifest, -, hkeys⟩ := hauthentic _ parse_foreign
    exact hpayload _ _ hkeys List.mem_cons_self
  · exact loadBundle_of_fresh (loadFrom_of_ok parse_foreign)

end WritersProof.War
