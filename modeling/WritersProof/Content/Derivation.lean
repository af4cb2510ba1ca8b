/-
  WritersProof.Content.Derivation

  Derivation proofs: which segments of a derived text were witnessed
  (crates/cpoe/src/content/mmr.rs).

  `DerivationProof::verify` checks every inclusion proof on its own, against the root that the
  inclusion proof carries.  It reads neither `mmr_root` nor the ordinals and figures next to it.
-/
import WritersProof.Content.Mmr
import WritersProof.Lib.Binary64

namespace WritersProof.Content

set_option linter.dupNamespace false

open Rust Mmr Call

structure DerivationMatch (H : Type) where
  derivedSegmentIndex : Nat
  mmrLeafOrdinal : Nat
  hash : SegmentHash
  proof : InclusionProof H
  deriving DecidableEq

structure DerivationProof (H : Type) where
  sessionId : String
  granularity : ContentGranularity
  mmrRoot : H
  mmrLeafCount : Nat
  matched : List (DerivationMatch H)
  derivedTotal : Nat
  /-- An `f64`; none where it is not a finite number -/
  coverage : Option Rat
  deriving DecidableEq

/-- The share of the segments that were found -/
def coverageOf (matchedCount derivedTotal : Nat) : Rat :=
  if derivedTotal = 0 then 0
  else Binary64.div (Binary64.ofNat matchedCount) (Binary64.ofNat derivedTotal)

namespace ContentMmr

variable {S H : Type} [Store S H] [DecidableEq H]

/-- For each derived segment the first leaf that has its hash, with an inclusion proof -/
def matchSegments (hs : NodeHasher H) (leafCount : Nat) :
    List ContentSegment → Call (ContentMmr S H) Error (List (DerivationMatch H))
  | [] => pure []
  | derived :: rest => do
    match ← findLeaf hs derived.hash (List.range leafCount) with
    | none => matchSegments hs leafCount rest
    | some (leafOrd, leafIndex) =>
      let proof ← onMmr (Mmr.generateProof hs leafIndex)
      let matched ← matchSegments hs leafCount rest
      pure (⟨derived.index, leafOrd, derived.hash, proof⟩ :: matched)

/-- Generate a derivation proof: given the text of a derived document,
    segment it and find which segments exist in this MMR. -/
def generateDerivationProof (C : Crates) (hs : NodeHasher H) (derivedText : List Char) :
    Call (ContentMmr S H) Error (DerivationProof H) := do
  let granularity ← asks (·.granularity)
  let sessionId ← asks (·.sessionId)
  let derivedSegments := C.segmentAndHash derivedText granularity
  let derivedTotal := derivedSegments.length
  let leafCount ← readMmr Mmr.leafCount
  let matched ← matchSegments hs leafCount derivedSegments
  let mmrRoot ← readMmr (·.getRoot hs)
  pure {
    sessionId, granularity, mmrRoot, mmrLeafCount := leafCount, matched, derivedTotal
    coverage := some (coverageOf matched.length derivedTotal) }

end ContentMmr

namespace DerivationProof

variable {H : Type} [DecidableEq H]

/-- `self.matches.iter().all(|m| m.proof.verify(&m.hash).is_ok())` -/
def verify (hs : NodeHasher H) (proof : DerivationProof H) : Res Error Bool :=
  proof.matched.allM fun entry => isOk (entry.proof.verify hs entry.hash.val)

theorem verify_eq_true {hs : NodeHasher H} {proof : DerivationProof H} :
    proof.verify hs = .ok true ↔
      ∀ entry ∈ proof.matched, entry.proof.verify hs entry.hash.val = .ok () := by
  rw [verify, allM_eq_true]
  apply forall₂_congr
  intro entry _
  rw [isOk_eq_true]
  exact ⟨fun ⟨_, h⟩ => h, fun h => ⟨(), h⟩⟩

end DerivationProof

/-! ## What was witnessed -/

section Witnessed

variable {H : Type}

/-- Leaf `k` of the tree is the hash of a segment of one of the texts. -/
structure WitnessedAt (C : Crates) (hs : NodeHasher H)
    (texts : List (List Char × ContentGranularity)) (m : ContentMmr (MemoryStore H) H) (k : Nat)
    (hash : SegmentHash) : Prop where
  segment : ∃ entry ∈ texts, ∃ segment ∈ C.segmentAndHash entry.1 entry.2, segment.hash = hash
  leaf : ∃ index, m.mmr.getLeafIndex k = .ok index
    ∧ Mmr.get index m.mmr = (.ok (Node.newLeaf hs index hash.val), m.mmr)

variable {C : Crates} {hs : NodeHasher H} {texts : List (List Char × ContentGranularity)}
  {m : ContentMmr (MemoryStore H) H}

def FromTexts (C : Crates) (texts : List (List Char × ContentGranularity)) (data : List Bytes) :
    Prop :=
  ∀ d ∈ data, ∃ entry ∈ texts, ∃ segment ∈ C.segmentAndHash entry.1 entry.2, segment.hash.val = d

theorem FromTexts.append {data new : List Bytes} {text : List Char}
    {granularity : ContentGranularity} (h : FromTexts C texts data)
    (hnew : ∀ d ∈ new, ∃ segment ∈ C.segmentAndHash text granularity, d = segment.hash.val) :
    FromTexts C (texts ++ [(text, granularity)]) (data ++ new) := by
  intro d hd
  rcases List.mem_append.mp hd with hd | hd
  · obtain ⟨entry, hentry, h⟩ := h d hd
    exact ⟨entry, List.mem_append_left _ hentry, h⟩
  · obtain ⟨segment, hsegment, rfl⟩ := hnew d hd
    exact ⟨_, List.mem_append_right _ (List.mem_singleton_self _), segment, hsegment, rfl⟩

theorem Reached.represents [DecidableEq H] (h : Reached C hs texts m) :
    ∃ data, Represents hs data m.mmr ∧ FromTexts C texts data := by
  induction h with
  | inMemory h =>
    cases h
    exact ⟨[], Mmr.represents_nil, fun _ h => nomatch h⟩
  | @«open» texts m m' sessionId granularity _ hopen ih =>
    obtain ⟨data, hrep, hfrom⟩ := ih
    rw [ContentMmr.open, guard_fail_eq_ok, hrep.new_store] at hopen
    cases hopen.2
    exact ⟨data, hrep, hfrom⟩
  | @witnessText texts m m' text r _ hrun habort ih =>
    obtain ⟨data, hrep, hfrom⟩ := ih
    rw [ContentMmr.witnessText, asks_bind] at hrun
    rcases ContentMmr.witnessSegments_spec (C.segmentAndHash text m.granularity) hrep with
      ⟨witnessed, mmr, hok, hrep'⟩ | ⟨_, hok⟩
    · cases hok.symm.trans hrun
      refine ⟨_, hrep', hfrom.append fun d hd => ?_⟩
      obtain ⟨segment, hsegment, rfl⟩ := List.mem_map.mp hd
      exact ⟨segment, hsegment, rfl⟩
    · cases hok.symm.trans hrun
      exact absurd rfl habort
  | @witnessTextIfChanged texts m m' last text r _ hrun habort ih =>
    obtain ⟨data, hrep, hfrom⟩ := ih
    -- without a new leaf the texts only grow
    have hsame : FromTexts C (texts ++ [(text, m.granularity)]) (data ++ []) :=
      hfrom.append fun _ h => nomatch h
    rw [List.append_nil] at hsame
    rw [ContentMmr.witnessTextIfChanged] at hrun
    dsimp only at hrun
    split at hrun
    · cases hrun
      exact ⟨data, hrep, hsame⟩
    · rw [asks_bind] at hrun
      rcases ContentMmr.addSegments_spec (C.segmentAndHash text m.granularity) 0 hrep with
        ⟨added, mmr, new, hok, hrep', hnew⟩ | ⟨_, hok⟩
      · rw [bind_of_ok hok] at hrun
        have hm' : m'.mmr = mmr := by
          split at hrun
          · rw [bind_of_ok ContentMmr.sync_eq] at hrun
            cases hrun
            rfl
          · cases hrun
            rfl
        exact ⟨_, hm' ▸ hrep', hfrom.append hnew⟩
      · rw [bind_of_error hok] at hrun
        cases hrun
        exact absurd rfl habort

theorem FromTexts.witnessedAt {data : List Bytes} (hfrom : FromTexts C texts data)
    (hrep : Represents hs data m.mmr) {k : Nat} {hash : SegmentHash}
    (hd : data[k]? = some hash.val) : WitnessedAt C hs texts m k hash := by
  obtain ⟨hk, -⟩ := List.getElem?_eq_some_iff.mp hd
  obtain ⟨entry, hentry, segment, hsegment, heq⟩ := hfrom _ (List.mem_of_getElem? hd)
  exact ⟨⟨entry, hentry, segment, hsegment, FixedBytes.ext_val heq⟩, _, hrep.getLeafIndex_eq hk,
    hrep.get_leaf hd⟩

end Witnessed

/-! ## Generated proofs -/

section Generated

variable {H : Type} [DecidableEq H] {C : Crates} {hs : NodeHasher H}
  {texts : List (List Char × ContentGranularity)} {m : ContentMmr (MemoryStore H) H}

/-- The inclusion proof of an entry is that of its leaf, under the root of the tree. -/
structure Tied (hs : NodeHasher H) (m : ContentMmr (MemoryStore H) H)
    (entry : DerivationMatch H) : Prop where
  root : m.root hs = .ok entry.proof.root
  index : m.mmr.getLeafIndex entry.mmrLeafOrdinal = .ok entry.proof.leafIndex
  verified : entry.proof.verify hs entry.hash.val = .ok ()

omit [DecidableEq H] in
theorem root_of_getRoot {root : H} (h : m.mmr.getRoot hs = .ok root) : m.root hs = .ok root := by
  rw [ContentMmr.root, h]
  rfl

omit [DecidableEq H] in
theorem getRoot_of_root {root : H} (h : m.root hs = .ok root) : m.mmr.getRoot hs = .ok root :=
  mapFault_eq_ok.mp h

/-- The matches come in the order of the segments, each tied to its leaf. -/
theorem matchSegments_spec (ideal : hs.Ideal) {data : List Bytes}
    (hm : Represents hs data m.mmr) (segments : List ContentSegment) :
    ∃ matched, ContentMmr.matchSegments hs data.length segments m = (.ok matched, m)
      ∧ (matched.map (·.derivedSegmentIndex)).Sublist (segments.map (·.index))
      ∧ ∀ entry ∈ matched, Tied hs m entry := by
  induction segments with
  | nil => exact ⟨[], rfl, .slnil, fun _ h => nomatch h⟩
  | cons derived rest ih =>
    obtain ⟨matched, hrest, hsub, htied⟩ := ih
    rw [ContentMmr.matchSegments]
    rcases ContentMmr.findLeaf_spec derived.hash hm (List.range data.length)
      (fun ord hord => List.mem_range.mp hord) with ⟨ord, d, hfind, hd, hhash⟩ | hfind
    · rw [bind_of_ok hfind]
      obtain ⟨-, rfl⟩ := ideal.leaf_inj hhash
      obtain ⟨hlt, -⟩ := List.getElem?_eq_some_iff.mp hd
      obtain ⟨root, hroot⟩ := hm.exists_root (by omega)
      obtain ⟨path, i, peak, hproof, hpeak, -, hfold⟩ := hm.generateProof_eq hd hroot
      have hproof' := ContentMmr.onMmr_of_ok (m := m) hproof
      dsimp only
      rw [bind_of_ok hproof', bind_of_ok hrest]
      refine ⟨_, rfl, hsub.cons_cons _, ?_⟩
      intro entry hentry
      rcases List.mem_cons.mp hentry with rfl | hentry
      · exact ⟨root_of_getRoot hroot, hm.getLeafIndex_eq hlt, hm.verify_generated hroot hpeak hfold⟩
      · exact htied entry hentry
    · rw [bind_of_ok hfind]
      exact ⟨matched, hrest, hsub.cons _, htied⟩

/-- What is right about a proof that the tree has generated itself. -/
structure Generated (C : Crates) (hs : NodeHasher H)
    (texts : List (List Char × ContentGranularity)) (m : ContentMmr (MemoryStore H) H)
    (proof : DerivationProof H) : Prop where
  root : m.root hs = .ok proof.mmrRoot
  verified : proof.verify hs = .ok true
  tied : ∀ entry ∈ proof.matched, entry.proof.root = proof.mmrRoot
    ∧ m.mmr.getLeafIndex entry.mmrLeafOrdinal = .ok entry.proof.leafIndex
  witnessed : ∀ entry ∈ proof.matched, WitnessedAt C hs texts m entry.mmrLeafOrdinal entry.hash
  distinct : (proof.matched.map (·.derivedSegmentIndex)).Nodup
  coverage : proof.coverage = some (coverageOf proof.matched.length proof.derivedTotal)

/-- A proof against the root of the tree is about a leaf that was witnessed. -/
theorem witnessedAt_of_verify (ideal : hs.Ideal) (hreach : Reached C hs texts m)
    {proof : InclusionProof H} {hash : SegmentHash} (hroot : m.root hs = .ok proof.root)
    (hverify : proof.verify hs hash.val = .ok ()) :
    ∃ k, m.mmr.getLeafIndex k = .ok proof.leafIndex ∧ WitnessedAt C hs texts m k hash := by
  obtain ⟨data, hrep, hfrom⟩ := hreach.represents
  obtain ⟨k, hindex, hd⟩ := hrep.leaf_of_verify ideal (getRoot_of_root hroot) hverify
  obtain ⟨hk, -⟩ := List.getElem?_eq_some_iff.mp hd
  refine ⟨k, ?_, hfrom.witnessedAt hrep hd⟩
  rw [hindex]
  exact hrep.getLeafIndex_eq hk

theorem ordinal_unique (hreach : Reached C hs texts m) {j k index : Nat}
    (hj : m.mmr.getLeafIndex j = .ok index) (hk : m.mmr.getLeafIndex k = .ok index) : j = k := by
  obtain ⟨data, hrep, -⟩ := hreach.represents
  have hsize : ∀ {i}, m.mmr.getLeafIndex i = .ok index → index = MountainRange.size i := by
    intro i hi
    have hlt : i < data.length := by
      rw [Mmr.getLeafIndex, guard_fail_eq_ok, hrep.leafCount_eq, res_ok_bind,
        guard_fail_eq_ok] at hi
      exact Nat.lt_of_not_le hi.2.1
    exact Except.ok.inj (hi.symm.trans (hrep.getLeafIndex_eq hlt))
  exact MountainRange.size_strictMono.injective ((hsize hj).symm.trans (hsize hk))

theorem generated_of_ok (ideal : hs.Ideal) (hreach : Reached C hs texts m) {text : List Char}
    {proof : DerivationProof H} {m' : ContentMmr (MemoryStore H) H}
    (h : m.generateDerivationProof C hs text = (.ok proof, m')) :
    Generated C hs texts m proof := by
  obtain ⟨data, hrep, hfrom⟩ := hreach.represents
  have hcount : ContentMmr.readMmr Mmr.leafCount m = (.ok data.length, m) :=
    ContentMmr.readMmr_of_ok hrep.leafCount_eq
  obtain ⟨matched, hmatched, hsub, htied⟩ :=
    matchSegments_spec ideal hrep (C.segmentAndHash text m.granularity)
  rw [ContentMmr.generateDerivationProof, asks_bind, asks_bind, bind_of_ok hcount,
    bind_of_ok hmatched] at h
  obtain ⟨root, m₁, hread, h⟩ := bind_eq_ok.mp h
  cases h
  have hroot : m.root hs = .ok root := congrArg Prod.fst hread
  have hsame : ∀ entry ∈ matched, entry.proof.root = root := fun entry hentry =>
    Except.ok.inj ((htied entry hentry).root.symm.trans hroot)
  constructor
  · exact hroot
  · exact DerivationProof.verify_eq_true.mpr fun entry hentry => (htied entry hentry).verified
  · exact fun entry hentry => ⟨hsame entry hentry, (htied entry hentry).index⟩
  · intro entry hentry
    obtain ⟨k, hk, hwitnessed⟩ := witnessedAt_of_verify ideal hreach (htied entry hentry).root
      (htied entry hentry).verified
    rwa [ordinal_unique hreach hk (htied entry hentry).index] at hwitnessed
  · have hsorted := List.pairwise_map.mpr (C.segmentAndHash_sorted text m.granularity)
    exact (hsorted.sublist hsub).imp fun h => Nat.ne_of_lt h
  · rfl

/-- Every entry is about the leaf it names, and the figures are those of the entries. -/
structure DerivationProof.Sound (C : Crates) (hs : NodeHasher H)
    (texts : List (List Char × ContentGranularity)) (m : ContentMmr (MemoryStore H) H)
    (proof : DerivationProof H) : Prop where
  witnessed : ∀ entry ∈ proof.matched, WitnessedAt C hs texts m entry.mmrLeafOrdinal entry.hash
  distinct : (proof.matched.map (·.derivedSegmentIndex)).Nodup
  bounded : ∀ entry ∈ proof.matched, entry.derivedSegmentIndex < proof.derivedTotal
  coverage : proof.coverage = some (coverageOf proof.matched.length proof.derivedTotal)

/-- The entries' inclusion proofs are those of the tree and of the ordinals next to them. -/
def DerivationProof.TiedTo (m : ContentMmr (MemoryStore H) H) (proof : DerivationProof H) : Prop :=
  ∀ entry ∈ proof.matched, entry.proof.root = proof.mmrRoot
    ∧ m.mmr.getLeafIndex entry.mmrLeafOrdinal = .ok entry.proof.leafIndex

/-- A derivation proof that verifies is about witnessed segments in the entries whose own inclusion
proof is against its root; where all of them are and name their ordinals, it is sound if the
figures next to them are right.  One that the tree has generated is right in every part but the
bound on the segment numbers. -/
theorem derivation_sound (ideal : hs.Ideal) (hreach : Reached C hs texts m) :
    (∀ proof : DerivationProof H, m.root hs = .ok proof.mmrRoot → proof.verify hs = .ok true →
        (∀ entry ∈ proof.matched, entry.proof.root = proof.mmrRoot →
          (∃ k, m.mmr.getLeafIndex k = .ok entry.proof.leafIndex
            ∧ WitnessedAt C hs texts m k entry.hash)
          ∧ (m.mmr.getLeafIndex entry.mmrLeafOrdinal = .ok entry.proof.leafIndex →
            WitnessedAt C hs texts m entry.mmrLeafOrdinal entry.hash))
        ∧ (proof.TiedTo m → (proof.Sound C hs texts m ↔
          (proof.matched.map (·.derivedSegmentIndex)).Nodup
            ∧ (∀ entry ∈ proof.matched, entry.derivedSegmentIndex < proof.derivedTotal)
            ∧ proof.coverage = some (coverageOf proof.matched.length proof.derivedTotal))))
      ∧ ∀ text proof m', m.generateDerivationProof C hs text = (.ok proof, m') →
        Generated C hs texts m proof := by
  refine ⟨fun proof hroot hverify => ?_, fun text proof m' h => generated_of_ok ideal hreach h⟩
  have hwitnessed : ∀ entry ∈ proof.matched, entry.proof.root = proof.mmrRoot →
      ∃ k, m.mmr.getLeafIndex k = .ok entry.proof.leafIndex
        ∧ WitnessedAt C hs texts m k entry.hash := by
    intro entry hentry hsame
    exact witnessedAt_of_verify ideal hreach (hroot.trans (congrArg Except.ok hsame.symm))
      (DerivationProof.verify_eq_true.mp hverify entry hentry)
  have hnamed : ∀ entry ∈ proof.matched, entry.proof.root = proof.mmrRoot →
      m.mmr.getLeafIndex entry.mmrLeafOrdinal = .ok entry.proof.leafIndex →
        WitnessedAt C hs texts m entry.mmrLeafOrdinal entry.hash := by
    intro entry hentry hsame hordinal
    obtain ⟨k, hk, hleaf⟩ := hwitnessed entry hentry hsame
    rwa [ordinal_unique hreach hordinal hk]
  constructor
  · exact fun entry hentry hsame => ⟨hwitnessed entry hentry hsame, hnamed entry hentry hsame⟩
  · intro htied
    constructor
    · exact fun h => ⟨h.distinct, h.bounded, h.coverage⟩
    · rintro ⟨hdistinct, hbounded, hcoverage⟩
      exact ⟨fun entry hentry => hnamed entry hentry (htied entry hentry).1
        (htied entry hentry).2, hdistinct, hbounded, hcoverage⟩

end Generated

/-! ### Two sessions -/

/-- Characters as ASCII has them, and the last 32 bytes in the place of SHA-256 -/
def sampleCrates : Crates where
  nfc := id
  toLowercase c := [c.toLower]
  isAlphabetic := Char.isAlpha
  isAlphanumeric := Char.isAlphanum
  isUppercase := Char.isUpper
  isWhitespace := Char.isWhitespace
  sha256 data := Bytes.ofNat 32 (Bytes.ofBE data)

def sampleSession (text : List Char) : ContentMmr (MemoryStore Term) Term :=
  (ContentMmr.witnessText sampleCrates termHasher text ⟨Mmr.empty, .block, "session"⟩).2

theorem sampleSession_reached (text : List Char)
    (h : (ContentMmr.witnessText sampleCrates termHasher text
      (⟨Mmr.empty, .block, "session"⟩ : ContentMmr (MemoryStore Term) Term)).1 ≠ abort) :
    Reached sampleCrates termHasher [(text, .block)] (sampleSession text) :=
  .witnessText (.inMemory (rfl : ContentMmr.inMemory "session" .block = .ok _)) rfl h

theorem sampleSession_a : Reached sampleCrates termHasher [(['a'], .block)] (sampleSession ['a']) :=
  sampleSession_reached ['a'] (by decide +kernel)

/-- The proof of the session for a text with its segment twice -/
def sampleProof : DerivationProof Term :=
  let hash := sampleCrates.hashSegment ['a']
  let leaf := Term.leaf 0 hash.val
  { sessionId := "session"
    granularity := .block
    mmrRoot := leaf
    mmrLeafCount := 1
    matched := [⟨0, 0, hash, ⟨0, leaf, [], [leaf], 0, 1, leaf⟩⟩,
      ⟨1, 0, hash, ⟨0, leaf, [], [leaf], 0, 1, leaf⟩⟩]
    derivedTotal := 2
    coverage := some (coverageOf 2 2) }

theorem derivation_sound_a :
    sampleProof.Sound sampleCrates termHasher [(['a'], .block)] (sampleSession ['a'])
      ∧ Generated sampleCrates termHasher [(['a'], .block)] (sampleSession ['a']) sampleProof := by
  obtain ⟨hverified, hgenerated⟩ := derivation_sound termHasher_ideal sampleSession_a
  constructor
  · exact ((hverified sampleProof (by decide +kernel) (by decide +kernel)).2
      (by unfold DerivationProof.TiedTo; decide +kernel)).mpr
      ⟨by decide, by decide, rfl⟩
  · exact hgenerated ['a', '\n', 'a'] sampleProof (sampleSession ['a']) (by decide +kernel)

/-- The leaf of the session that has witnessed "b", under the root of the one for "a" -/
def foreignProof : DerivationProof Term :=
  let hash := sampleCrates.hashSegment ['b']
  let leaf := Term.leaf 0 hash.val
  { sessionId := "session"
    granularity := .block
    mmrRoot := .leaf 0 (sampleCrates.hashSegment ['a']).val
    mmrLeafCount := 1
    matched := [⟨0, 0, hash, ⟨0, leaf, [], [leaf], 0, 1, leaf⟩⟩]
    derivedTotal := 1
    coverage := some (coverageOf 1 1) }

/-- A proof with the root of a tree verifies, though its only entry is from another tree. -/
theorem derivation_not_sound :
    Reached sampleCrates termHasher [(['a'], .block)] (sampleSession ['a'])
      ∧ (sampleSession ['a']).root termHasher = .ok foreignProof.mmrRoot
      ∧ foreignProof.verify termHasher = .ok true
      ∧ ¬ foreignProof.Sound sampleCrates termHasher [(['a'], .block)] (sampleSession ['a']) := by
  refine ⟨sampleSession_a, by decide +kernel, by decide +kernel, fun h => ?_⟩
  obtain ⟨entry, hentry, segment, hsegment, hhash⟩ :=
    (h.witnessed _ (List.mem_singleton_self _)).segment
  rw [List.mem_singleton.mp hentry] at hsegment
  have hall : ∀ segment ∈ sampleCrates.segmentAndHash ['a'] .block,
      segment.hash ≠ sampleCrates.hashSegment ['b'] := by decide +kernel
  exact hall segment hsegment hhash

end WritersProof.Content
