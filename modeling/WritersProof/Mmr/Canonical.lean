/-
  What the decoders of inclusion and range proofs have read
  (crates/cpoe/src/mmr/proof.rs).

  The decoders do not look behind the root, and a direction byte that is not 1 means right.
-/
import WritersProof.Mmr.RangeEncoding

namespace WritersProof.Mmr

open Rust InclusionProof Reader Bytes FixedBytes

/-! ## What is read -/

section Read

variable {data : Bytes}

theorem readElement_meets (offset : Nat) :
    Reader.Meets readElement data offset fun elem next =>
      ∃ bytes, (∃ d, Directed elem d ∧ bytes = elem.hash.val ++ [d])
        ∧ Reader.Spans data offset next bytes := by
  refine meets_need.bind fun _ o₁ h₁ => ?_
  obtain ⟨rfl, hle⟩ := h₁
  refine (meets_fixed (by rw [hashSize]; omega)).bind fun hash o₂ hhash => ?_
  have hnext : o₂ = o₁ + 32 := hhash.next_eq.trans (congrArg _ hash.length_val)
  refine (meets_byte (by omega)).bind fun d o₃ hd => ?_
  exact meets_pure ⟨_, ⟨d, rfl, rfl⟩, hhash.append hd⟩

theorem readPeak_meets (offset : Nat) :
    Reader.Meets readPeak data offset fun peak next =>
      ∃ bytes, bytes = peak.val ∧ Reader.Spans data offset next bytes := by
  refine meets_need.bind fun _ o₁ h₁ => ?_
  obtain ⟨rfl, hle⟩ := h₁
  exact (meets_fixed (by rw [hashSize]; omega)).imp fun peak next h => ⟨_, rfl, h⟩

theorem readIndex_meets (offset : Nat) :
    Reader.Meets RangeProof.readIndex data offset fun index next =>
      ∃ bytes, (index < 2 ^ 64 ∧ bytes = toBE 8 index)
        ∧ Reader.Spans data offset next bytes := by
  refine meets_need.bind fun _ o₁ h₁ => ?_
  obtain ⟨rfl, hle⟩ := h₁
  exact (meets_be (by omega)).imp fun index next h => ⟨_, ⟨h.1, rfl⟩, h.2⟩

/-- Records that are determined by their values -/
theorem flatten_eq_flatMap {α : Type} {enc : α → Bytes} {P : α → Prop} {xs : List α}
    {records : List Bytes} (h : List.Forall₂ (fun x bytes => P x ∧ bytes = enc x) xs records) :
    (∀ x ∈ xs, P x) ∧ records.flatten = xs.flatMap enc := by
  induction h with
  | nil => exact ⟨nofun, rfl⟩
  | @cons x bytes xs records hx _ ih =>
    rw [List.forall_mem_cons, List.flatten_cons, List.flatMap_cons, hx.2, ih.2]
    exact ⟨⟨hx.1, ih.1⟩, rfl⟩

theorem readPeaks_meets (n : Nat) {offset : Nat} (h : offset ≤ data.length) :
    Reader.Meets (times readPeak n) data offset fun peaks next =>
      peaks.length = n ∧ Reader.Spans data offset next (peaks.flatMap val) := by
  refine (meets_times (fun offset _ => readPeak_meets offset) n offset h).imp ?_
  rintro peaks next ⟨hlen, records, hall, hspan⟩
  have hrecords := (flatten_eq_flatMap (P := fun _ => True)
    (hall.imp fun _ _ hbytes => ⟨trivial, hbytes⟩)).2
  exact ⟨hlen, hrecords ▸ hspan⟩

theorem readPath_meets (n : Nat) {offset : Nat} (h : offset ≤ data.length) :
    Reader.Meets (times readElement n) data offset fun path next =>
      path.length = n ∧ ∃ ds, List.Forall₂ Directed path ds
        ∧ Reader.Spans data offset next (pathBytes path ds) := by
  refine (meets_times (fun offset _ => readElement_meets offset) n offset h).imp ?_
  rintro path next ⟨hlen, records, hall, hspan⟩
  obtain ⟨ds, hds, hflatten⟩ := exists_directions hall
  exact ⟨hlen, ds, hds, hflatten ▸ hspan⟩

theorem readIndices_meets (n : Nat) {offset : Nat} (h : offset ≤ data.length) :
    Reader.Meets (times RangeProof.readIndex n) data offset fun indices next =>
      indices.length = n ∧ (∀ index ∈ indices, index < 2 ^ 64)
        ∧ Reader.Spans data offset next (indices.flatMap (toBE 8)) := by
  refine (meets_times (fun offset _ => readIndex_meets offset) n offset h).imp ?_
  rintro indices next ⟨hlen, records, hall, hspan⟩
  obtain ⟨hlt, hflatten⟩ := flatten_eq_flatMap hall
  exact ⟨hlen, hlt, hflatten ▸ hspan⟩

theorem peaks_of_check {peaks : List Hash32} {position : Nat}
    (h : ¬ (peaks = [] ∨ peaks.length ≤ position)) : position < peaks.length :=
  Nat.lt_of_not_le fun hle => h (.inr hle)

end Read

/-! ## Inclusion proofs -/

namespace InclusionProof

variable (proof : InclusionProof Hash32)

def headBytes : Bytes :=
  [proofVersion] ++ ([proofTypeInclusion] ++ (toBE 8 proof.leafIndex ++ proof.leafHash.val))

theorem length_headBytes : proof.headBytes.length = 42 := by
  have hhash : proof.leafHash.val.length = 32 := proof.leafHash.length_val
  simp only [headBytes, List.length_append, List.length_singleton, length_toBE, hhash]

def Begins (data : Bytes) : Prop :=
  ∃ ds rest, List.Forall₂ Directed proof.merklePath ds
    ∧ data = proof.headBytes ++ (tailBytes proof.merklePath ds proof.peaks proof.peakPosition
      proof.mmrSize proof.root ++ rest)

theorem reader_meets {data : Bytes} (h : 86 ≤ data.length) :
    Reader.Meets reader data 0 fun proof _ => proof.Fits ∧ proof.Begins data := by
  unfold reader
  refine meets_expect (by omega) fun hversion => ?_
  refine meets_expect (by omega) fun htype => ?_
  refine (meets_be (by omega)).bind fun leafIndex o₃ hindex => ?_
  have ho₃ := hindex.2.next_eq
  rw [length_toBE] at ho₃
  refine (meets_fixed (by rw [hashSize]; omega)).bind fun leafHash o₄ hhash => ?_
  have ho₄ : o₄ = o₃ + 32 := hhash.next_eq.trans (congrArg _ leafHash.length_val)
  refine (meets_be (by omega)).bind fun pathLen o₅ hpathLen => ?_
  refine meets_need.bind fun _ o₅' h₅ => ?_
  obtain ⟨rfl, -⟩ := h₅
  refine (readPath_meets pathLen hpathLen.2.le).bind fun path o₆ hpath => ?_
  obtain ⟨rfl, ds, hds, hpath⟩ := hpath
  refine meets_need.bind fun _ o₆' h₆ => ?_
  obtain ⟨rfl, hle₆⟩ := h₆
  refine (meets_be hle₆).bind fun peaksLen o₇ hpeaksLen => ?_
  refine (readPeaks_meets peaksLen hpeaksLen.2.le).bind fun peaks o₈ hpeaks => ?_
  obtain ⟨rfl, hpeaks⟩ := hpeaks
  refine meets_need.bind fun _ o₈' h₈ => ?_
  obtain ⟨rfl, hle₈⟩ := h₈
  refine (meets_be hle₈).bind fun peakPosition o₉ hposition => ?_
  refine meets_reject.bind fun _ o₉' h₉ => ?_
  obtain ⟨rfl, hcheck⟩ := h₉
  refine meets_need.bind fun _ o₉' h₉ => ?_
  obtain ⟨rfl, hle₉⟩ := h₉
  refine (meets_be (by omega)).bind fun mmrSize o₁₀ hsize => ?_
  have ho₁₀ := hsize.2.next_eq
  rw [length_toBE] at ho₁₀
  refine (meets_fixed (by rw [hashSize]; omega)).bind fun root o₁₁ hroot => ?_
  refine meets_pure ⟨⟨hindex.1, hpathLen.1, hpeaksLen.1, peaks_of_check hcheck, hsize.1⟩,
    ds, data.drop o₁₁, hds, ?_⟩
  -- All the parts, one after the other, from the start of the data
  have hspan := hversion.append (htype.append (hindex.2.append (hhash.append (hpathLen.2.append
    (hpath.append (hpeaksLen.2.append (hpeaks.append (hposition.2.append
      (hsize.2.append hroot)))))))))
  have hdata := hspan.drop_eq
  rw [List.drop_zero] at hdata
  refine hdata.trans ?_
  simp only [headBytes, tailBytes, List.append_assoc]

/-- The decoder returns, and a decoded proof stands in the data. -/
theorem deserialize_meets (data : Bytes) :
    deserialize data ≠ abort
      ∧ ∀ proof, deserialize data = .ok proof → proof.Fits ∧ proof.Begins data := by
  by_cases h : data.length < 86
  · rw [deserialize, if_pos h]
    exact ⟨fail_ne_abort _, fun _ h => absurd h (fail_ne_ok _ _)⟩
  · rw [deserialize, if_neg h]
    obtain ⟨hreturns, hpost⟩ := (reader_meets (Nat.le_of_not_lt h)).run
    exact ⟨hreturns, fun proof hok => (hpost proof hok).elim fun _ h => h⟩

variable {proof : InclusionProof Hash32}

/-- The proof is written back as the data exactly if they are `Canonical`. -/
theorem serialize_eq_iff {data : Bytes} (h : deserialize data = .ok proof) :
    proof.serialize = .ok data ↔ Canonical data 42 := by
  obtain ⟨hfits, ds, rest, hds, hdata⟩ := (deserialize_meets data).2 proof h
  have hencoding : proof.encoding = proof.headBytes ++ tailBytes proof.merklePath
      (proof.merklePath.map directionByte) proof.peaks proof.peakPosition proof.mmrSize
      proof.root := by
    simp only [encoding, headBytes, tailBytes, pathBytes_directionByte, List.append_assoc]
  rw [serialize_eq hfits, Except.ok.injEq, hencoding,
    eq_encoding_iff hdata hds hfits.path_lt hfits.peaks_lt, length_headBytes]

theorem deserialize_encoding_append (h : proof.Fits) (rest : Bytes) :
    deserialize (proof.encoding ++ rest) = .ok proof := by
  have hmin : ¬ proof.encoding.length < 86 := by
    intro hlt
    have hshort := deserialize_encoding h
    rw [deserialize, if_pos hlt] at hshort
    exact fail_ne_ok _ _ hshort
  rw [deserialize, if_neg (by rw [List.length_append]; omega)]
  exact (reads_encoding h).run_append rest

theorem deserialize_serialize (h : proof.Fits) : (proof.serialize >>= deserialize) = .ok proof := by
  rw [serialize_eq h, res_ok_bind, deserialize_encoding h]

end InclusionProof

/-! ## Range proofs -/

namespace RangeProof

def ReadLists (data : Bytes) (lists : Lists) (next : Nat) : Prop :=
  lists.Fits ∧ ∃ ds, List.Forall₂ Directed lists.siblingPath ds
    ∧ Reader.Spans data 0 next (listsBytes lists ds)

variable {data : Bytes} {proof : RangeProof Hash32}

theorem readLists_meets (h : 64 ≤ data.length) :
    Reader.Meets readLists data 0 (ReadLists data) := by
  unfold readLists
  refine meets_expect (by omega) fun hversion => ?_
  refine meets_expect (by omega) fun htype => ?_
  refine (meets_be (by omega)).bind fun startLeaf o₃ hstart => ?_
  have ho₃ := hstart.2.next_eq
  rw [length_toBE] at ho₃
  refine (meets_be (by omega)).bind fun endLeaf o₄ hend => ?_
  have ho₄ := hend.2.next_eq
  rw [length_toBE] at ho₄
  refine (meets_be (by omega)).bind fun leavesLen o₅ hleaves => ?_
  refine (readIndices_meets leavesLen hleaves.2.le).bind fun indices o₆ hindices => ?_
  obtain ⟨hcount, hindicesLt, hindices⟩ := hindices
  refine (readPeaks_meets leavesLen hindices.le).bind fun hashes o₇ hhashes => ?_
  obtain ⟨rfl, hhashes⟩ := hhashes
  refine meets_need.bind fun _ o₇' h₇ => ?_
  obtain ⟨rfl, hle₇⟩ := h₇
  refine (meets_be hle₇).bind fun pathLen o₈ hpathLen => ?_
  refine (readPath_meets pathLen hpathLen.2.le).bind fun path o₉ hpath => ?_
  obtain ⟨rfl, ds, hds, hpath⟩ := hpath
  refine meets_need.bind fun _ o₉' h₉ => ?_
  obtain ⟨rfl, hle₉⟩ := h₉
  refine (meets_be hle₉).bind fun peaksLen o₁₀ hpeaksLen => ?_
  refine (readPeaks_meets peaksLen hpeaksLen.2.le).bind fun peaks o₁₁ hpeaks => ?_
  obtain ⟨rfl, hpeaks⟩ := hpeaks
  refine meets_need.bind fun _ o₁₁' h₁₁ => ?_
  obtain ⟨rfl, hle₁₁⟩ := h₁₁
  refine (meets_be hle₁₁).bind fun peakPosition o₁₂ hposition => ?_
  refine meets_reject.bind fun _ o₁₂' h₁₂ => ?_
  obtain ⟨rfl, hcheck⟩ := h₁₂
  refine meets_pure ⟨?_, ds, hds, ?_⟩
  · exact
      { start_lt := hstart.1
        end_lt := hend.1
        indices_lt := hindicesLt
        indices_eq := hcount
        hashes_lt := hleaves.1
        path_lt := hpathLen.1
        peaks_lt := hpeaksLen.1
        position_lt := peaks_of_check hcheck }
  have hspan := hversion.append (htype.append (hstart.2.append (hend.2.append (hleaves.2.append
    (hindices.append (hhashes.append (hpathLen.2.append (hpath.append (hpeaksLen.2.append
      (hpeaks.append hposition.2))))))))))
  simpa only [listsBytes, rangeBytes, List.append_assoc] using hspan

/-- Without the bounds of all of `u64` the rest is read or refused. -/
theorem readRest_meets {lists : Lists} {offset : Nat} (h : lists.Fits)
    (hrange : ¬ (lists.startLeaf = 0 ∧ lists.endLeaf = 2 ^ 64 - 1)) :
    Reader.Meets (readRest lists) data offset fun proof _ => proof.Fits ∧ proof.lists = lists
      ∧ ∃ rest, data.drop offset = toBE 8 proof.mmrSize ++ (proof.root.val ++ rest) := by
  have hstart := h.start_lt
  have hend := h.end_lt
  unfold readRest
  refine meets_reject.bind fun _ o₁ h₁ => ?_
  obtain ⟨rfl, -⟩ := h₁
  refine meets_reject.bind fun _ o₂ h₂ => ?_
  obtain ⟨rfl, hle⟩ := h₂
  have hsum : lists.endLeaf - lists.startLeaf + 1 < 2 ^ 64 := by omega
  have hcount : lift (ε := MmrError)
      (unwrap (checkedAdd (lists.endLeaf - lists.startLeaf) 1))
      data o₂ = .ok (lists.endLeaf - lists.startLeaf + 1, o₂) := by
    rw [lift, checkedAdd_eq_some hsum]
    rfl
  refine (meets_of_ok (Q := fun n next => n = lists.endLeaf - lists.startLeaf + 1
    ∧ next = o₂) hcount ⟨rfl, rfl⟩).bind fun expectedCount o₃ h₃ => ?_
  obtain ⟨rfl, rfl⟩ := h₃
  refine meets_reject.bind fun _ o₄ h₄ => ?_
  obtain ⟨rfl, hexpected⟩ := h₄
  refine meets_need.bind fun _ o₅ h₅ => ?_
  obtain ⟨rfl, hle₅⟩ := h₅
  refine (meets_be (by omega)).bind fun mmrSize o₆ hsize => ?_
  have ho₆ := hsize.2.next_eq
  rw [length_toBE] at ho₆
  refine (meets_fixed (by rw [hashSize]; omega)).bind fun root o₇ hroot => ?_
  refine meets_pure ⟨?_, rfl, data.drop o₇, ?_⟩
  · exact
      { end_lt := hend
        indices_lt := h.indices_lt
        hashes_lt := h.hashes_lt
        path_lt := h.path_lt
        peaks_lt := h.peaks_lt
        position_lt := h.position_lt
        size_lt := hsize.1
        range := Nat.le_of_not_lt hle
        indices_eq := not_not.mp hexpected
        hashes_eq := h.indices_eq.symm.trans (not_not.mp hexpected) }
  · rw [hsize.2.drop_eq, hroot.drop_eq]

/-- The data begin with all that comes before the size, for the bounds of all of `u64`. -/
def WholeRange (data : Bytes) : Prop :=
  64 ≤ data.length ∧ ∃ lists ds rest, lists.Fits ∧ List.Forall₂ Directed lists.siblingPath ds
    ∧ lists.startLeaf = 0 ∧ lists.endLeaf = 2 ^ 64 - 1 ∧ data = listsBytes lists ds ++ rest

def Begins (proof : RangeProof Hash32) (data : Bytes) : Prop :=
  ∃ ds rest, List.Forall₂ Directed proof.siblingPath ds
    ∧ data = rangeBytes proof.lists ++ (tailBytes proof.siblingPath ds proof.peaks
      proof.peakPosition proof.mmrSize proof.root ++ rest)

/-- On the bounds of all of `u64` the leaf count overflows. -/
theorem deserialize_wholeRange (h : WholeRange data) : deserialize data = abort := by
  obtain ⟨hlen, lists, ds, rest, hfits, hds, hstart, hend, rfl⟩ := h
  have hread := reads_lists hfits hds [] rest
  rw [List.nil_append, List.length_nil, Nat.zero_add] at hread
  have hrest : readRest lists (listsBytes lists ds ++ rest) (listsBytes lists ds).length
      = abort := by
    have hcount := not_not.mpr hfits.indices_eq
    rw [readRest, bind_apply, Reader.reject, if_neg hcount, res_ok_bind,
      bind_apply, Reader.reject, if_neg (by omega), res_ok_bind, bind_apply,
      lift, hstart, hend]
    rfl
  rw [deserialize, if_neg (by omega), run, bind_apply, hread, res_ok_bind, hrest]
  rfl

/-- Otherwise the decoder returns, and a decoded proof stands in the data. -/
theorem deserialize_meets (h : ¬ WholeRange data) :
    deserialize data ≠ abort
      ∧ ∀ proof, deserialize data = .ok proof → proof.Fits ∧ proof.Begins data := by
  by_cases hlen : data.length < 64
  · rw [deserialize, if_pos hlen]
    exact ⟨fail_ne_abort _, fun _ h => absurd h (fail_ne_ok _ _)⟩
  · have hlists := readLists_meets (Nat.le_of_not_lt hlen)
    have hmeets : Reader.Meets (readLists >>= readRest) data 0 fun proof _ =>
        proof.Fits ∧ proof.Begins data := by
      refine hlists.bind fun lists next hread => ?_
      obtain ⟨hfits, ds, hds, hspan⟩ := hread
      have hdata := hspan.drop_eq
      rw [List.drop_zero] at hdata
      refine (readRest_meets hfits fun hrange => h ⟨Nat.le_of_not_lt hlen, lists, ds, _, hfits, hds,
        hrange.1, hrange.2, hdata⟩).imp ?_
      rintro proof _ ⟨hproof, rfl, rest, hrest⟩
      refine ⟨hproof, ds, rest, hds, hdata.trans ?_⟩
      rw [hrest]
      simp only [listsBytes, tailBytes, RangeProof.lists, List.append_assoc]
    rw [deserialize, if_neg hlen]
    obtain ⟨hreturns, hpost⟩ := hmeets.run
    exact ⟨hreturns, fun proof hok => (hpost proof hok).elim fun _ h => h⟩

theorem begins_of_deserialize (h : deserialize data = .ok proof) :
    proof.Fits ∧ proof.Begins data := by
  refine (deserialize_meets fun hwhole => ?_).2 proof h
  rw [deserialize_wholeRange hwhole] at h
  cases h

theorem length_rangeBytes (lists : Lists) (h : lists.leafIndices.length = lists.leafHashes.length) :
    (rangeBytes lists).length = 20 + 40 * lists.leafHashes.length := by
  have hindices : (lists.leafIndices.flatMap (toBE 8)).length
      = lists.leafIndices.length * 8 := length_flatMap_records (length_toBE 8) _
  have hhashes : (lists.leafHashes.flatMap val).length = lists.leafHashes.length * 32 :=
    length_flatMap_records length_val _
  simp only [rangeBytes, List.length_append, List.length_singleton, length_toBE, hindices,
    hhashes]
  omega

def pathOffset (data : Bytes) : Nat := 20 + 40 * u16At data 18

theorem serialize_eq_iff (h : deserialize data = .ok proof) :
    proof.serialize = .ok data ↔ Canonical data (pathOffset data) := by
  obtain ⟨hfits, ds, rest, hds, hdata⟩ := begins_of_deserialize h
  have hencoding : proof.encoding = rangeBytes proof.lists ++ tailBytes proof.siblingPath
      (proof.siblingPath.map directionByte) proof.peaks proof.peakPosition proof.mmrSize
      proof.root := by
    rw [encoding_eq]
    simp only [listsBytes, tailBytes, lists, List.append_assoc]
  have hcount : u16At data 18 = proof.leafHashes.length := by
    let bounds := [proofVersion] ++ ([proofTypeRange] ++ (toBE 8 proof.startLeaf
      ++ toBE 8 proof.endLeaf))
    have hbounds : bounds.length = 18 := by
      simp only [bounds, List.length_append, List.length_singleton, length_toBE]
    have hbehind : data = bounds ++ (toBE 2 proof.leafHashes.length
        ++ (proof.leafIndices.flatMap (toBE 8) ++ (proof.leafHashes.flatMap val
        ++ (tailBytes proof.siblingPath ds proof.peaks proof.peakPosition proof.mmrSize proof.root
        ++ rest)))) := by
      rw [hdata]
      simp only [bounds, rangeBytes, lists, List.append_assoc]
    apply u16At_of_drop hfits.hashes_lt
    rw [hbehind]
    exact List.drop_left' hbounds
  rw [serialize_eq hfits, Except.ok.injEq, hencoding,
    eq_encoding_iff hdata hds hfits.path_lt hfits.peaks_lt,
    length_rangeBytes proof.lists hfits.lists.indices_eq, pathOffset, hcount]
  rfl

theorem deserialize_serialize (h : proof.Fits) : (proof.serialize >>= deserialize) = .ok proof := by
  rw [serialize_eq h, res_ok_bind, deserialize_encoding h]

end RangeProof

/-! ## Canonical encodings -/

theorem data_eq_of_serialize {α : Type} {serialize : α → Res MmrError Bytes} {proof : α}
    {data data' : Bytes} (h : serialize proof = .ok data) (h' : serialize proof = .ok data') :
    data = data' := Except.ok.inj (h.symm.trans h')

/-- Proofs read back from what is written, and data are written back exactly if they are
    canonical; so no two canonical data decode to one proof. -/
theorem encodings_canonical :
    (∀ proof : InclusionProof Hash32, proof.Fits →
      (proof.serialize >>= deserialize) = .ok proof) ∧
    (∀ proof : RangeProof Hash32, proof.Fits →
      (proof.serialize >>= RangeProof.deserialize) = .ok proof) ∧
    (∀ data proof, deserialize data = .ok proof →
      (proof.serialize = .ok data ↔ Canonical data 42) ∧
      ∀ data', deserialize data' = .ok proof → Canonical data 42 →
        Canonical data' 42 → data = data') ∧
    (∀ data proof, RangeProof.deserialize data = .ok proof →
      (proof.serialize = .ok data ↔ Canonical data (RangeProof.pathOffset data)) ∧
      ∀ data', RangeProof.deserialize data' = .ok proof →
        Canonical data (RangeProof.pathOffset data) →
        Canonical data' (RangeProof.pathOffset data') → data = data') := by
  refine ⟨fun proof h => deserialize_serialize h,
    fun proof h => RangeProof.deserialize_serialize h, fun data proof h => ?_,
    fun data proof h => ?_⟩
  · have hwritten := serialize_eq_iff h
    refine ⟨hwritten, fun data' h' hcanonical hcanonical' => ?_⟩
    exact data_eq_of_serialize (hwritten.mpr hcanonical)
      ((serialize_eq_iff h').mpr hcanonical')
  · have hwritten := RangeProof.serialize_eq_iff h
    refine ⟨hwritten, fun data' h' hcanonical hcanonical' => ?_⟩
    exact data_eq_of_serialize (hwritten.mpr hcanonical)
      ((RangeProof.serialize_eq_iff h').mpr hcanonical')

def onlyLeaf : InclusionProof Hash32 where
  leafIndex := 0
  leafHash := filled hashSize 1
  merklePath := []
  peaks := [filled hashSize 1]
  peakPosition := 0
  mmrSize := 1
  root := filled hashSize 1

/-- A zero behind the root is accepted and not written back. -/
theorem not_encodings_canonical :
    ¬ ∀ data proof, deserialize data = .ok proof → proof.serialize = .ok data := by
  intro h
  have hfits : onlyLeaf.Fits :=
    ⟨by decide, by decide, by decide, by decide, by decide⟩
  have hsame := h _ onlyLeaf (deserialize_encoding_append hfits [0])
  rw [serialize_eq hfits] at hsame
  have hlen := congrArg List.length (Except.ok.inj hsame)
  rw [List.length_append, List.length_singleton] at hlen
  omega

end WritersProof.Mmr
