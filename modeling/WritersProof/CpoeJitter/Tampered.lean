/-
  WritersProof.CpoeJitter.Tampered

  What an attacker can make of published keyed chains
  (crates/cpoe-jitter/src/evidence.rs).

  The link of a record is the HMAC of the MAC so far and the record's fields.
  The MAC has a fixed length and the first byte of a record tells its kind, so
  the bytes of a link are read in one way only (`writeFields_injective`,
  `linkBytes_injective`).  A record's number is its place, so two chains whose
  last links agree have one length, and the links before agree as well, down to
  the first (`records_eq_of_keyedMac_eq`).
-/
import WritersProof.CpoeJitter.EvidenceChain
import Mathlib.Data.List.Induction
import Mathlib.Data.Set.Function

namespace WritersProof.CpoeJitter

open Rust

/-! ## The bytes of a record -/

namespace Evidence

/-- The last three fields, which both kinds of record have -/
def timing (jitter : UInt32) (timestampUs : UInt64) (sequence : Nat) : Bytes :=
  Bytes.toLE 4 jitter.toNat ++ Bytes.toLE 8 timestampUs.toNat ++ Bytes.toLE 8 sequence

theorem writeFields_phys (physHash : PhysHash) (jitter : UInt32) (timestampUs : UInt64)
    (sequence : Nat) : (phys physHash jitter timestampUs sequence).writeFields
      = 0 :: (physHash.hash.val ++ physHash.entropyBits :: timing jitter timestampUs sequence) := by
  simp only [writeFields, timing, List.append_assoc, List.cons_append, List.nil_append]

theorem writeFields_pure (jitter : UInt32) (timestampUs : UInt64) (sequence : Nat) :
    (Evidence.pure jitter timestampUs sequence).writeFields
      = 1 :: timing jitter timestampUs sequence := by
  simp only [writeFields, timing, List.append_assoc, List.cons_append, List.nil_append]

theorem timing_injective {jitter jitter' : UInt32} {timestampUs timestampUs' : UInt64}
    {sequence sequence' : Nat} (hlt : sequence < 2 ^ 64) (hlt' : sequence' < 2 ^ 64)
    (h : timing jitter timestampUs sequence = timing jitter' timestampUs' sequence') :
    jitter = jitter' ∧ timestampUs = timestampUs' ∧ sequence = sequence' := by
  obtain ⟨hfirst, hsequence⟩ := List.append_inj' h (by simp only [Bytes.length_toLE])
  obtain ⟨hjitter, htimestamp⟩ := List.append_inj' hfirst (by simp only [Bytes.length_toLE])
  refine ⟨UInt32.toNat_inj.mp ?_, UInt64.toNat_inj.mp ?_, ?_⟩
  · exact Bytes.toLE_injective jitter.toNat_lt jitter'.toNat_lt hjitter
  · exact Bytes.toLE_injective timestampUs.toNat_lt timestampUs'.toNat_lt htimestamp
  · exact Bytes.toLE_injective hlt hlt' hsequence

/-- The first byte tells the kind, and from there on the fields have fixed lengths. -/
theorem writeFields_injective {a b : Evidence} (ha : a.sequence < 2 ^ 64)
    (hb : b.sequence < 2 ^ 64) (h : a.writeFields = b.writeFields) : a = b := by
  cases a with
  | phys physHash jitter timestampUs sequence =>
    cases b with
    | phys physHash' jitter' timestampUs' sequence' =>
      rw [writeFields_phys, writeFields_phys, List.cons.injEq] at h
      obtain ⟨hhash, hrest⟩ := List.append_inj h.2
        (physHash.hash.length_val.trans physHash'.hash.length_val.symm)
      rw [List.cons.injEq] at hrest
      have hlt : sequence < 2 ^ 64 := ha
      have hlt' : sequence' < 2 ^ 64 := hb
      obtain ⟨rfl, rfl, rfl⟩ := timing_injective hlt hlt' hrest.2
      have hphys : physHash = physHash' := by
        cases physHash
        cases physHash'
        rw [PhysHash.mk.injEq]
        exact ⟨FixedBytes.ext_val hhash, hrest.1⟩
      rw [hphys]
    | pure jitter' timestampUs' sequence' =>
      rw [writeFields_phys, writeFields_pure, List.cons.injEq] at h
      exact absurd h.1 (by decide)
  | pure jitter timestampUs sequence =>
    cases b with
    | phys physHash' jitter' timestampUs' sequence' =>
      rw [writeFields_phys, writeFields_pure, List.cons.injEq] at h
      exact absurd h.1 (by decide)
    | pure jitter' timestampUs' sequence' =>
      rw [writeFields_pure, writeFields_pure, List.cons.injEq] at h
      have hlt : sequence < 2 ^ 64 := ha
      have hlt' : sequence' < 2 ^ 64 := hb
      obtain ⟨rfl, rfl, rfl⟩ := timing_injective hlt hlt' h.2
      rfl

end Evidence

namespace EvidenceChain

/-! ## Links -/

def linkBytes (mac : FixedBytes 32) (e : Evidence) : Bytes := mac.val ++ e.writeFields

theorem linkBytes_injective {mac mac' : FixedBytes 32} {e e' : Evidence}
    (he : e.sequence < 2 ^ 64) (he' : e'.sequence < 2 ^ 64)
    (h : linkBytes mac e = linkBytes mac' e') : mac = mac' ∧ e = e' := by
  obtain ⟨hmac, hfields⟩ := List.append_inj h (mac.length_val.trans mac'.length_val.symm)
  exact ⟨FixedBytes.ext_val hmac, Evidence.writeFields_injective he he' hfields⟩

section Keyed

variable (C : Crates) (secret : FixedBytes 32)

def messages (records : List Evidence) : List Bytes :=
  records.mapIdx fun i e => linkBytes (keyedMac C secret (records.take i)) e

/-- A chain with the secret in memory, after appending; a failed call leaves it as it was. -/
def grown (es : List Evidence) : EvidenceChain :=
  es.foldl (fun c e =>
    match c.append C e with
    | .ok next => next
    | .error _ => c) (withSecret secret)

variable {C secret}

theorem keyedMac_concat (records : List Evidence) (e : Evidence) :
    keyedMac C secret (records ++ [e])
      = C.hmac secret (linkBytes (keyedMac C secret records) e) := by
  rw [keyedMac, List.foldl_append]
  rfl

theorem messages_concat (records : List Evidence) (e : Evidence) :
    messages C secret (records ++ [e])
      = messages C secret records ++ [linkBytes (keyedMac C secret records) e] := by
  rw [messages, List.mapIdx_concat, List.take_left]
  congr 1
  apply List.mapIdx_eq_mapIdx_iff.mpr
  intro i hi
  rw [List.take_append_of_le_length (Nat.le_of_lt hi)]

variable {records before : List Evidence} {e : Evidence} {m : Bytes}

theorem mem_messages (h : m ∈ messages C secret records) :
    ∃ before e, before ++ [e] <+: records ∧ m = linkBytes (keyedMac C secret before) e := by
  induction records using List.reverseRecOn with
  | nil => cases h
  | append_singleton records e ih =>
    rw [messages_concat, List.mem_append, List.mem_singleton] at h
    rcases h with h | rfl
    · obtain ⟨before, e', hpre, hm⟩ := ih h
      exact ⟨before, e', hpre.trans (List.prefix_append _ _), hm⟩
    · exact ⟨records, e, List.prefix_rfl, rfl⟩

theorem messages_of_before (h : before <+: records) (hm : m ∈ messages C secret before) :
    m ∈ messages C secret records := by
  obtain ⟨rest, rfl⟩ := h
  induction rest using List.reverseRecOn with
  | nil =>
    rw [List.append_nil]
    exact hm
  | append_singleton rest e ih =>
    rw [← List.append_assoc, messages_concat]
    exact List.mem_append_left _ ih

/-- Two lists of records with one MAC and one length are the same: so are the last messages, and
    with them the last records and the MACs before. -/
theorem records_eq_of_keyedMac_eq {xs ys : List Evidence} {S : Set Bytes}
    (hcollision : Set.InjOn (C.hmac secret) S) (hxs : ∀ m ∈ messages C secret xs, m ∈ S)
    (hys : ∀ m ∈ messages C secret ys, m ∈ S) (hseq : ∀ e ∈ xs ++ ys, e.sequence < 2 ^ 64)
    (hlength : xs.length = ys.length) (h : keyedMac C secret xs = keyedMac C secret ys) :
    xs = ys := by
  induction xs using List.reverseRecOn generalizing ys with
  | nil => exact (List.length_eq_zero_iff.mp hlength.symm).symm
  | append_singleton xs x ih =>
    rcases List.eq_nil_or_concat' ys with rfl | ⟨ys, y, rfl⟩
    · simp at hlength
    · rw [messages_concat, List.forall_mem_append, List.forall_mem_singleton] at hxs hys
      rw [keyedMac_concat, keyedMac_concat] at h
      have hx : x.sequence < 2 ^ 64 := hseq x (by simp)
      have hy : y.sequence < 2 ^ 64 := hseq y (by simp)
      obtain ⟨hmac, rfl⟩ := linkBytes_injective hx hy (hcollision hxs.2 hys.2 h)
      rw [ih hxs.1 hys.1 (fun e he => hseq e ?_) (by simpa using hlength) hmac]
      rw [List.mem_append] at he
      rcases he with he | he
      · simp [he]
      · simp [he]

/-! ## Chains in memory -/

theorem grown_concat (es : List Evidence) (e : Evidence) :
    grown C secret (es ++ [e])
      = match (grown C secret es).append C e with
        | .ok next => next
        | .error _ => grown C secret es := by
  rw [grown, List.foldl_append]
  rfl

theorem sound_grown (es : List Evidence) : (grown C secret es).Sound := by
  induction es using List.reverseRecOn with
  | nil => exact sound_withSecret secret
  | append_singleton es e ih =>
    rw [grown_concat]
    split
    next next hnext => exact ih.append hnext
    next => exact ih

theorem exists_grown_prefix {es : List Evidence} (h : records <+: (grown C secret es).records) :
    ∃ earlier, earlier <+: es ∧ (grown C secret earlier).records = records := by
  induction es using List.reverseRecOn with
  | nil => exact ⟨[], List.prefix_rfl, (List.prefix_nil.mp h).symm⟩
  | append_singleton es e ih =>
    by_cases heq : records = (grown C secret (es ++ [e])).records
    · exact ⟨es ++ [e], List.prefix_rfl, heq.symm⟩
    · have hbefore : records <+: (grown C secret es).records := by
        rw [grown_concat] at h heq
        cases hnext : (grown C secret es).append C e with
        | error fault =>
          rw [hnext] at h
          exact h
        | ok next =>
          rw [hnext] at h heq
          obtain ⟨-, rfl⟩ := append_eq_ok hnext
          exact (List.prefix_concat_iff.mp h).resolve_left heq
      obtain ⟨earlier, hpre, hrecords⟩ := ih hbefore
      exact ⟨earlier, hpre.trans (List.prefix_append _ _), hrecords⟩

/-! ## What verifies -/

variable {c : EvidenceChain}

theorem sound_of_tryFrom {raw : EvidenceChainRaw} (h : tryFrom raw = .ok c) :
    c.Sound := by
  obtain ⟨hversion, h⟩ := reject_bind_eq_ok.mp h
  obtain ⟨hbounds, h⟩ := reject_bind_eq_ok.mp h
  obtain ⟨hnext, h⟩ := reject_bind_eq_ok.mp h
  obtain ⟨hsequence, h⟩ := unit_bind_eq_ok.mp h
  cases h
  refine ⟨not_not.mp hversion, Nat.not_lt.mp hbounds, not_not.mp hnext, fun p hp => ?_⟩
  exact not_not.mp (reject_eq_ok.mp (forEach_eq_ok.mp hsequence p hp))

theorem Sound.sequence_eq (h : c.Sound) (hpre : before ++ [e] <+: c.records) :
    e.sequence = before.length := by
  obtain ⟨rest, hrest⟩ := hpre
  apply h.sequence (e, before.length)
  rw [List.mem_zipIdx_iff_getElem?, ← hrest, List.append_assoc]
  simp

theorem Sound.sequence_lt (h : c.Sound) (he : e ∈ c.records) : e.sequence < 2 ^ 64 := by
  have hbounds := h.bounds
  have hmax : MAX_EVIDENCE_RECORDS < 2 ^ 64 := by decide
  obtain ⟨i, hi, rfl⟩ := List.mem_iff_getElem.mp he
  have hseq := h.sequence (c.records[i], i)
    (List.mem_zipIdx_iff_getElem?.mpr (List.getElem?_eq_getElem hi))
  rw [show c.records[i].sequence = i from hseq]
  omega

def Signed (C : Crates) (secret : FixedBytes 32) (chains : Set (List Evidence)) : Set Bytes :=
  {m | ∃ es ∈ chains, m ∈ messages C secret (grown C secret es).records}

/-- Records that verify are none at all or those of a state that one of the chains went through,
    as long as no two messages in play collide and the MAC is not forged. -/
theorem tamper_evident {chains : Set (List Evidence)} {raw : EvidenceChainRaw}
    {c : EvidenceChain} (hload : tryFrom raw = .ok c)
    (hcollision : Set.InjOn (C.hmac secret)
      (Signed C secret chains ∪ {m | m ∈ messages C secret c.records}))
    (hunforged : ∀ m ∈ messages C secret c.records, C.hmac secret m = c.chainMac →
      m ∈ Signed C secret chains)
    (hverify : c.verifyIntegrity C secret = true) :
    c.records = [] ∨ ∃ es ∈ chains, ∃ earlier, earlier <+: es
      ∧ (grown C secret earlier).records = c.records := by
  rcases List.eq_nil_or_concat' c.records with hnil | ⟨init, last, hrecords⟩
  · exact .inl hnil
  right
  have hsound := sound_of_tryFrom hload
  rw [verifyIntegrity, decide_eq_true_iff] at hverify
  rw [hrecords] at hcollision hunforged hverify ⊢
  rw [keyedMac_concat] at hverify
  have hmem : linkBytes (keyedMac C secret init) last ∈ messages C secret (init ++ [last]) := by
    rw [messages_concat]
    exact List.mem_append_right _ (List.mem_singleton.mpr rfl)
  -- the MAC is one that some chain computed, and for the same message
  obtain ⟨es, hes, hsigned⟩ := hunforged _ hmem hverify
  obtain ⟨before, e, hpre, hlink⟩ := mem_messages hsigned
  have hgrown : (grown C secret es).Sound := sound_grown es
  have hlast : init ++ [last] <+: c.records := hrecords ▸ List.prefix_rfl
  have hbefore : before <+: (grown C secret es).records :=
    (List.prefix_append before [e]).trans hpre
  obtain ⟨hmac, rfl⟩ := linkBytes_injective
    (hsound.sequence_lt (hlast.subset List.mem_concat_self))
    (hgrown.sequence_lt (hpre.subset List.mem_concat_self)) hlink
  have hlength : init.length = before.length :=
    (hsound.sequence_eq hlast).symm.trans (hgrown.sequence_eq hpre)
  have hinit : init = before := by
    apply records_eq_of_keyedMac_eq hcollision _ _ _ hlength hmac
    · exact fun m hm => .inr (messages_of_before (List.prefix_append init [last]) hm)
    · exact fun m hm => .inl ⟨es, hes, messages_of_before hbefore hm⟩
    · intro r hr
      rcases List.mem_append.mp hr with hr | hr
      · exact hsound.sequence_lt (hlast.subset (List.mem_append_left _ hr))
      · exact hgrown.sequence_lt (hbefore.subset hr)
  rw [← hinit] at hpre
  exact ⟨es, hes, exists_grown_prefix hpre⟩

def firstChain : List Evidence := [someEvidence, .pure 800 2000 0]

def secondChain : List Evidence := [.phys ⟨zeroMac, 7⟩ 900 1500 0, someEvidence]

/-- The first of two chains without its second record, with the MAC that it had then. -/
theorem tamper_evident_truncated :
    let raw := (grown taggingCrates someSecret [someEvidence]).toEvidenceChainRaw
    raw.records = [] ∨ ∃ es ∈ ({firstChain, secondChain} : Set (List Evidence)), ∃ earlier,
      earlier <+: es ∧ (grown taggingCrates someSecret earlier).records = raw.records := by
  let records := fun es => (grown taggingCrates someSecret es).records
  let sent := messages taggingCrates someSecret (records firstChain)
    ++ messages taggingCrates someSecret (records secondChain)
  have hdistinct : ∀ m ∈ sent, ∀ m' ∈ sent,
      taggingCrates.hmac someSecret m = taggingCrates.hmac someSecret m' → m = m' := by
    decide +kernel
  have hsigned : ∀ m ∈ Signed taggingCrates someSecret {firstChain, secondChain}, m ∈ sent := by
    rintro m ⟨es, rfl | rfl, hm⟩
    · exact List.mem_append_left _ hm
    · exact List.mem_append_right _ hm
  have hpublished : ∀ m ∈ messages taggingCrates someSecret (records [someEvidence]),
      m ∈ messages taggingCrates someSecret (records firstChain) :=
    fun m hm => messages_of_before ⟨_, rfl⟩ hm
  apply tamper_evident (sound_grown [someEvidence]).reload
  · refine fun m hm m' hm' heq => hdistinct m ?_ m' ?_ heq
    · exact hm.elim (hsigned m) fun hm => List.mem_append_left _ (hpublished m hm)
    · exact hm'.elim (hsigned m') fun hm => List.mem_append_left _ (hpublished m' hm)
  · exact fun m hm _ => ⟨firstChain, .inl rfl, hpublished m hm⟩
  · decide +kernel

/-- Where there are no chains, the chain without records still verifies: its MAC is no secret. -/
theorem empty_chain_verifies :
    ∃ c, tryFrom new.toEvidenceChainRaw = .ok c ∧ c.verifyIntegrity taggingCrates someSecret = true
      ∧ messages taggingCrates someSecret c.records = []
      ∧ ¬∃ es ∈ (∅ : Set (List Evidence)), ∃ earlier, earlier <+: es
        ∧ (grown taggingCrates someSecret earlier).records = c.records := by
  refine ⟨_, sound_new.reload, by decide +kernel, rfl, ?_⟩
  rintro ⟨es, hes, -⟩
  exact hes

end Keyed

end EvidenceChain

end WritersProof.CpoeJitter
