/-
  The bytes of headers, entries and frames (crates/cpoe/src/wal/serialization.rs).

  Integers on disk are big-endian.  An entry reads back from its encoding, also
  when other bytes follow it in the same frame.
-/
import WritersProof.Lib.Reader
import WritersProof.Wal.Types

namespace WritersProof.Wal

open Rust Reader Bytes

/-- `now_nanos`, for what the system clock shows: nanoseconds since the epoch,
    or nothing before it. -/
def nowNanos (clock : Option Nat) : Int :=
  let nanos := clock.getD 0
  if nanos < 2 ^ 63 then nanos else 2 ^ 63 - 1

theorem nowNanos_nonneg (clock : Option Nat) : 0 ≤ nowNanos clock := by
  unfold nowNanos
  dsimp only
  split <;> omega

theorem nowNanos_lt (clock : Option Nat) : nowNanos clock < 2 ^ 63 := by
  unfold nowNanos
  dsimp only
  split <;> omega

/-! ## Headers -/

def serializeHeader (header : Header) : Bytes :=
  header.magic.val ++ toBE 4 header.version ++ header.sessionId.val
    ++ toBE 8 (ofInt 8 header.createdAt) ++ toBE 8 header.lastCheckpointSeq
    ++ header.reserved.val

/-- The fields after the length check. -/
def readHeader : Reader WalError Header := do
  let magic ← fixed 4
  let version ← be 4
  let sessionId ← fixed 32
  let createdAt ← be 8
  let lastCheckpointSeq ← be 8
  let reserved ← fixed 8
  pure { magic, version, sessionId, createdAt := toInt 8 createdAt, lastCheckpointSeq,
         reserved }

def deserializeHeader (data : Bytes) : Res WalError Header :=
  if data.length < headerSize then fail (.serialization "header too short")
  else readHeader.run data

@[simp] theorem length_serializeHeader (header : Header) :
    (serializeHeader header).length = headerSize := by
  simp [serializeHeader, headerSize]

/-- The fields are in the range of their machine types. -/
structure Header.Fits (header : Header) : Prop where
  version : header.version < 2 ^ 32
  createdAt_ge : -(2 ^ 63) ≤ header.createdAt
  createdAt_lt : header.createdAt < 2 ^ 63
  lastCheckpointSeq : header.lastCheckpointSeq < 2 ^ 64

open Reader in
theorem reads_header {header : Header} (h : header.Fits) :
    Reads readHeader (serializeHeader header) header := by
  have hcreated : toInt 8 (ofInt 8 header.createdAt) = header.createdAt := by
    have hge := h.createdAt_ge
    have hlt := h.createdAt_lt
    exact toInt_ofInt (by omega) (by omega)
  have hlast : Reads (ε := WalError) (fixed 8 >>= fun reserved => pure { header with
      createdAt := toInt 8 (ofInt 8 header.createdAt), reserved := reserved })
      header.reserved.val header := by
    have := (reads_fixed (ε := WalError) header.reserved).bind
      (f := fun reserved => pure { header with reserved := reserved }) (reads_pure header)
    rw [hcreated]
    rwa [List.append_nil] at this
  unfold readHeader serializeHeader
  simp only [List.append_assoc]
  refine (reads_fixed _).bind ((reads_be h.version).bind ((reads_fixed _).bind ?_))
  exact (reads_be (ofInt_lt 8 _)).bind ((reads_be h.lastCheckpointSeq).bind hlast)

theorem deserializeHeader_serializeHeader {header : Header} (h : header.Fits) :
    deserializeHeader (serializeHeader header) = .ok header := by
  rw [deserializeHeader, if_neg (by simp), (reads_header h).run_eq]

/-! ## Entries -/

/-- The bytes of an entry around its payload. -/
def entryOverhead : Nat := 8 + 8 + 1 + 4 + 32 + 32 + 64

def serializeEntry (entry : Entry) : Res WalError Bytes :=
  let payloadLen := entry.payload.length
  if 2 ^ 32 - 1 < payloadLen then
    fail (.serialization s!"payload too large: {payloadLen} bytes exceeds u32::MAX")
  else
    .ok (toBE 8 entry.sequence ++ toBE 8 (ofInt 8 entry.timestamp)
      ++ [entry.entryType.toByte] ++ toBE 4 payloadLen ++ entry.payload
      ++ entry.prevHash.val ++ entry.cumulativeHash.val ++ entry.signature.val)

/-- The fields after the first length check. -/
def readEntry : Reader WalError Entry := do
  let sequence ← be 8
  let timestamp ← be 8
  let typeByte ← byte
  let entryType ← lift (EntryType.tryFrom typeByte)
  let payloadLen ← be 4
  need (payloadLen + 32 + 32 + 64) (.serialization "entry truncated")
  let payload ← take payloadLen
  let prevHash ← fixed 32
  let cumulativeHash ← fixed 32
  let signature ← fixed 64
  pure { length := entryOverhead + payloadLen, sequence, timestamp := toInt 8 timestamp,
         entryType, payload, prevHash, cumulativeHash, signature }

def deserializeEntry (data : Bytes) : Res WalError Entry :=
  if data.length < entryOverhead then fail (.serialization "entry too short")
  else readEntry.run data

def entryBytes (entry : Entry) : Bytes :=
  toBE 8 entry.sequence ++ toBE 8 (ofInt 8 entry.timestamp)
    ++ [entry.entryType.toByte] ++ toBE 4 entry.payload.length ++ entry.payload
    ++ entry.prevHash.val ++ entry.cumulativeHash.val ++ entry.signature.val

@[simp] theorem length_entryBytes (entry : Entry) :
    (entryBytes entry).length = entryOverhead + entry.payload.length := by
  simp [entryBytes, entryOverhead]
  omega

theorem serializeEntry_eq {entry : Entry} (h : entry.payload.length < 2 ^ 32) :
    serializeEntry entry = .ok (entryBytes entry) := by
  rw [serializeEntry, if_neg (by omega)]
  rfl

theorem serializeEntry_of_le {entry : Entry} (h : 2 ^ 32 ≤ entry.payload.length) :
    ∃ text, serializeEntry entry = fail (.serialization text) := by
  rw [serializeEntry, if_pos (by omega)]
  exact ⟨_, rfl⟩

open Reader in
theorem reads_entry {entry : Entry} (h : entry.Fits) :
    Reads readEntry (entryBytes entry)
      { entry with length := entryOverhead + entry.payload.length } := by
  have htime : toInt 8 (ofInt 8 entry.timestamp) = entry.timestamp := by
    have hge := h.timestamp_ge
    have hlt := h.timestamp_lt
    exact toInt_ofInt (by omega) (by omega)
  have hlast : Reads (ε := WalError) (fixed 64 >>= fun signature => pure { entry with
      length := entryOverhead + entry.payload.length
      timestamp := toInt 8 (ofInt 8 entry.timestamp), signature := signature })
      entry.signature.val { entry with length := entryOverhead + entry.payload.length } := by
    have := (reads_fixed (ε := WalError) entry.signature).bind
      (f := fun signature => pure { entry with
        length := entryOverhead + entry.payload.length, signature := signature }) (reads_pure _)
    rw [htime]
    rwa [List.append_nil] at this
  have htype : Reads (lift (EntryType.tryFrom entry.entryType.toByte)) []
      entry.entryType := by
    rw [EntryType.tryFrom_toByte]
    exact reads_pure _
  unfold readEntry entryBytes
  simp only [List.append_assoc]
  refine (reads_be h.sequence).bind ((reads_be (ofInt_lt 8 _)).bind ((reads_byte _).bind ?_))
  refine htype.bind ((reads_be h.payload).bind (Reads.need ?_ (by simp)))
  exact (reads_take rfl).bind ((reads_fixed _).bind ((reads_fixed _).bind hlast))

theorem deserializeEntry_entryBytes {entry : Entry} (h : entry.Fits) :
    deserializeEntry (entryBytes entry)
      = .ok { entry with length := entryOverhead + entry.payload.length } := by
  rw [deserializeEntry, if_neg (by simp), (reads_entry h).run_eq]

/-- How decoding ends: with one of two errors, or with an entry whose encoding the data start
    with. -/
theorem deserializeEntry_cases (data : Bytes) :
    (∃ text, deserializeEntry data = fail (.serialization text))
      ∨ (∃ value, deserializeEntry data = fail (.invalidEntryType value))
      ∨ ∃ entry, deserializeEntry data = .ok entry ∧ entry.Fits
        ∧ entryOverhead + entry.payload.length ≤ data.length
        ∧ entryBytes entry = data.take (entryOverhead + entry.payload.length) := by
  rw [deserializeEntry]
  by_cases hshort : data.length < entryOverhead
  · rw [if_pos hshort]
    exact .inl ⟨_, rfl⟩
  · rw [if_neg hshort]
    unfold entryOverhead at hshort
    simp only [run, readEntry, bind_apply]
    rw [be_of_le (by omega), res_ok_bind, be_of_le (by omega), res_ok_bind,
      byte_of_lt (by omega), res_ok_bind]
    cases htype : EntryType.tryFrom data[0 + 8 + 8] with
    | error e =>
      rw [EntryType.tryFrom_error htype]
      exact .inr (.inl ⟨_, rfl⟩)
    | ok entryType =>
      rw [lift, res_ok_bind, res_ok_bind, be_of_le (by omega), res_ok_bind]
      dsimp only
      -- the length of the payload is what the rest must have room for
      have hlen := toBE_ofBE_slice data (a := 0 + 8 + 8 + 1) (w := 4) (by omega)
      generalize hpayload : ofBE ((data.drop (0 + 8 + 8 + 1)).take 4) = payloadLen at hlen ⊢
      have hlt : payloadLen < 2 ^ 32 := by
        rw [← hpayload]
        exact ofBE_take_lt _ 4
      by_cases hroom : 0 + 8 + 8 + 1 + 4 + (payloadLen + 32 + 32 + 64) > data.length
      · rw [need, if_pos hroom]
        exact .inl ⟨_, rfl⟩
      · obtain ⟨prevHash, hprev, hprevVal⟩ := @fixed_of_le WalError data
          (0 + 8 + 8 + 1 + 4 + payloadLen) 32 (by omega)
        obtain ⟨cumulativeHash, hcum, hcumVal⟩ := @fixed_of_le WalError data
          (0 + 8 + 8 + 1 + 4 + payloadLen + 32) 32 (by omega)
        obtain ⟨signature, hsig, hsigVal⟩ := @fixed_of_le WalError data
          (0 + 8 + 8 + 1 + 4 + payloadLen + 32 + 32) 64 (by omega)
        rw [need, if_neg hroom, res_ok_bind, take_of_le (by omega), res_ok_bind,
          hprev, res_ok_bind, hcum, res_ok_bind, hsig, res_ok_bind]
        have hpayloadLength : ((data.drop (0 + 8 + 8 + 1 + 4)).take payloadLen).length
            = payloadLen := by
          rw [List.length_take, List.length_drop]
          omega
        have htimestamp := ofBE_take_lt (data.drop (0 + 8)) 8
        obtain ⟨hlo, hhi⟩ := toInt_range htimestamp
        refine .inr (.inr ⟨_, rfl, ⟨ofBE_take_lt _ 8, ?_, ?_, ?_⟩, ?_, ?_⟩)
        · exact Int.le_of_mul_le_mul_left hlo (by decide)
        · exact Int.lt_of_mul_lt_mul_left hhi (by decide)
        · rw [hpayloadLength]
          exact hlt
        · rw [hpayloadLength, entryOverhead]
          omega
        · -- the fields are neighbouring slices of the data
          dsimp only [entryBytes]
          have hbyte : [data[0 + 8 + 8]] = (data.drop (0 + 8 + 8)).take 1 := by
            rw [List.drop_eq_getElem_cons (by omega), List.take_succ_cons, List.take_zero]
          have hsplit : entryOverhead + payloadLen
              = 0 + 8 + 8 + 1 + 4 + payloadLen + 32 + 32 + 64 := by
            unfold entryOverhead
            omega
          rw [hpayloadLength, hprevVal, hcumVal, hsigVal, ofInt_toInt htimestamp,
            toBE_ofBE_slice data (by omega), toBE_ofBE_slice data (by omega), hlen,
            EntryType.toByte_of_tryFrom htype, hbyte, hsplit]
          simp only [List.take_add, Nat.zero_add, List.drop_zero]

theorem entryBytes_of_deserialize {data : Bytes} {entry : Entry}
    (h : deserializeEntry data = .ok entry) :
    entry.Fits ∧ entryBytes entry = data.take (entryOverhead + entry.payload.length) := by
  obtain ⟨text, hfail⟩ | ⟨value, hfail⟩ | ⟨entry', hok, hfits, -, hbytes⟩ :=
    deserializeEntry_cases data
  · rw [hfail] at h
    cases h
  · rw [hfail] at h
    cases h
  · obtain rfl := Except.ok.inj (hok.symm.trans h)
    exact ⟨hfits, hbytes⟩

end WritersProof.Wal
