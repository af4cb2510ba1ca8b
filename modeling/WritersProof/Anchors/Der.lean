/-
  WritersProof.Anchors.Der

  The reader of DER elements (crates/cpoe/src/anchors/rfc3161.rs, `Tlv` to
  `find_child_by_tag`).

  A `Tlv data` carries the bounds of its offsets in `data`, so no slice of an element can go
  out of range.  `readTlvChecked` is the source with every index and sum checked.
-/
import WritersProof.Lib.Bytes
import WritersProof.Lib.Vec
import Mathlib.Data.List.Chain

namespace WritersProof.Anchors

open Rust

/-! ## Elements -/

/-- `Tlv`, an element of `data` by its offsets -/
@[ext] structure Tlv (data : Bytes) where
  tag : UInt8
  start : Nat
  contentStart : Nat
  contentEnd : Nat
  header : start < contentStart
  ordered : contentStart ≤ contentEnd
  bounded : contentEnd ≤ data.length

namespace Tlv

variable {data : Bytes}

def content (t : Tlv data) : Bytes :=
  (data.drop t.contentStart).take (t.contentEnd - t.contentStart)

def asBytes (t : Tlv data) : Bytes := (data.drop t.start).take (t.contentEnd - t.start)

theorem start_lt_contentEnd (t : Tlv data) : t.start < t.contentEnd :=
  Nat.lt_of_lt_of_le t.header t.ordered

end Tlv

/-- `read_der_length`: the length, and how many bytes it takes -/
def readDerLength (data : Bytes) (offset : Nat) : Option (Nat × Nat) :=
  match data[offset]? with
  | none => none
  | some first =>
    if first < 0x80 then
      some (first.toNat, 1)
    else if first = 0x80 then
      none
    else
      let numBytes := (first &&& 0x7F).toNat
      if 4 < numBytes ∨ data.length < offset + 1 + numBytes then
        none
      else
        some (Bytes.ofBE ((data.drop (offset + 1)).take numBytes), 1 + numBytes)

def readTlv (data : Bytes) (offset : Nat) : Option (Tlv data) :=
  match data[offset]? with
  | none => none
  | some tag =>
    match readDerLength data (offset + 1) with
    | none => none
    | some (length, headerLen) =>
      if h : offset + 1 + headerLen + length ≤ data.length then
        some ⟨tag, offset, offset + 1 + headerLen, offset + 1 + headerLen + length,
          by omega, by omega, h⟩
      else
        none

variable {data : Bytes} {kids : List (UInt8 × Bytes)} {t parent : Tlv data} {stop pos start : Nat}
  {tag : UInt8} {content rest : Bytes}

theorem readTlv_start {offset : Nat} (h : readTlv data offset = some t) : t.start = offset := by
  rw [readTlv] at h
  split at h
  · cases h
  · split at h
    · cases h
    · split at h
      · rw [← Option.some.inj h]
      · cases h

/-- The loop of `children`, for so many elements at most -/
def childrenFrom (data : Bytes) (stop : Nat) : Nat → Nat → List (Tlv data)
  | 0, _ => []
  | fuel + 1, pos =>
    if pos < stop then
      match readTlv data pos with
      | some t => t :: childrenFrom data stop fuel t.contentEnd
      | none => []
    else
      []

def children (data : Bytes) (start stop : Nat) : List (Tlv data) :=
  childrenFrom data stop (stop - start) start

def childrenOf {data : Bytes} (t : Tlv data) : List (Tlv data) :=
  children data t.contentStart t.contentEnd

def findChildByTag {data : Bytes} (parent : Tlv data) (tag : UInt8) : Option (Tlv data) :=
  (childrenOf parent).find? (fun c => c.tag = tag)

/-- An element ends behind where it starts, so a byte of the range for each is enough. -/
theorem childrenFrom_eq (data : Bytes) {fuel : Nat} (h : stop - pos ≤ fuel) :
    childrenFrom data stop fuel pos = children data pos stop := by
  induction fuel using Nat.strongRecOn generalizing pos with
  | ind fuel ih =>
    by_cases hpos : pos < stop
    · obtain ⟨fuel, rfl⟩ : ∃ k, fuel = k + 1 := ⟨fuel - 1, by omega⟩
      obtain ⟨range, hrange⟩ : ∃ k, stop - pos = k + 1 := ⟨stop - pos - 1, by omega⟩
      rw [children, hrange, childrenFrom, childrenFrom, if_pos hpos, if_pos hpos]
      cases ht : readTlv data pos with
      | none => rfl
      | some t =>
        have hstart := readTlv_start ht
        have hend := t.start_lt_contentEnd
        simp only
        rw [ih fuel (by omega) (by omega), ih range (by omega) (by omega)]
    · have hzero : stop - pos = 0 := by omega
      rw [children, hzero, childrenFrom]
      cases fuel with
      | zero => rfl
      | succ fuel => rw [childrenFrom, if_neg hpos]

theorem children_eq (data : Bytes) (pos stop : Nat) :
    children data pos stop =
      if pos < stop then
        match readTlv data pos with
        | some t => t :: children data t.contentEnd stop
        | none => []
      else [] := by
  rw [← childrenFrom_eq data (Nat.le_succ (stop - pos)), childrenFrom]
  split
  · cases ht : readTlv data pos with
    | none => rfl
    | some t =>
      have hstart := readTlv_start ht
      have hend := t.start_lt_contentEnd
      simp only
      rw [childrenFrom_eq data (by omega)]
  · rfl

theorem children_of_not_lt (h : ¬ pos < stop) : children data pos stop = [] := by
  rw [children_eq, if_neg h]

theorem children_of_readTlv (h : pos < stop) (ht : readTlv data pos = some t) :
    children data pos stop = t :: children data t.contentEnd stop := by
  rw [children_eq, if_pos h, ht]

/-! ## Where siblings lie -/

/-- The positions at which `children` reads an element -/
inductive Visits (data : Bytes) (start stop : Nat) : Nat → Prop where
  | first (h : start < stop) : Visits data start stop start
  | next {pos : Nat} {t : Tlv data} (h : Visits data start stop pos)
      (ht : readTlv data pos = some t)
      (hlt : t.contentEnd < stop) : Visits data start stop t.contentEnd

/-- One of the headers that are read declares a length beyond the end of the range. -/
def Overruns (data : Bytes) (start stop : Nat) : Prop :=
  ∃ pos t, Visits data start stop pos ∧ readTlv data pos = some t ∧ stop < t.contentEnd

/-- The element lies within a range of the buffer. -/
def Tlv.Within {data : Bytes} (t : Tlv data) (start stop : Nat) : Prop :=
  start ≤ t.start ∧ t.contentEnd ≤ stop

theorem Visits.lt (h : Visits data start stop pos) : start ≤ pos ∧ pos < stop := by
  induction h with
  | first h => exact ⟨Nat.le_refl _, h⟩
  | next h ht hlt ih =>
    rename_i pos t
    have hstart := readTlv_start ht
    have hend := t.start_lt_contentEnd
    exact ⟨by omega, hlt⟩

theorem Visits.cons {data : Bytes} {start stop pos : Nat} {t : Tlv data} (hlt : start < stop)
    (ht : readTlv data start = some t) (h : Visits data t.contentEnd stop pos) :
    Visits data start stop pos := by
  induction h with
  | first h => exact .next (.first hlt) ht h
  | next _ ht' hlt' ih => exact .next ih ht' hlt'

theorem Visits.cases_first (h : Visits data start stop pos) :
    pos = start ∨ ∃ t, readTlv data start = some t ∧ Visits data t.contentEnd stop pos := by
  induction h with
  | first h => exact .inl rfl
  | next h ht hlt ih =>
    rename_i pos t
    rcases ih with rfl | ⟨t₀, ht₀, h₀⟩
    · exact .inr ⟨t, ht, .first hlt⟩
    · exact .inr ⟨t₀, ht₀, .next h₀ ht hlt⟩

/-- The elements are those read at the positions that are visited. -/
theorem mem_children_iff :
    t ∈ children data start stop
      ↔ ∃ pos, Visits data start stop pos ∧ readTlv data pos = some t := by
  induction hn : stop - start using Nat.strongRecOn generalizing start with
  | ind n ih =>
    by_cases hlt : start < stop
    · cases ht₀ : readTlv data start with
      | none =>
        rw [children_eq, if_pos hlt, ht₀]
        refine ⟨fun h => absurd h List.not_mem_nil, ?_⟩
        rintro ⟨pos, hpos, ht⟩
        rcases hpos.cases_first with rfl | ⟨t₀, ht₀', -⟩
        · rw [ht₀] at ht
          cases ht
        · rw [ht₀] at ht₀'
          cases ht₀'
      | some t₀ =>
        have hstart := readTlv_start ht₀
        have hend := t₀.start_lt_contentEnd
        have ih' := ih (stop - t₀.contentEnd) (by omega) rfl
        rw [children_of_readTlv hlt ht₀, List.mem_cons, ih']
        constructor
        · rintro (rfl | ⟨pos, hpos, ht⟩)
          · exact ⟨start, .first hlt, ht₀⟩
          · exact ⟨pos, hpos.cons hlt ht₀, ht⟩
        · rintro ⟨pos, hpos, ht⟩
          rcases hpos.cases_first with rfl | ⟨t₁, ht₁, h⟩
          · rw [ht₀] at ht
            exact .inl (Option.some.inj ht).symm
          · rw [ht₀] at ht₁
            rw [← Option.some.inj ht₁] at h
            exact .inr ⟨pos, h, ht⟩
    · rw [children_of_not_lt hlt]
      refine ⟨fun h => absurd h List.not_mem_nil, ?_⟩
      rintro ⟨pos, hpos, -⟩
      exact absurd (Nat.lt_of_le_of_lt hpos.lt.1 hpos.lt.2) hlt

/-- Siblings follow each other without a gap. -/
theorem children_chain (data : Bytes) (start stop : Nat) :
    (children data start stop).IsChain (fun a b => a.contentEnd = b.start) := by
  induction hn : stop - start using Nat.strongRecOn generalizing start with
  | ind n ih =>
    by_cases hlt : start < stop
    · cases ht : readTlv data start with
      | none =>
        rw [children_eq, if_pos hlt, ht]
        exact .nil
      | some t =>
        have hstart := readTlv_start ht
        have hend := t.start_lt_contentEnd
        have hchain := ih (stop - t.contentEnd) (by omega) t.contentEnd rfl
        rw [children_of_readTlv hlt ht]
        refine List.IsChain.cons hchain ?_
        intro u hu
        obtain ⟨rest, hrest⟩ := List.head?_eq_some_iff.mp hu
        rw [children_eq] at hrest
        split at hrest
        · split at hrest
          · rename_i next hnext
            rw [← (List.cons.inj hrest).1]
            exact (readTlv_start hnext).symm
          · cases hrest
        · cases hrest
    · rw [children_of_not_lt hlt]
      exact .nil

theorem children_pairwise (data : Bytes) (start stop : Nat) :
    (children data start stop).Pairwise (fun a b => a.contentEnd ≤ b.start) := by
  have htrans : Trans (fun a b : Tlv data => a.contentEnd ≤ b.start)
      (fun a b : Tlv data => a.contentEnd ≤ b.start)
        (fun a b : Tlv data => a.contentEnd ≤ b.start) :=
    ⟨fun {a b c} hab hbc => Nat.le_trans hab (Nat.le_trans b.start_lt_contentEnd.le hbc)⟩
  apply List.IsChain.pairwise
  exact (children_chain data start stop).imp (fun _ _ h => Nat.le_of_eq h)

/-- Nothing but the buffer bounds an element, so one is out of its parent just when its header
says so. -/
theorem children_contained_iff (data : Bytes) (start stop : Nat) :
    (∀ t ∈ children data start stop, t.Within start stop) ↔ ¬ Overruns data start stop := by
  constructor
  · rintro h ⟨pos, t, hpos, ht, hover⟩
    have hin := h t (mem_children_iff.mpr ⟨pos, hpos, ht⟩)
    exact absurd hin.2 (Nat.not_le.mpr hover)
  · intro h t ht
    obtain ⟨pos, hpos, ht⟩ := mem_children_iff.mp ht
    refine ⟨?_, ?_⟩
    · rw [readTlv_start ht]
      exact hpos.lt.1
    · by_contra hover
      exact h ⟨pos, t, hpos, ht, Nat.not_le.mp hover⟩

/-! ## Elements that were written -/

def der (tag : UInt8) (content : Bytes) : Bytes := tag :: UInt8.ofNat content.length :: content

/-- Elements one after the other -/
def derAll (kids : List (UInt8 × Bytes)) : Bytes := kids.flatMap fun kid => der kid.1 kid.2

/-- What an element says, wherever it lies -/
def Tlv.view {data : Bytes} (t : Tlv data) : UInt8 × Bytes := (t.tag, t.content)

theorem length_der (tag : UInt8) (content : Bytes) :
    (der tag content).length = content.length + 2 := rfl

theorem length_le_derAll {kid : UInt8 × Bytes} (h : kid ∈ kids) :
    kid.2.length ≤ (derAll kids).length := by
  obtain ⟨before, after, rfl⟩ := List.append_of_mem h
  rw [derAll, List.flatMap_append, List.flatMap_cons, List.length_append, List.length_append,
    length_der]
  omega

theorem readTlv_der (h : data.drop pos = der tag content ++ rest) (hlen : content.length < 0x80) :
    ∃ t, readTlv data pos = some t ∧ t.contentEnd = pos + (der tag content).length ∧
      t.view = (tag, content) := by
  have hbyte : ∀ i, data[pos + i]? = (der tag content ++ rest)[i]? := by
    intro i
    rw [← h, List.getElem?_drop]
  have htag : data[pos]? = some tag := hbyte 0
  have hlength : data[pos + 1]? = some (UInt8.ofNat content.length) := hbyte 1
  have hcontent : data.drop (pos + 2) = content ++ rest := by
    rw [← List.drop_drop, h]
    rfl
  have htoNat : (UInt8.ofNat content.length).toNat = content.length := by
    rw [UInt8.toNat_ofNat', Nat.mod_eq_of_lt (by omega)]
  have hshort : UInt8.ofNat content.length < 0x80 := by
    rw [UInt8.lt_iff_toNat_lt, htoNat]
    exact hlen
  have hfit : pos + 1 + 1 + content.length ≤ data.length := by
    have hdrop := congrArg List.length hcontent
    have hpos := (List.getElem?_eq_some_iff.mp hlength).1
    rw [List.length_drop, List.length_append] at hdrop
    omega
  refine ⟨⟨tag, pos, pos + 1 + 1, pos + 1 + 1 + content.length, by omega, by omega, hfit⟩,
    ?_, ?_, ?_⟩
  · rw [readTlv, htag]
    simp only
    rw [readDerLength, hlength]
    simp only
    rw [if_pos hshort, htoNat]
    simp only
    rw [dif_pos hfit]
  · rw [length_der]
    show pos + 1 + 1 + content.length = pos + (content.length + 2)
    omega
  · show (tag, (data.drop (pos + 2)).take (pos + 2 + content.length - (pos + 2))) = _
    rw [hcontent, Nat.add_sub_cancel_left, List.take_left]

theorem readTlv_der_zero (tag : UInt8) (hlen : content.length < 0x80) :
    ∃ t, readTlv (der tag content) 0 = some t ∧ t.tag = tag ∧ t.content = content := by
  have hdrop : (der tag content).drop 0 = der tag content ++ [] := by
    rw [List.drop_zero, List.append_nil]
  obtain ⟨t, ht, -, hview⟩ := readTlv_der hdrop hlen
  exact ⟨t, ht, congrArg Prod.fst hview, congrArg Prod.snd hview⟩

/-- A range that was filled with short elements has these elements as its children. -/
theorem children_derAll (h : data.drop pos = derAll kids ++ rest)
    (hstop : stop = pos + (derAll kids).length) (hlen : ∀ kid ∈ kids, kid.2.length < 0x80) :
    (children data pos stop).map Tlv.view = kids := by
  induction kids generalizing pos with
  | nil =>
    rw [derAll, List.flatMap_nil, List.length_nil, Nat.add_zero] at hstop
    rw [hstop, children_of_not_lt (Nat.lt_irrefl _)]
    rfl
  | cons kid kids ih =>
    rw [List.forall_mem_cons] at hlen
    rw [derAll, List.flatMap_cons] at h hstop
    rw [List.append_assoc] at h
    obtain ⟨t, ht, hend, hview⟩ := readTlv_der h hlen.1
    rw [List.length_append] at hstop
    have hpos : pos < stop := by
      rw [hstop, length_der]
      omega
    have hnext : data.drop t.contentEnd = derAll kids ++ rest := by
      rw [hend, ← List.drop_drop, h, List.drop_left]
      rfl
    have htail : stop = t.contentEnd + (derAll kids).length := by
      rw [hstop, hend, derAll]
      omega
    rw [children_of_readTlv hpos ht, List.map_cons, hview, ih hnext htail hlen.2]

theorem childrenOf_derAll (h : parent.content = derAll kids)
    (hlen : ∀ kid ∈ kids, kid.2.length < 0x80) :
    (childrenOf parent).map Tlv.view = kids := by
  have hlength : parent.contentEnd = parent.contentStart + (derAll kids).length := by
    have hcontent := congrArg List.length h
    have hordered := parent.ordered
    have hbounded := parent.bounded
    rw [Tlv.content, List.length_take, List.length_drop] at hcontent
    omega
  apply children_derAll _ hlength hlen
  · exact data.drop parent.contentEnd
  · rw [← h, Tlv.content]
    have hsplit := List.take_append_drop (parent.contentEnd - parent.contentStart)
      (data.drop parent.contentStart)
    rw [List.drop_drop, Nat.add_sub_cancel' parent.ordered] at hsplit
    exact hsplit.symm

theorem childrenOf_der (h : parent.content = der tag content) (hlen : content.length < 0x80) :
    ∃ t, childrenOf parent = [t] ∧ t.tag = tag ∧ t.content = content := by
  have hall : derAll [(tag, content)] = der tag content := List.append_nil _
  have hview : (childrenOf parent).map Tlv.view = [(tag, content)] :=
    childrenOf_derAll (h.trans hall.symm) (List.forall_mem_singleton.mpr hlen)
  obtain ⟨t, ht, hview⟩ := List.map_eq_singleton_iff.mp hview
  exact ⟨t, ht, congrArg Prod.fst hview, congrArg Prod.snd hview⟩

/-! ## Every index and sum checked -/

section Checked

variable {ε : Type}

/-- The loop of `read_der_length` from its byte `i` on -/
def lengthFrom (data : Bytes) (offset : Nat) : Nat → Nat → Nat → Res ε (Option Nat)
  | 0, _, length => .ok (some length)
  | left + 1, i, length => do
    let first ← unwrap (checkedAdd offset 1)
    let byte ← index data (← unwrap (checkedAdd first i))
    match checkedAdd (length * 256 % 2 ^ 64) byte.toNat with
    | some length => lengthFrom data offset left (i + 1) length
    | none => .ok none

def readDerLengthChecked (data : Bytes) (offset : Nat) : Res ε (Option (Nat × Nat)) :=
  if data.length ≤ offset then
    .ok none
  else do
    let first ← index data offset
    if first < 0x80 then
      .ok (some (first.toNat, 1))
    else if first = 0x80 then
      .ok none
    else do
      let numBytes := (first &&& 0x7F).toNat
      if 4 < numBytes then
        .ok none
      else do
        let upto ← unwrap (checkedAdd (← unwrap (checkedAdd offset 1)) numBytes)
        if data.length < upto then
          .ok none
        else do
          match ← lengthFrom data offset numBytes 0 0 with
          | some length => .ok (some (length, 1 + numBytes))
          | none => .ok none

def readTlvChecked (data : Bytes) (offset : Nat) : Res ε (Option (UInt8 × Nat × Nat × Nat)) :=
  if data.length ≤ offset then
    .ok none
  else do
    let tag ← index data offset
    match checkedAdd offset 1 with
    | none => .ok none
    | some lengthOffset =>
      match ← readDerLengthChecked data lengthOffset with
      | none => .ok none
      | some (length, headerLen) =>
        match checkedAdd lengthOffset headerLen with
        | none => .ok none
        | some contentStart =>
          match checkedAdd contentStart length with
          | none => .ok none
          | some contentEnd =>
            if data.length < contentEnd then
              .ok none
            else
              .ok (some (tag, offset, contentStart, contentEnd))

theorem lengthFrom_eq {offset left i length : Nat} (hdata : data.length < 2 ^ 63)
    (hi : i + left ≤ 4) (hlen : length < 256 ^ i) (hin : offset + 1 + i + left ≤ data.length) :
    lengthFrom (ε := ε) data offset left i length =
      .ok (some (length * 256 ^ left + Bytes.ofBE ((data.drop (offset + 1 + i)).take left))) := by
  induction left generalizing i length with
  | zero => simp [lengthFrom, Bytes.ofBE]
  | succ left ih =>
    have hlt : offset + 1 + i < data.length := by omega
    have hpow : 256 ^ i * 256 ≤ 256 ^ 4 := by
      rw [← Nat.pow_succ]
      exact Nat.pow_le_pow_right (by decide) (by omega)
    have hbyte := (data[offset + 1 + i]).toNat_lt
    have hmod : length * 256 % 2 ^ 64 = length * 256 := Nat.mod_eq_of_lt (by omega)
    have hnext : length * 256 + (data[offset + 1 + i]).toNat < 256 ^ (i + 1) := by
      rw [Nat.pow_succ]
      omega
    have htail : (data.drop (offset + 1 + i)).take (left + 1) =
        data[offset + 1 + i] :: (data.drop (offset + 1 + (i + 1))).take left := by
      rw [List.drop_eq_getElem_cons hlt, List.take_succ_cons, Nat.add_assoc _ i 1]
    have htake : ((data.drop (offset + 1 + (i + 1))).take left).length = left := by
      rw [List.length_take, List.length_drop]
      omega
    rw [lengthFrom, checkedAdd_eq_some (by omega), unwrap_some, res_ok_bind,
      checkedAdd_eq_some (by omega), unwrap_some, res_ok_bind, index,
      List.getElem?_eq_getElem hlt, unwrap_some, res_ok_bind, hmod, checkedAdd_eq_some (by omega)]
    simp only
    rw [ih (by omega) hnext (by omega), htail, Bytes.ofBE, htake, Nat.pow_succ]
    congr 2
    ring

/-- On a slice that fits into memory no sum overflows and no index is out of range. -/
theorem readDerLengthChecked_eq (offset : Nat) (hdata : data.length < 2 ^ 63) :
    readDerLengthChecked (ε := ε) data offset = .ok (readDerLength data offset) := by
  rw [readDerLengthChecked, readDerLength]
  by_cases hin : data.length ≤ offset
  · rw [if_pos hin, List.getElem?_eq_none hin]
  · rw [if_neg hin]
    have hlt : offset < data.length := Nat.not_le.mp hin
    rw [index, List.getElem?_eq_getElem hlt, unwrap_some, res_ok_bind]
    simp only
    generalize data[offset] = first
    by_cases hshort : first < 0x80
    · rw [if_pos hshort, if_pos hshort]
    rw [if_neg hshort, if_neg hshort]
    by_cases hindef : first = 0x80
    · rw [if_pos hindef, if_pos hindef]
    rw [if_neg hindef, if_neg hindef]
    by_cases hmany : 4 < (first &&& 0x7F).toNat
    · rw [if_pos hmany, if_pos (.inl hmany)]
    rw [if_neg hmany, checkedAdd_eq_some (by omega), unwrap_some, res_ok_bind,
      checkedAdd_eq_some (by omega), unwrap_some, res_ok_bind]
    by_cases hfit : data.length < offset + 1 + (first &&& 0x7F).toNat
    · rw [if_pos hfit, if_pos (.inr hfit)]
    rw [if_neg hfit, if_neg (not_or.mpr ⟨hmany, hfit⟩),
      lengthFrom_eq hdata (by omega) (by decide) (by omega), res_ok_bind]
    simp

/-- A length takes five bytes at most and says less than `2 ^ 32`. -/
theorem readDerLength_lt {offset length headerLen : Nat}
    (h : readDerLength data offset = some (length, headerLen)) :
    length < 2 ^ 32 ∧ headerLen ≤ 5 := by
  rw [readDerLength] at h
  split at h
  · cases h
  · rename_i first _
    split at h
    · cases h
      have := first.toNat_lt
      omega
    · split at h
      · cases h
      · simp only at h
        split at h
        · cases h
        · rename_i hbounds
          cases h
          have hpow : 256 ^ (first &&& 0x7F).toNat ≤ 256 ^ 4 :=
            Nat.pow_le_pow_right (by decide) (by omega)
          have hlt := Bytes.ofBE_take_lt (data.drop (offset + 1)) (first &&& 0x7F).toNat
          omega

/-- On any slice that fits into memory it never aborts, and reads the same elements as `readTlv`. -/
theorem readTlvChecked_eq (offset : Nat) (hdata : data.length < 2 ^ 63) :
    readTlvChecked (ε := ε) data offset =
      .ok ((readTlv data offset).map fun t => (t.tag, t.start, t.contentStart, t.contentEnd)) := by
  rw [readTlvChecked, readTlv]
  by_cases hin : data.length ≤ offset
  · rw [if_pos hin, List.getElem?_eq_none hin]
    rfl
  · rw [if_neg hin]
    have hlt : offset < data.length := Nat.not_le.mp hin
    rw [index, List.getElem?_eq_getElem hlt, unwrap_some, res_ok_bind,
      checkedAdd_eq_some (by omega)]
    simp only
    rw [readDerLengthChecked_eq (offset + 1) hdata, res_ok_bind]
    cases hlen : readDerLength data (offset + 1) with
    | none => rfl
    | some read =>
      obtain ⟨length, headerLen⟩ := read
      have hsmall := readDerLength_lt hlen
      simp only
      rw [checkedAdd_eq_some (by omega)]
      simp only
      rw [checkedAdd_eq_some (by omega)]
      by_cases hfit : offset + 1 + headerLen + length ≤ data.length
      · simp only
        rw [if_neg (Nat.not_lt.mpr hfit), dif_pos hfit]
        rfl
      · simp only
        rw [if_pos (Nat.not_le.mp hfit), dif_neg hfit]
        rfl

end Checked

end WritersProof.Anchors
