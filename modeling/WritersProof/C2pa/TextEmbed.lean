/-
  WritersProof.C2pa.TextEmbed

  The carrier of a manifest in plain text
  (crates/authorproof-protocol/src/c2pa/text_embed.rs): a zero-width no-break space and
  one variation selector for each byte, wrapperWith to a length that depends on the size of
  the manifest only.
-/
import WritersProof.Lib.Text

namespace WritersProof.C2pa

open Text

/-- "C2PATXT\0" -/
def MAGIC : Bytes := [0x43, 0x32, 0x50, 0x41, 0x54, 0x58, 0x54, 0x00]

def VERSION : UInt8 := 1

/-- magic + version + manifestLength -/
def HEADER_SIZE : Nat := 8 + 1 + 4

/-- Zero-width no-break space. -/
def ZWNBSP : Char := '\uFEFF'

/-! ## Variation selectors -/

def byteToVariationSelector (b : UInt8) : Char :=
  if b ≤ 15 then Char.ofNat (0xFE00 + b.toNat) else Char.ofNat (0xE0100 + (b.toNat - 16))

def variationSelectorToByte (c : Char) : Option UInt8 :=
  let cp := c.toNat
  if 0xFE00 ≤ cp ∧ cp ≤ 0xFE0F then some (UInt8.ofNat (cp - 0xFE00))
  else if 0xE0100 ≤ cp ∧ cp ≤ 0xE01EF then some (UInt8.ofNat (cp - 0xE0100) + 16)
  else none

def encodeBytesAsVs (bytes : Bytes) : List Char := bytes.map byteToVariationSelector

/-- Characters that do not render. -/
def Invisible (c : Char) : Prop := c = ZWNBSP ∨ (variationSelectorToByte c).isSome = true

instance (c : Char) : Decidable (Invisible c) := inferInstanceAs (Decidable (_ ∨ _))

/-- A property of bytes that holds of the numbers below 256. -/
theorem forall_byte {p : UInt8 → Prop} (h : ∀ n < 256, p (UInt8.ofNat n)) (b : UInt8) : p b := by
  have hb := h b.toNat b.toNat_lt
  rwa [UInt8.ofNat_toNat] at hb

theorem variationSelectorToByte_byteToVariationSelector (b : UInt8) :
    variationSelectorToByte (byteToVariationSelector b) = some b :=
  forall_byte (p := fun b => variationSelectorToByte (byteToVariationSelector b) = some b)
    (by decide +kernel) b

theorem invisible_byteToVariationSelector (b : UInt8) : Invisible (byteToVariationSelector b) := by
  refine .inr ?_
  rw [variationSelectorToByte_byteToVariationSelector]
  rfl

theorem utf8Size_byteToVariationSelector (b : UInt8) :
    (byteToVariationSelector b).utf8Size = if b ≤ 15 then 3 else 4 :=
  forall_byte (p := fun b => (byteToVariationSelector b).utf8Size = if b ≤ 15 then 3 else 4)
    (by decide +kernel) b

theorem length_encodeBytesAsVs (bs : Bytes) :
    (bytes (encodeBytesAsVs bs)).length + bs.countP (· ≤ 15) = 4 * bs.length := by
  induction bs with
  | nil => rfl
  | cons b bs ih =>
    have hcons : encodeBytesAsVs (b :: bs) = byteToVariationSelector b :: encodeBytesAsVs bs := rfl
    rw [hcons, length_bytes_cons, utf8Size_byteToVariationSelector, List.countP_cons,
      List.length_cons]
    by_cases hb : b ≤ 15
    · simp only [hb, if_true, decide_true]
      omega
    · simp only [hb, if_false, decide_false, Bool.false_eq_true]
      omega

/-! ## Encoding -/

/-- E_target = 3 + (HEADER_SIZE + M) * 4 + 6 -/
def deterministicExclusionLength (manifestLen : Nat) : Nat :=
  3 + (HEADER_SIZE + manifestLen) * 4 + 6

variable (jumbf : Bytes)

def buildWrapperBytes : Bytes :=
  MAGIC ++ [VERSION] ++ Bytes.toBE 4 jumbf.length ++ jumbf

/-- What the wrapper lacks of its target. -/
def gap : Nat :=
  deterministicExclusionLength jumbf.length
    - (3 + (bytes (encodeBytesAsVs (buildWrapperBytes jumbf))).length)

/-- gap = 3a + 4b: `a` selectors of three bytes and `b` of four. -/
def paddingBytes (gap : Nat) : Bytes :=
  List.replicate ((gap - 4 * (gap % 3)) / 3) 0x00 ++ List.replicate (gap % 3) 0x10

/-- The wrapper, and the length to exclude. -/
def encodeTextManifest : List Char × Nat :=
  (ZWNBSP :: (encodeBytesAsVs (buildWrapperBytes jumbf)
      ++ encodeBytesAsVs (paddingBytes (gap jumbf))),
    deterministicExclusionLength jumbf.length)

theorem length_buildWrapperBytes :
    (buildWrapperBytes jumbf).length = HEADER_SIZE + jumbf.length := by
  simp only [buildWrapperBytes, List.length_append, Bytes.length_toBE]
  rfl

theorem gap_eq : gap jumbf = 6 + (buildWrapperBytes jumbf).countP (· ≤ 15) := by
  have hlen := length_encodeBytesAsVs (buildWrapperBytes jumbf)
  rw [length_buildWrapperBytes] at hlen
  rw [gap, deterministicExclusionLength]
  omega

/-- The NUL of the magic number and the version are low. -/
theorem eight_le_gap : 8 ≤ gap jumbf := by
  have hmagic : (MAGIC ++ [VERSION]).countP (· ≤ 15) = 2 := by decide
  rw [gap_eq, buildWrapperBytes, List.append_assoc, List.countP_append, hmagic]
  omega

theorem length_padding {n : Nat} (h : 8 ≤ n) :
    (bytes (encodeBytesAsVs (paddingBytes n))).length = n := by
  have hlen := length_encodeBytesAsVs (paddingBytes n)
  have hlow : (paddingBytes n).countP (· ≤ 15) = (n - 4 * (n % 3)) / 3 := by
    rw [paddingBytes, List.countP_append, List.countP_replicate, List.countP_replicate]
    rfl
  have hall : (paddingBytes n).length = (n - 4 * (n % 3)) / 3 + n % 3 := by
    rw [paddingBytes, List.length_append, List.length_replicate, List.length_replicate]
  omega

/-- A wrapper with another padding -/
def wrapperWith (padding : List Char) : List Char :=
  ZWNBSP :: (encodeBytesAsVs (buildWrapperBytes jumbf) ++ padding)

theorem length_wrapperWith {jumbf : Bytes} {padding : List Char}
    (hpadding : (bytes padding).length = gap jumbf) :
    (bytes (wrapperWith jumbf padding)).length = (encodeTextManifest jumbf).2 := by
  have hvs := length_encodeBytesAsVs (buildWrapperBytes jumbf)
  have hgap := gap_eq jumbf
  have hsize : ZWNBSP.utf8Size = 3 := by decide
  rw [length_buildWrapperBytes] at hvs
  rw [wrapperWith, encodeTextManifest, length_bytes_cons, bytes_append,
    List.length_append, hpadding, hsize, deterministicExclusionLength]
  omega

/-- The wrapper is as long as it claims. -/
theorem length_encodeTextManifest :
    (bytes (encodeTextManifest jumbf).1).length = (encodeTextManifest jumbf).2 :=
  length_wrapperWith (length_padding (eight_le_gap jumbf))

/-! ## Decoding -/

def selectorRun : List Char → Bytes
  | [] => []
  | c :: cs =>
    match variationSelectorToByte c with
    | some b => b :: selectorRun cs
    | none => []

def NO_WRAPPER : String := "manifest.text.corruptedWrapper: no wrapper found"

/-- What a run of selectors decides, if it does. -/
def readRun (vsBytes : Bytes) : Option (Except String Bytes) :=
  if vsBytes.length < HEADER_SIZE then none
  else if vsBytes.take 8 ≠ MAGIC then none
  else if vsBytes[8]? ≠ some VERSION then
    some (.error "manifest.text.corruptedWrapper: unsupported version")
  else
    let manifestLen := Bytes.ofBE ((vsBytes.drop 9).take 4)
    if vsBytes.length < HEADER_SIZE + manifestLen then
      some (.error "manifest.text.corruptedWrapper: truncated manifest")
    else some (.ok ((vsBytes.drop HEADER_SIZE).take manifestLen))

/-- The first wrapper in a text.  The selectors of a run that decides nothing are gone over
once more, which changes nothing: none of them is a `ZWNBSP`. -/
def decodeTextManifest : List Char → Except String Bytes
  | [] => .error NO_WRAPPER
  | c :: cs =>
    if c ≠ ZWNBSP then decodeTextManifest cs
    else
      match readRun (selectorRun cs) with
      | some outcome => outcome
      | none => decodeTextManifest cs

theorem selectorRun_encodeBytesAsVs (bs : Bytes) (rest : List Char) :
    selectorRun (encodeBytesAsVs bs ++ rest) = bs ++ selectorRun rest := by
  induction bs with
  | nil => rfl
  | cons b bs ih =>
    show (match variationSelectorToByte (byteToVariationSelector b) with
      | some b => b :: selectorRun (encodeBytesAsVs bs ++ rest)
      | none => []) = _
    rw [variationSelectorToByte_byteToVariationSelector, ih]
    rfl

theorem selectorRun_append_zwnbsp (cs rest : List Char) :
    selectorRun (cs ++ ZWNBSP :: rest) = selectorRun cs := by
  induction cs with
  | nil => rfl
  | cons c cs ih =>
    rw [List.cons_append, selectorRun, selectorRun, ih]

theorem readRun_wrapper (jumbf after : Bytes) (hlen : jumbf.length < 2 ^ 32) :
    readRun (buildWrapperBytes jumbf ++ after) = some (.ok jumbf) := by
  have hdrop9 : (buildWrapperBytes jumbf ++ after).drop 9
      = Bytes.toBE 4 jumbf.length ++ (jumbf ++ after) := by
    rw [buildWrapperBytes, List.append_assoc, List.append_assoc]
    rfl
  have hbe : Bytes.ofBE (((buildWrapperBytes jumbf ++ after).drop 9).take 4) = jumbf.length := by
    rw [hdrop9, List.take_left' (Bytes.length_toBE _ _), Bytes.ofBE_toBE_of_lt hlen]
  have hdrop13 : (buildWrapperBytes jumbf ++ after).drop HEADER_SIZE = jumbf ++ after := by
    have h13 : HEADER_SIZE = 9 + 4 := rfl
    rw [h13, ← List.drop_drop, hdrop9, List.drop_left' (Bytes.length_toBE _ _)]
  have htotal := length_buildWrapperBytes jumbf
  have hmagic : (buildWrapperBytes jumbf ++ after).take 8 = MAGIC := rfl
  have hversion : (buildWrapperBytes jumbf ++ after)[8]? = some VERSION := rfl
  rw [readRun, if_neg, if_neg (not_not.mpr hmagic), if_neg (not_not.mpr hversion)]
  · simp only [hbe, hdrop13, List.take_left]
    rw [if_neg]
    rw [List.length_append]
    omega
  · rw [List.length_append]
    omega

/-- A wrapper is read where it stands first, whatever follows it. -/
theorem decodeTextManifest_encode (padding : List Char) (hlen : jumbf.length < 2 ^ 32) :
    decodeTextManifest (ZWNBSP :: (encodeBytesAsVs (buildWrapperBytes jumbf) ++ padding))
      = .ok jumbf := by
  rw [decodeTextManifest, if_neg (not_not.mpr rfl), selectorRun_encodeBytesAsVs,
    readRun_wrapper jumbf _ hlen]

variable {text : List Char}

theorem decodeTextManifest_append (h : decodeTextManifest text = .error NO_WRAPPER)
    (after : List Char) :
    decodeTextManifest (text ++ ZWNBSP :: after) = decodeTextManifest (ZWNBSP :: after) := by
  induction text with
  | nil => rfl
  | cons c text ih =>
    rw [decodeTextManifest] at h
    rw [List.cons_append, decodeTextManifest, selectorRun_append_zwnbsp]
    split at h
    next hc =>
      rw [if_pos hc]
      exact ih h
    next hc =>
      rw [if_neg hc]
      cases hrun : readRun (selectorRun text) with
      | none =>
        rw [hrun] at h
        exact ih h
      | some outcome =>
        -- A run that decides says something else.
        rw [hrun] at h
        exfalso
        dsimp only at h
        rw [h, readRun] at hrun
        split at hrun
        · cases hrun
        split at hrun
        · cases hrun
        split at hrun
        · exact absurd (Except.error.inj (Option.some.inj hrun)) (by decide)
        dsimp only at hrun
        split at hrun
        · exact absurd (Except.error.inj (Option.some.inj hrun)) (by decide)
        · cases hrun

theorem decodeTextManifest_append_of_ne (h : decodeTextManifest text ≠ .error NO_WRAPPER)
    (after : List Char) :
    decodeTextManifest (text ++ ZWNBSP :: after) = decodeTextManifest text := by
  induction text with
  | nil => exact absurd rfl h
  | cons c text ih =>
    rw [decodeTextManifest] at h ⊢
    rw [List.cons_append, decodeTextManifest, selectorRun_append_zwnbsp]
    split at h
    next hc =>
      rw [if_pos hc, if_pos hc]
      exact ih h
    next hc =>
      rw [if_neg hc, if_neg hc]
      cases hrun : readRun (selectorRun text) with
      | none =>
        rw [hrun] at h
        exact ih h
      | some outcome => rfl

/-- The manifest is found again after a text that has no wrapper of its own. -/
theorem decodeTextManifest_wrapper (h : decodeTextManifest text = .error NO_WRAPPER) {jumbf : Bytes}
    (hlen : jumbf.length < 2 ^ 32) :
    decodeTextManifest (text ++ (encodeTextManifest jumbf).1) = .ok jumbf :=
  (decodeTextManifest_append h _).trans (decodeTextManifest_encode jumbf _ hlen)

/-! ## Embedding -/

/-- No `ZWNBSP` of a text has the selectors of the magic number behind it. -/
def NoMagic (text : List Char) : Prop :=
  ∀ cs, ZWNBSP :: cs <:+ text → (selectorRun cs).take 8 ≠ MAGIC

theorem readRun_eq_none {vsBytes : Bytes} (h : vsBytes.take 8 ≠ MAGIC) :
    readRun vsBytes = none := by
  rw [readRun]
  by_cases hlen : vsBytes.length < HEADER_SIZE
  · rw [if_pos hlen]
  · rw [if_neg hlen, if_pos h]

theorem decodeTextManifest_of_noMagic (h : NoMagic text) :
    decodeTextManifest text = .error NO_WRAPPER := by
  induction text with
  | nil => rfl
  | cons c text ih =>
    have htext : NoMagic text := fun cs hcs => h cs (hcs.trans (List.suffix_cons c text))
    rw [decodeTextManifest]
    by_cases hc : c = ZWNBSP
    · have hrun := readRun_eq_none (h text (hc ▸ List.suffix_rfl))
      rw [if_neg (not_not.mpr hc), hrun]
      exact ih htext
    · rw [if_pos hc]
      exact ih htext

/-- What the arithmetic of the padding takes: the wrapper fits the target, and the gap the high
selectors. -/
theorem padding_fits (jumbf : Bytes) :
    3 + (bytes (encodeBytesAsVs (buildWrapperBytes jumbf))).length
        ≤ deterministicExclusionLength jumbf.length
      ∧ 4 * (gap jumbf % 3) ≤ gap jumbf := by
  have hgap := eight_le_gap jumbf
  refine ⟨?_, ?_⟩
  · rw [gap] at hgap
    omega
  · have hmod := Nat.mod_lt (gap jumbf) (show 0 < 3 by decide)
    omega

/-- A wrapper has the length that it reports, its padding can be computed, and it is found
wherever it stands behind a text without magic numbers, whatever the text ends with and whatever
comes next. -/
theorem decode_embedded (jumbf : Bytes) (hlen : jumbf.length < 2 ^ 32) (front back : List Char)
    (hfront : NoMagic front) :
    (bytes (encodeTextManifest jumbf).1).length = (encodeTextManifest jumbf).2
      ∧ decodeTextManifest (front ++ (encodeTextManifest jumbf).1 ++ back) = .ok jumbf
      ∧ 3 + (bytes (encodeBytesAsVs (buildWrapperBytes jumbf))).length
          ≤ deterministicExclusionLength jumbf.length
      ∧ 4 * (gap jumbf % 3) ≤ gap jumbf := by
  refine ⟨length_encodeTextManifest jumbf, ?_, padding_fits jumbf⟩
  have hwrapper : front ++ (encodeTextManifest jumbf).1 ++ back
      = front ++ ZWNBSP :: (encodeBytesAsVs (buildWrapperBytes jumbf)
        ++ (encodeBytesAsVs (paddingBytes (gap jumbf)) ++ back)) := by
    rw [encodeTextManifest, List.append_assoc, List.cons_append, List.append_assoc]
  rw [hwrapper, decodeTextManifest_append (decodeTextManifest_of_noMagic hfront)]
  exact decodeTextManifest_encode jumbf _ hlen

/-- Behind a text that ends in a `ZWNBSP`, and in front of a selector. -/
theorem decode_embedded_amongSelectors :
    ([0x00, 0xFF] : Bytes).length < 2 ^ 32
      ∧ (bytes (encodeTextManifest [0x00, 0xFF]).1).length
          = (encodeTextManifest [0x00, 0xFF]).2
      ∧ decodeTextManifest (['a', ZWNBSP] ++ (encodeTextManifest [0x00, 0xFF]).1
          ++ [byteToVariationSelector 0x43]) = .ok [0x00, 0xFF] := by
  have hfront : NoMagic ['a', ZWNBSP] := by
    intro cs hcs
    rcases List.suffix_cons_iff.mp hcs with hcs | hcs
    · exact absurd (List.cons.inj hcs).1 (by decide)
    · rcases List.suffix_cons_iff.mp hcs with hcs | hcs
      · cases hcs
        decide
      · exact absurd (List.suffix_nil.mp hcs) (List.cons_ne_nil _ _)
  obtain ⟨hlength, hdecode, -⟩ :=
    decode_embedded [0x00, 0xFF] (by decide) ['a', ZWNBSP] [byteToVariationSelector 0x43] hfront
  exact ⟨by decide, hlength, hdecode⟩

/-! ## Visible characters -/

/-- The characters that render -/
def visible (text : List Char) : List Char := text.filter fun c => ¬ Invisible c

theorem visible_append (a b : List Char) : visible (a ++ b) = visible a ++ visible b :=
  List.filter_append ..

theorem visible_eq_nil : visible text = [] ↔ ∀ c ∈ text, Invisible c := by
  rw [visible, List.filter_eq_nil_iff]
  simp only [decide_eq_true_eq, not_not]

/-- Every selector of the padding, one further on. -/
def shiftedPadding (n : Nat) : List Char := encodeBytesAsVs ((paddingBytes n).map (· + 1))

theorem length_shiftedPadding {n : Nat} (h : 8 ≤ n) :
    (bytes (shiftedPadding n)).length = n := by
  have hlen := length_encodeBytesAsVs ((paddingBytes n).map (· + 1))
  have hsame := length_encodeBytesAsVs (paddingBytes n)
  have hcount : ((paddingBytes n).map (· + 1)).countP (· ≤ 15)
      = (paddingBytes n).countP (· ≤ 15) := by
    simp only [paddingBytes, List.map_append, List.map_replicate, List.countP_append,
      List.countP_replicate]
    rfl
  rw [hcount, List.length_map] at hlen
  rw [length_padding h] at hsame
  exact Nat.add_right_cancel (hlen.trans hsame.symm)

theorem shiftedPadding_ne {n : Nat} (h : 8 ≤ n) :
    shiftedPadding n ≠ encodeBytesAsVs (paddingBytes n) := by
  intro heq
  have hbytes := congrArg (fun padding => selectorRun (padding ++ [])) heq
  simp only [shiftedPadding, selectorRun_encodeBytesAsVs] at hbytes
  have hlen := length_padding h
  cases hpadding : paddingBytes n with
  | nil =>
    rw [hpadding] at hlen
    have hzero : 0 = n := hlen
    omega
  | cons b bs =>
    rw [hpadding] at hbytes
    exact absurd (List.cons.inj hbytes).1 (by simp)

/-- A padding that can be seen. -/
def visiblePadding (n : Nat) : List Char := List.replicate n 'x'

theorem length_visiblePadding (n : Nat) : (bytes (visiblePadding n)).length = n := by
  rw [visiblePadding]
  induction n with
  | zero => rfl
  | succ n ih =>
    rw [List.replicate_succ, length_bytes_cons, ih, Nat.add_comm]
    rfl

theorem visible_wrapperWith (jumbf : Bytes) (padding : List Char) :
    visible (wrapperWith jumbf padding) = visible padding := by
  have hwrapper : visible (ZWNBSP :: encodeBytesAsVs (buildWrapperBytes jumbf)) = [] := by
    rw [visible_eq_nil]
    intro c hc
    rcases List.mem_cons.mp hc with rfl | hc
    · exact .inl rfl
    · obtain ⟨b, -, rfl⟩ := List.mem_map.mp hc
      exact invisible_byteToVariationSelector b
  rw [wrapperWith, ← List.cons_append, visible_append, hwrapper, List.nil_append]

/-- Texts are runs of visible characters between invisible ones. -/
theorem visible_induction {p : List Char → Prop}
    (run : ∀ s, (∀ c ∈ s, ¬ Invisible c) → p s)
    (split : ∀ s c t, (∀ c ∈ s, ¬ Invisible c) → Invisible c → p t → p (s ++ c :: t))
    (text : List Char) : p text := by
  -- A run may be open in front of the text.
  have hopen : ∀ text s, (∀ c ∈ s, ¬ Invisible c) → p (s ++ text) := by
    intro text
    induction text with
    | nil =>
      intro s hs
      rw [List.append_nil]
      exact run s hs
    | cons c t ih =>
      intro s hs
      by_cases hc : Invisible c
      · exact split s c t hs hc (ih [] fun c hc => absurd hc List.not_mem_nil)
      · have hsc : ∀ d ∈ s ++ [c], ¬ Invisible d := by
          intro d hd
          rcases List.mem_append.mp hd with hd | hd
          · exact hs d hd
          · rwa [List.mem_singleton.mp hd]
        rw [List.append_cons]
        exact ih _ hsc
  exact hopen text [] fun c hc => absurd hc List.not_mem_nil

/-- What `nfc` does to invisible characters: it works on what stands between them, where it
makes none and leaves nothing out. -/
structure KeepsInvisible (nfc : List Char → List Char) : Prop where
  split : ∀ s c t, Invisible c → nfc (s ++ c :: t) = nfc s ++ c :: nfc t
  visible : ∀ s, (∀ c ∈ s, ¬ Invisible c) → ∀ c ∈ nfc s, ¬ Invisible c
  empty : ∀ s, nfc s = [] ↔ s = []

section Normalized

variable {nfc : List Char → List Char}

theorem selectorRun_visible {s : List Char} (hs : ∀ c ∈ s, ¬ Invisible c) (hne : s ≠ [])
    (rest : List Char) : selectorRun (s ++ rest) = [] := by
  cases s with
  | nil => exact absurd rfl hne
  | cons c s =>
    have hc : variationSelectorToByte c = none := by
      cases hbyte : variationSelectorToByte c with
      | none => rfl
      | some b => exact absurd (.inr (by rw [hbyte]; rfl)) (hs c List.mem_cons_self)
    rw [List.cons_append, selectorRun, hc]

theorem selectorRun_nfc (h : KeepsInvisible nfc) (text : List Char) :
    selectorRun (nfc text) = selectorRun text := by
  induction text using visible_induction with
  | run s hs =>
    by_cases hne : s = []
    · rw [hne, (h.empty []).mpr rfl]
    · have hrun := selectorRun_visible hs hne []
      have hrun' := selectorRun_visible (h.visible s hs) (mt (h.empty s).mp hne) []
      rw [List.append_nil] at hrun hrun'
      rw [hrun, hrun']
  | split s c t hs hc ih =>
    rw [h.split s c t hc]
    by_cases hne : s = []
    · rw [hne, (h.empty []).mpr rfl, List.nil_append, List.nil_append, selectorRun, selectorRun, ih]
    · rw [selectorRun_visible hs hne, selectorRun_visible (h.visible s hs) (mt (h.empty s).mp hne)]

theorem decodeTextManifest_visible {s : List Char} (hs : ∀ c ∈ s, ¬ Invisible c)
    (rest : List Char) :
    decodeTextManifest (s ++ rest) = decodeTextManifest rest := by
  induction s with
  | nil => rfl
  | cons c s ih =>
    obtain ⟨hc, hs⟩ := List.forall_mem_cons.mp hs
    rw [List.cons_append, decodeTextManifest, if_pos fun h => hc (.inl h), ih hs]

/-- Wrappers survive the normalization, and none come up. -/
theorem decodeTextManifest_nfc (h : KeepsInvisible nfc) (text : List Char) :
    decodeTextManifest (nfc text) = decodeTextManifest text := by
  induction text using visible_induction with
  | run s hs =>
    have hdecode := decodeTextManifest_visible hs []
    have hdecode' := decodeTextManifest_visible (h.visible s hs) []
    rw [List.append_nil] at hdecode hdecode'
    rw [hdecode, hdecode']
  | split s c t hs hc ih =>
    rw [h.split s c t hc, decodeTextManifest_visible hs,
      decodeTextManifest_visible (h.visible s hs), decodeTextManifest, decodeTextManifest,
      selectorRun_nfc h, ih]

end Normalized

end WritersProof.C2pa
