/-
  WritersProof.C2pa.PdfEmbed

  Embedding a manifest store in a PDF document
  (crates/authorproof-protocol/src/c2pa/embed.rs): an incremental update behind the
  document, with the store as a stream, the catalog once more with a reference to it,
  and a cross-reference table for the two.
-/
import WritersProof.C2pa.Types
import WritersProof.Lib.Text

namespace WritersProof.C2pa

open Rust Protocol Bytes Text

def PDF_SIGNATURE : Bytes := [0x25, 0x50, 0x44, 0x46, 0x2D]

/-! ## Reading the document -/

/-- `is_ascii_whitespace` -/
def isSpace (b : UInt8) : Bool := b = 0x20 || b = 0x09 || b = 0x0A || b = 0x0C || b = 0x0D

def isDigit (b : UInt8) : Bool := 0x30 ≤ b && b ≤ 0x39

def decimal (digits : Bytes) : Nat := digits.foldl (fun n b => 10 * n + (b.toNat - 0x30)) 0

variable (data : Bytes)

/-- Read a run of ASCII digits; the number must be a `u32`. -/
def readU32 : Option (Nat × Bytes) :=
  let digits := data.takeWhile isDigit
  if digits = [] then none
  else if decimal digits < 2 ^ 32 then some (decimal digits, data.drop digits.length)
  else none

/-- `data.windows(needle.len()).position(|w| w == needle)` -/
def firstPosition (needle : Bytes) : Bytes → Option Nat
  | [] => none
  | b :: data =>
    if needle <+: b :: data then some 0 else (firstPosition needle data).map (· + 1)

/-- `data.windows(needle.len()).rposition(|w| w == needle)` -/
def lastPosition (needle : Bytes) : Bytes → Option Nat
  | [] => none
  | b :: data =>
    match lastPosition needle data with
    | some i => some (i + 1)
    | none => if needle <+: b :: data then some 0 else none

/-- Parse `<ws>* <num> <ws>* <gen> <ws>* R` from the front of `data`. -/
def parseObjRef : Option (Nat × Nat) := do
  let (num, rest) ← readU32 (data.dropWhile isSpace)
  let (gen, rest) ← readU32 (rest.dropWhile isSpace)
  if (rest.dropWhile isSpace).head? = some 0x52 then some (num, gen) else none

/-- The `/Root <num> <gen> R` reference from the last trailer -/
def findRootRef : Option (Nat × Nat) := do
  let pos ← lastPosition (utf8 "/Root") data
  parseObjRef (data.drop (pos + 5))

/-- The `/Size <num>` value from the last trailer -/
def findTrailerSize : Option Nat := do
  let pos ← lastPosition (utf8 "/Size") data
  let (size, _) ← readU32 ((data.drop (pos + 5)).dropWhile isSpace)
  some size

def findLastStartxref : Option Nat := do
  let pos ← lastPosition (utf8 "startxref") data
  let digits := ((data.drop (pos + 9)).dropWhile isSpace).takeWhile isDigit
  if digits = [] then none
  else if decimal digits < 2 ^ 64 then some (decimal digits)
  else none

/-- The loop over the occurrences of the marker; each takes a byte at least, so `data.len()`
rounds do. -/
def findObjectFrom (data marker : Bytes) : Nat → Nat → Option Bytes
  | 0, _ => none
  | rounds + 1, pos => do
    let rel ← firstPosition marker (data.drop pos)
    let start := pos + rel
    let okPrefix := start = 0 || (data[start - 1]?.map isSpace).getD false
    let after := (data.drop (start + marker.length)).head?
    let okSuffix := (after.map fun b => isSpace b || b = 0x3C).getD true
    if okPrefix && okSuffix then
      let erel ← firstPosition (utf8 "endobj") (data.drop start)
      some ((data.drop start).take (erel + 6))
    else findObjectFrom data marker rounds (start + marker.length)

/-- The bytes of object `num gen obj ... endobj` -/
def findObjectBytes (num gen : Nat) : Option Bytes :=
  findObjectFrom data (utf8 s!"{num} {gen} obj") (data.length + 1) 0

/-- Insert `/C2PA <num> <gen> R` before the catalog object's closing `>>`. -/
def insertC2paRef (catalogObj : Bytes) (c2paNum c2paGen : Nat) : Option Bytes := do
  let pos ← lastPosition (utf8 ">>") catalogObj
  some (catalogObj.take pos ++ utf8 s!" /C2PA {c2paNum} {c2paGen} R " ++ catalogObj.drop pos)

/-! ## The update -/

/-- What an update takes from the document; the stream gets the next free number. -/
structure PdfFrame where
  rootNum : Nat
  rootGen : Nat
  c2paNum : Nat
  prevStartxref : Nat
  newCatalog : Bytes

/-- `{:010}` -/
def padded (n : Nat) : String :=
  String.ofList (List.replicate (10 - (toString n).length) '0') ++ toString n

/-- The entries of two objects, in increasing order -/
def xrefTable (loNum loOff hiNum hiOff : Nat) : String :=
  if hiNum = loNum + 1 then
    s!"xref\n{loNum} 2\n{padded loOff} 00000 n \n{padded hiOff} 00000 n \n"
  else
    s!"xref\n{loNum} 1\n{padded loOff} 00000 n \n{hiNum} 1\n{padded hiOff} 00000 n \n"

section Update

variable (f : PdfFrame) (c2paOffset : Nat) (jumbf : Bytes)

def streamHeader : Bytes :=
  utf8 (s!"{f.c2paNum} 0 obj\n<< /Type /Metadata /Subtype /C2PA /Length {jumbf.length} >>\n"
    ++ "stream\n")

def streamFooter : Bytes := utf8 "\nendstream\nendobj\n"

def catalogOffset : Nat :=
  c2paOffset + (streamHeader f jumbf).length + jumbf.length + streamFooter.length

def xrefOffset : Nat := catalogOffset f c2paOffset jumbf + f.newCatalog.length

/-- The table with the two offsets -/
def xref : Bytes :=
  utf8 <|
    if f.rootNum ≤ f.c2paNum then
      xrefTable f.rootNum (catalogOffset f c2paOffset jumbf) f.c2paNum c2paOffset
    else xrefTable f.c2paNum c2paOffset f.rootNum (catalogOffset f c2paOffset jumbf)

/-- The trailer keeps the original root and chains to the prior table. -/
def trailer : Bytes :=
  utf8 (s!"trailer\n<< /Size {f.c2paNum + 1} /Prev {f.prevStartxref} /Root {f.rootNum} " ++
    s!"{f.rootGen} R >>\nstartxref\n{xrefOffset f c2paOffset jumbf}\n%%EOF\n")

/-- All that is appended to the document -/
def update : Bytes :=
  streamHeader f jumbf ++ jumbf ++ streamFooter ++ f.newCatalog ++ xref f c2paOffset jumbf
    ++ trailer f c2paOffset jumbf

end Update

/-- `n + 1` on `u32` -/
def succU32 (n : Nat) : Option Nat := if n + 1 < 2 ^ 32 then some (n + 1) else none

/-- What is read from the document; numbers without a successor abort. -/
def pdfFrame (doc : Bytes) : Res Error PdfFrame := do
  reject (doc.take 5 ≠ PDF_SIGNATURE)
    (.protocol "embed_in_pdf: input is not a valid PDF (missing %PDF- header)")
  let (rootNum, rootGen) ← okOr (findRootRef doc)
    (.protocol "embed_in_pdf: could not find /Root reference in trailer")
  let size ← okOr (findTrailerSize doc) (.protocol "embed_in_pdf: could not find /Size in trailer")
  let catalogObj ← okOr (findObjectBytes doc rootNum rootGen)
    (.protocol "embed_in_pdf: could not locate catalog object")
  let newCatalog ← okOr (insertC2paRef catalogObj size 0)
    (.protocol "embed_in_pdf: could not edit catalog dictionary")
  let _ ← unwrap (succU32 (min rootNum size))
  let _ ← unwrap (succU32 size)
  .ok { rootNum, rootGen, c2paNum := size, newCatalog
        prevStartxref := (findLastStartxref doc).getD 0 }

def embedInPdf (doc jumbf : Bytes) : Res Error Bytes := do
  let f ← pdfFrame doc
  .ok (doc ++ update f doc.length jumbf)

/-! ## Lengths -/

variable {doc jumbf jumbf' data : Bytes} {n loNum loOff hiNum hiOff : Nat} {f : PdfFrame}

/-- Which documents are accepted, and what is appended. -/
theorem embedInPdf_eq_ok {out : Bytes} :
    embedInPdf doc jumbf = .ok out ↔
      ∃ f, pdfFrame doc = .ok f ∧ out = doc ++ update f doc.length jumbf := by
  rw [embedInPdf, res_bind_eq_ok]
  simp only [Except.ok.injEq, eq_comm]

theorem length_utf8_padded (n : Nat) : (utf8 (padded n)).length
    = (10 - (utf8 (toString n)).length) + (utf8 (toString n)).length := by
  have hlength : (toString n).length = (utf8 (toString n)).length := by
    rw [length_utf8_toString, ← String.length_toList, Nat.toString_eq_repr, Nat.toList_repr]
  rw [padded, utf8_append, List.length_append, utf8_ofList, hlength,
    length_bytes_of_ascii, List.length_replicate]
  intro c hc
  rw [List.eq_of_mem_replicate hc]
  rfl

/-- Larger numbers take no less room, padded or not. -/
theorem length_utf8_padded_mono {m : Nat} (h : m ≤ n) :
    (utf8 (padded m)).length ≤ (utf8 (padded n)).length := by
  have hle := length_utf8_toString_mono h
  rw [length_utf8_padded, length_utf8_padded]
  omega

theorem length_xrefTable_mono {loOff' hiOff' : Nat} (hlo : loOff ≤ loOff') (hhi : hiOff ≤ hiOff') :
    (utf8 (xrefTable loNum loOff hiNum hiOff)).length
      ≤ (utf8 (xrefTable loNum loOff' hiNum hiOff')).length := by
  have hlo' := length_utf8_padded_mono hlo
  have hhi' := length_utf8_padded_mono hhi
  have hid : ∀ n, toString (padded n) = padded n := fun _ => rfl
  unfold xrefTable
  split
  · simp only [utf8_append, List.length_append, hid]
    omega
  · simp only [utf8_append, List.length_append, hid]
    omega

/-- The update grows with the store by as much at least. -/
theorem length_update_le (f : PdfFrame) (c2paOffset : Nat) (h : jumbf.length ≤ jumbf'.length) :
    (update f c2paOffset jumbf).length + (jumbf'.length - jumbf.length)
      ≤ (update f c2paOffset jumbf').length := by
  have hnumber := length_utf8_toString_mono h
  have hheader : (streamHeader f jumbf).length ≤ (streamHeader f jumbf').length := by
    simp only [streamHeader, utf8_append, List.length_append]
    omega
  have hcatalog : catalogOffset f c2paOffset jumbf ≤ catalogOffset f c2paOffset jumbf' := by
    unfold catalogOffset
    omega
  have hxref : (xref f c2paOffset jumbf).length ≤ (xref f c2paOffset jumbf').length := by
    unfold xref
    split
    · exact length_xrefTable_mono hcatalog (Nat.le_refl _)
    · exact length_xrefTable_mono (Nat.le_refl _) hcatalog
  have hoffset : xrefOffset f c2paOffset jumbf ≤ xrefOffset f c2paOffset jumbf' :=
    Nat.add_le_add_right hcatalog _
  have hoffset' := length_utf8_toString_mono hoffset
  have htrailer : (trailer f c2paOffset jumbf).length ≤ (trailer f c2paOffset jumbf').length := by
    simp only [trailer, utf8_append, List.length_append]
    omega
  simp only [update, List.length_append]
  omega

/-- Updates are equally long exactly if the stores are. -/
theorem length_update_eq_iff (f : PdfFrame) (c2paOffset : Nat) :
    (update f c2paOffset jumbf).length = (update f c2paOffset jumbf').length ↔
      jumbf.length = jumbf'.length := by
  constructor
  · intro heq
    rcases Nat.le_total jumbf.length jumbf'.length with h | h
    · have hle := length_update_le f c2paOffset h
      omega
    · have hle := length_update_le f c2paOffset h
      omega
  · intro heq
    have hle := length_update_le f c2paOffset heq.le
    have hge := length_update_le f c2paOffset heq.ge
    omega

/-! ## Bounds -/

theorem readU32_lt {rest : Bytes} (h : readU32 data = some (n, rest)) : n < 2 ^ 32 := by
  unfold readU32 at h
  dsimp only at h
  split at h
  · cases h
  split at h
  next hlt =>
    cases h
    exact hlt
  next => cases h

theorem parseObjRef_lt {num gen : Nat} (h : parseObjRef data = some (num, gen)) :
    num < 2 ^ 32 ∧ gen < 2 ^ 32 := by
  unfold parseObjRef at h
  simp only [Option.bind_eq_bind, Option.bind_eq_some_iff] at h
  obtain ⟨⟨num', rest⟩, hnum, ⟨gen', rest'⟩, hgen, h⟩ := h
  split at h
  · cases h
    exact ⟨readU32_lt hnum, readU32_lt hgen⟩
  · cases h

theorem length_findObjectFrom_le {marker found : Bytes} :
    ∀ {rounds pos : Nat}, findObjectFrom data marker rounds pos = some found →
      found.length ≤ data.length := by
  intro rounds
  induction rounds with
  | zero => exact fun h => nomatch h
  | succ rounds ih =>
    intro pos h
    rw [findObjectFrom] at h
    obtain ⟨rel, -, h⟩ := Option.bind_eq_some_iff.mp h
    dsimp only at h
    split at h
    · obtain ⟨erel, -, h⟩ := Option.bind_eq_some_iff.mp h
      cases h
      rw [List.length_take, List.length_drop]
      omega
    · exact ih h

theorem length_utf8_toString_le (h : n < 2 ^ 64) : (utf8 (toString n)).length ≤ 20 := by
  rw [length_utf8_toString]
  exact (Nat.length_toDigits_le_iff (by decide) (by decide)).mpr (by omega)

theorem length_utf8_padded_le (h : n < 2 ^ 64) : (utf8 (padded n)).length ≤ 20 := by
  have hle := length_utf8_toString_le h
  rw [length_utf8_padded]
  omega

/-- What is read from a document in memory is no longer than that, but for a reference. -/
structure PdfFrame.Fits (f : PdfFrame) (docLength : Nat) : Prop where
  rootNum : f.rootNum < 2 ^ 32
  rootGen : f.rootGen < 2 ^ 32
  c2paNum : f.c2paNum + 1 < 2 ^ 32
  prevStartxref : f.prevStartxref < 2 ^ 64
  newCatalog : f.newCatalog.length ≤ docLength + 60

theorem fits_of_pdfFrame (h : pdfFrame doc = .ok f) : f.Fits doc.length := by
  unfold pdfFrame at h
  simp only [res_bind_eq_ok, okOr_eq_ok] at h
  obtain ⟨⟨⟩, -, ⟨rootNum, rootGen⟩, hroot, size, hsize, catalog, hcatalog, newCatalog, hnew,
    -, -, next, hnext, h⟩ := h
  cases h
  obtain ⟨pos, -, hroot⟩ := Option.bind_eq_some_iff.mp hroot
  have hlt := parseObjRef_lt hroot
  have hsucc : size + 1 < 2 ^ 32 := by
    unfold succU32 at hnext
    split at hnext
    next hlt => exact hlt
    next => exact absurd hnext (abort_ne_ok _)
  refine ⟨hlt.1, hlt.2, hsucc, ?_, ?_⟩
  · cases hprev : findLastStartxref doc with
    | none => exact Nat.two_pow_pos 64
    | some prev =>
      unfold findLastStartxref at hprev
      obtain ⟨pos, -, hprev⟩ := Option.bind_eq_some_iff.mp hprev
      dsimp only at hprev
      split at hprev
      · cases hprev
      split at hprev
      next hlt =>
        cases hprev
        exact hlt
      next => cases hprev
  · have hcatalogLength := length_findObjectFrom_le hcatalog
    obtain ⟨pos, -, hnew⟩ := Option.bind_eq_some_iff.mp hnew
    have hdigits := length_utf8_toString_le (show size < 2 ^ 64 by omega)
    cases hnew
    have hconst : ∀ s ∈ [" /C2PA ", " ", " R ", "0"], (utf8 s).length ≤ 7 := by decide
    have hid : ∀ s : String, toString s = s := fun _ => rfl
    have hzero : toString 0 = "0" := rfl
    simp only [List.forall_mem_cons] at hconst
    obtain ⟨h1, h2, h3, h4, -⟩ := hconst
    simp only [utf8_append, List.length_append, List.length_take, List.length_drop, hid, hzero]
    omega

theorem length_xrefTable_le (hloNum : loNum < 2 ^ 64) (hloOff : loOff < 2 ^ 64)
    (hhiNum : hiNum < 2 ^ 64) (hhiOff : hiOff < 2 ^ 64) :
    (utf8 (xrefTable loNum loOff hiNum hiOff)).length ≤ 300 := by
  have hid : ∀ s : String, toString s = s := fun _ => rfl
  have hconst : ∀ s ∈ ["xref\n", " 2\n", " 00000 n \n", " 1\n"], (utf8 s).length ≤ 20 := by
    decide
  simp only [List.forall_mem_cons] at hconst
  obtain ⟨h1, h2, h3, h4, -⟩ := hconst
  have hlo := length_utf8_toString_le hloNum
  have hhi := length_utf8_toString_le hhiNum
  have hloPadded := length_utf8_padded_le hloOff
  have hhiPadded := length_utf8_padded_le hhiOff
  unfold xrefTable
  split
  · simp only [utf8_append, List.length_append, hid]
    omega
  · simp only [utf8_append, List.length_append, hid]
    omega

/-- So is the update, but for the store, the catalog and some numbers. -/
theorem PdfFrame.Fits.length_update_lt {docLength : Nat} (h : f.Fits docLength)
    (hdoc : docLength < 2 ^ 62) (hjumbf : jumbf.length < 2 ^ 32) :
    docLength + (update f docLength jumbf).length < 2 ^ 64 := by
  obtain ⟨hrootNum, hrootGen, hc2paNum, hprev, hcatalog⟩ := h
  have hid : ∀ s : String, toString s = s := fun _ => rfl
  have hconst : ∀ s ∈ [" 0 obj\n<< /Type /Metadata /Subtype /C2PA /Length ", " >>\n", "stream\n",
      "trailer\n<< /Size ", " /Prev ", " /Root ", " ", " R >>\nstartxref\n", "\n%%EOF\n"],
      (utf8 s).length ≤ 60 := by decide
  simp only [List.forall_mem_cons] at hconst
  obtain ⟨h1, h2, h3, h4, h5, h6, h7, h8, h9, -⟩ := hconst
  have hfooter : streamFooter.length ≤ 60 := by decide
  have hheader : (streamHeader f jumbf).length ≤ 300 := by
    have hnum := length_utf8_toString_le (show f.c2paNum < 2 ^ 64 by omega)
    have hlength := length_utf8_toString_le (show jumbf.length < 2 ^ 64 by omega)
    simp only [streamHeader, utf8_append, List.length_append, hid]
    omega
  have hcatalogOffset : catalogOffset f docLength jumbf < 2 ^ 64 := by
    unfold catalogOffset
    omega
  have hxrefOffset : xrefOffset f docLength jumbf < 2 ^ 64 := by
    unfold xrefOffset catalogOffset
    omega
  have hxref : (xref f docLength jumbf).length ≤ 300 := by
    unfold xref
    split
    · exact length_xrefTable_le (by omega) hcatalogOffset (by omega) (by omega)
    · exact length_xrefTable_le (by omega) (by omega) (by omega) hcatalogOffset
  have htrailer : (trailer f docLength jumbf).length ≤ 500 := by
    have hsize := length_utf8_toString_le (show f.c2paNum + 1 < 2 ^ 64 by omega)
    have hprev' := length_utf8_toString_le hprev
    have hroot := length_utf8_toString_le (show f.rootNum < 2 ^ 64 by omega)
    have hgen := length_utf8_toString_le (show f.rootGen < 2 ^ 64 by omega)
    have hoffset := length_utf8_toString_le hxrefOffset
    simp only [trailer, utf8_append, List.length_append, hid]
    omega
  simp only [update, List.length_append]
  omega

end WritersProof.C2pa
