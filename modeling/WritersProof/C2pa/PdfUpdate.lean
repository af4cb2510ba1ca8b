/-
  WritersProof.C2pa.PdfUpdate

  The incremental update against what a reader of the file makes of it: documents as a base
  file with any number of updates, cross-reference tables, and the latest definition of the
  catalog.
-/
import WritersProof.C2pa.PdfReading

namespace WritersProof.C2pa

open Rust Protocol Bytes

/-! ## Documents -/

/-- White space between two tokens -/
structure Gap where
  bytes : Bytes
  nonempty : bytes ≠ []
  spaces : ∀ b ∈ bytes, isSpace b = true

/-- The definition of an object, `N G obj ... endobj` -/
structure PdfObject where
  num : Nat
  gen : Nat
  behindNum : Gap
  behindGen : Gap
  body : Bytes

def PdfObject.bytes (o : PdfObject) : Bytes :=
  utf8 (toString o.num) ++ o.behindNum.bytes ++ utf8 (toString o.gen)
    ++ o.behindGen.bytes ++ utf8 "obj" ++ o.body ++ utf8 "endobj"

/-- A trailer with the table before it, around the reference `/Root N G R` -/
structure PdfTrailer where
  front : Bytes
  rootNum : Nat
  rootGen : Nat
  behindKey : Gap
  behindNum : Gap
  behindGen : Gap
  back : Bytes

def PdfTrailer.bytes (t : PdfTrailer) : Bytes :=
  t.front ++ utf8 "/Root" ++ t.behindKey.bytes ++ utf8 (toString t.rootNum)
    ++ t.behindNum.bytes ++ utf8 (toString t.rootGen) ++ t.behindGen.bytes ++ utf8 "R"
    ++ t.back

/-- A base file or an update: objects, each with the text before it, and a trailer -/
structure Revision where
  objects : List (Bytes × PdfObject)
  trailer : PdfTrailer

def Revision.bytes (r : Revision) : Bytes :=
  r.objects.flatMap (fun (before, o) => before ++ o.bytes) ++ r.trailer.bytes

structure PdfDocument where
  version : Bytes
  base : Revision
  updates : List Revision

namespace PdfDocument

variable (d : PdfDocument)

def revisions : List Revision := d.base :: d.updates

def bytes : Bytes := PDF_SIGNATURE ++ d.version ++ d.revisions.flatMap Revision.bytes

def trailer : PdfTrailer := (d.updates.getLast?.getD d.base).trailer

def objects : List PdfObject := d.revisions.flatMap fun r => r.objects.map Prod.snd

def catalog : Option PdfObject :=
  d.objects.reverse.find? fun o => o.num = d.trailer.rootNum ∧ o.gen = d.trailer.rootGen

end PdfDocument

/-! ## Reading a table -/

/-- Where a table says that an object is -/
structure XrefEntry where
  num : Nat
  offset : Nat
  gen : Nat
deriving DecidableEq

/-- `<offset> <gen> n` -/
def readEntry (num : Nat) (data : Bytes) : Option (XrefEntry × Bytes) := do
  let (offset, rest) ← readNumber data
  let (gen, rest) ← readNumber (rest.drop 1)
  if utf8 " n \n" <+: rest then some ({ num, offset, gen }, rest.drop 4) else none

/-- The entries of a subsection, the first of them for object `num` -/
def readEntries : Nat → Nat → Bytes → Option (List XrefEntry × Bytes)
  | 0, _, data => some ([], data)
  | count + 1, num, data => do
    let (e, rest) ← readEntry num data
    let (es, rest) ← readEntries count (num + 1) rest
    some (e :: es, rest)

/-- Subsections, each behind `<num> <count>`, up to something else -/
def readSubsections : Nat → Bytes → Option (List XrefEntry)
  | 0, _ => none
  | rounds + 1, data =>
    match readNumber data with
    | none => some []
    | some (num, rest) => do
      let (count, rest) ← readNumber (rest.drop 1)
      let (es, rest) ← readEntries count num (rest.drop 1)
      let es' ← readSubsections rounds rest
      some (es ++ es')

def readTable (data : Bytes) : Option (List XrefEntry) :=
  if utf8 "xref\n" <+: data then readSubsections data.length (data.drop 5) else none

def lastTable (data : Bytes) : Option Nat := do
  let pos ← lastPosition (utf8 "startxref") data
  let (offset, _) ← readNumber ((data.drop (pos + 9)).dropWhile isSpace)
  some offset

/-! ## Right updates -/

/-- Behind the document stand the stream, the catalog and a table that says where these are; the
catalog is its most recent definition with one more entry. -/
def Updated (d : PdfDocument) (jumbf out : Bytes) : Prop :=
  ∃ (stream catalog tail : Bytes) (num gen : Nat) (entries : List XrefEntry) (o : PdfObject),
    out = d.bytes ++ stream ++ catalog ++ tail
    ∧ lastTable out = some (d.bytes ++ stream ++ catalog).length
    ∧ readTable tail = some entries
    ∧ entries.Perm [⟨num, d.bytes.length, gen⟩,
      ⟨d.trailer.rootNum, (d.bytes ++ stream).length, d.trailer.rootGen⟩]
    ∧ objectHeader num gen <+: stream ∧ jumbf <:+: stream
    ∧ objectHeader d.trailer.rootNum d.trailer.rootGen <+: catalog
    ∧ d.catalog = some o ∧ WithEntry o.bytes (c2paEntry num gen) catalog

/-! ## The table that is appended -/

theorem readEntry_written (num offset : Nat) (rest : Bytes) :
    readEntry num (utf8 (padded offset) ++ (utf8 " 00000 n \n" ++ rest))
      = some (⟨num, offset, 0⟩, rest) := by
  have hgen : utf8 " 00000 n \n"
      = 0x20 :: (Text.bytes (List.replicate 5 '0') ++ 0x20 :: [0x6E, 0x20, 0x0A]) := by rfl
  have hend : utf8 " n \n" = [0x20, 0x6E, 0x20, 0x0A] := by rfl
  rw [hgen, List.cons_append, readEntry, readNumber_padded offset rfl]
  simp only [Option.bind_eq_bind, Option.bind_some, List.drop_succ_cons, List.drop_zero]
  rw [List.append_assoc, List.cons_append, readNumber_digits
    (List.all_eq_true.mp (by decide)) (by decide) rfl]
  rw [Option.bind_some, hend, Nat.ofDigitChars_replicate_zero, Nat.mul_zero]
  exact if_pos ⟨rest, rfl⟩

theorem readSubsections_header {rounds num count : Nat} {rest rest' : Bytes} {es : List XrefEntry}
    (h : readEntries count num rest = some (es, rest')) :
    readSubsections (rounds + 1) (utf8 (toString num)
        ++ 0x20 :: (utf8 (toString count) ++ 0x0A :: rest))
      = (readSubsections rounds rest').map (es ++ ·) := by
  rw [readSubsections, readNumber_toString num rfl]
  simp only [Option.bind_eq_bind, List.drop_succ_cons, List.drop_zero]
  rw [readNumber_toString count rfl]
  simp only [Option.bind_some, List.drop_succ_cons, List.drop_zero, h]
  cases readSubsections rounds rest' with
  | none => rfl
  | some es' => rfl

theorem readSubsections_end {rounds : Nat} {sep : UInt8} (hsep : isDigit sep = false)
    (rest : Bytes) : readSubsections (rounds + 1) (sep :: rest) = some [] := by
  have hnone : readNumber (sep :: rest) = none := by
    rw [readNumber, List.takeWhile_cons_of_neg (by rw [hsep]; decide)]
    rfl
  rw [readSubsections, hnone]

/-- Both entries are read, whether in one subsection or in two. -/
theorem readTable_xrefTable (loNum loOff hiNum hiOff : Nat) {sep : UInt8}
    (hsep : isDigit sep = false) (rest : Bytes) :
    readTable (utf8 (xrefTable loNum loOff hiNum hiOff) ++ sep :: rest)
      = some [⟨loNum, loOff, 0⟩, ⟨hiNum, hiOff, 0⟩] := by
  have hid : ∀ s : String, toString s = s := fun _ => rfl
  have hone : utf8 " 1\n" = 0x20 :: (utf8 (toString 1) ++ [0x0A]) := by rfl
  have htwo : utf8 " 2\n" = 0x20 :: (utf8 (toString 2) ++ [0x0A]) := by rfl
  -- what follows the word `xref`
  obtain ⟨subsections, hdata, hread⟩ : ∃ subsections,
      utf8 (xrefTable loNum loOff hiNum hiOff) ++ sep :: rest
        = utf8 "xref\n" ++ subsections
      ∧ ∀ rounds, readSubsections (rounds + 3) subsections
        = some [⟨loNum, loOff, 0⟩, ⟨hiNum, hiOff, 0⟩] := by
    unfold xrefTable
    split
    next h =>
      subst h
      refine ⟨utf8 (toString loNum) ++ 0x20 :: (utf8 (toString 2) ++ 0x0A ::
        (utf8 (padded loOff) ++ (utf8 " 00000 n \n" ++ (utf8 (padded hiOff)
          ++ (utf8 " 00000 n \n" ++ sep :: rest))))), ?_, fun rounds => ?_⟩
      · simp only [Text.utf8_append, hid, htwo, List.append_assoc, List.cons_append,
          List.nil_append]
      · have hentries : readEntries 2 loNum (utf8 (padded loOff)
            ++ (utf8 " 00000 n \n" ++ (utf8 (padded hiOff)
              ++ (utf8 " 00000 n \n" ++ sep :: rest))))
            = some ([⟨loNum, loOff, 0⟩, ⟨loNum + 1, hiOff, 0⟩], sep :: rest) := by
          simp only [readEntries, readEntry_written, Option.bind_eq_bind, Option.bind_some]
        rw [readSubsections_header hentries, readSubsections_end hsep]
        rfl
    next h =>
      refine ⟨utf8 (toString loNum) ++ 0x20 :: (utf8 (toString 1) ++ 0x0A ::
        (utf8 (padded loOff) ++ (utf8 " 00000 n \n" ++ (utf8 (toString hiNum)
          ++ 0x20 :: (utf8 (toString 1) ++ 0x0A :: (utf8 (padded hiOff)
            ++ (utf8 " 00000 n \n" ++ sep :: rest))))))), ?_, fun rounds => ?_⟩
      · simp only [Text.utf8_append, hid, hone, List.append_assoc, List.cons_append,
          List.nil_append]
      · have hentry : ∀ num offset rest, readEntries 1 num (utf8 (padded offset)
            ++ (utf8 " 00000 n \n" ++ rest)) = some ([⟨num, offset, 0⟩], rest) := by
          intro num offset rest
          simp only [readEntries, readEntry_written, Option.bind_eq_bind, Option.bind_some]
        rw [readSubsections_header (hentry loNum loOff _),
          readSubsections_header (hentry hiNum hiOff _), readSubsections_end hsep]
        rfl
  have hxref : (utf8 "xref\n").length = 5 := by rfl
  have hlength : 5 ≤ (utf8 "xref\n" ++ subsections).length := by
    rw [List.length_append, hxref]
    exact Nat.le_add_right 5 _
  obtain ⟨rounds, hrounds⟩ := Nat.exists_eq_add_of_le'
    (Nat.le_of_succ_le (Nat.le_of_succ_le hlength))
  rw [hdata, readTable, if_pos (List.prefix_append _ _), hrounds, List.drop_left' hxref, hread]

/-! ## What stands behind the document -/

section Appended

variable {f : PdfFrame} {c2paOffset : Nat} {jumbf : Bytes}

def streamObject (f : PdfFrame) (jumbf : Bytes) : Bytes :=
  streamHeader f jumbf ++ jumbf ++ streamFooter

theorem objectHeader_prefix_streamObject : objectHeader f.c2paNum 0 <+: streamObject f jumbf := by
  have hid : ∀ s : String, toString s = s := fun _ => rfl
  have hobj : utf8 " 0 obj\n<< /Type /Metadata /Subtype /C2PA /Length "
      = 0x20 :: (utf8 (toString 0) ++ 0x20 :: utf8 "obj")
        ++ utf8 "\n<< /Type /Metadata /Subtype /C2PA /Length " := by rfl
  rw [streamObject, streamHeader, objectHeader_eq]
  simp only [Text.utf8_append, hid, hobj, List.append_assoc, List.cons_append,
    List.prefix_append_right_inj, List.cons_prefix_cons, true_and]
  exact List.prefix_append _ _

/-- The table says where stream and catalog are, both of generation 0. -/
theorem readTable_xref (f : PdfFrame) (c2paOffset : Nat) (jumbf : Bytes) : ∃ entries,
    readTable (xref f c2paOffset jumbf ++ trailer f c2paOffset jumbf) = some entries
      ∧ entries.Perm [⟨f.c2paNum, c2paOffset, 0⟩,
        ⟨f.rootNum, c2paOffset + (streamObject f jumbf).length, 0⟩] := by
  have hcatalog : catalogOffset f c2paOffset jumbf
      = c2paOffset + (streamObject f jumbf).length := by
    rw [catalogOffset, streamObject, List.length_append, List.length_append]
    omega
  obtain ⟨sep, rest, htrailer, hsep⟩ : ∃ sep rest, trailer f c2paOffset jumbf = sep :: rest
      ∧ isDigit sep = false := by
    have hid : ∀ s : String, toString s = s := fun _ => rfl
    have hstart : utf8 "trailer\n<< /Size " = 0x74 :: utf8 "railer\n<< /Size " := by rfl
    rw [trailer]
    simp only [Text.utf8_append, hid, hstart, List.append_assoc, List.cons_append]
    exact ⟨_, _, rfl, rfl⟩
  rw [htrailer, xref, ← hcatalog]
  split
  · exact ⟨_, readTable_xrefTable _ _ _ _ hsep _, List.Perm.swap _ _ _⟩
  · exact ⟨_, readTable_xrefTable _ _ _ _ hsep _, .rfl⟩

theorem lastTable_update (front : Bytes) :
    lastTable (front ++ trailer f c2paOffset jumbf) = some (xrefOffset f c2paOffset jumbf) := by
  have hid : ∀ s : String, toString s = s := fun _ => rfl
  have hkey : utf8 " R >>\nstartxref\n" = utf8 " R >>\n" ++ utf8 "startxref"
      ++ [0x0A] := by rfl
  have hend : utf8 "\n%%EOF\n" = [0x0A, 0x25, 0x25, 0x45, 0x4F, 0x46, 0x0A] := by rfl
  have hstart : utf8 "startxref" = 0x73 :: utf8 "tartxref" := by rfl
  obtain ⟨before, hsplit⟩ : ∃ before, front ++ trailer f c2paOffset jumbf = before
      ++ utf8 "startxref" ++ ([0x0A] ++ utf8 (toString (xrefOffset f c2paOffset jumbf))
        ++ [0x0A, 0x25, 0x25, 0x45, 0x4F, 0x46, 0x0A]) := by
    rw [trailer]
    simp only [Text.utf8_append, hid, hkey, hend, ← List.append_assoc]
    exact ⟨_, rfl⟩
  have hnotMem : (0x73 : UInt8) ∉ utf8 "tartxref" ++ ([0x0A]
      ++ utf8 (toString (xrefOffset f c2paOffset jumbf))
      ++ [0x0A, 0x25, 0x25, 0x45, 0x4F, 0x46, 0x0A]) := by
    simp only [List.mem_append, not_or]
    exact ⟨by decide, ⟨by decide, notMem_number (by decide) _⟩, by decide⟩
  have hlength : (before ++ 0x73 :: utf8 "tartxref").length = before.length + 9 := by
    rw [List.length_append]
    rfl
  rw [hsplit, lastTable, hstart, lastPosition_of_notMem hnotMem, Option.bind_eq_bind,
    Option.bind_some, List.drop_left' hlength, List.append_assoc, List.singleton_append,
    List.dropWhile_cons_of_pos rfl, dropWhile_number, readNumber_toString _ rfl]
  rfl

end Appended

/-! ## When updates are right -/

def Updates (d : PdfDocument) : Prop :=
  ∀ jumbf, embedInPdf d.bytes jumbf ≠ abort
    ∧ ∀ out, embedInPdf d.bytes jumbf = .ok out → d.bytes <+: out ∧ Updated d jumbf out

/-- The last `/Root` and the first place that reads like the definition of that object lead to the
most recent definition of the catalog, of generation 0, and the next object has a number; unless
the document is refused since there is no such place or no dictionary. -/
def LeadsToCatalog (d : PdfDocument) : Prop :=
  ∀ num gen size text, findRootRef d.bytes = some (num, gen) → findTrailerSize d.bytes = some size →
    FirstObject d.bytes (objectHeader num gen) text → utf8 ">>" <:+: text →
    size + 1 < 2 ^ 32 ∧ gen = 0 ∧ (num, gen) = (d.trailer.rootNum, d.trailer.rootGen)
      ∧ ∃ o, d.catalog = some o ∧ text = o.bytes

theorem PdfDocument.take_bytes (d : PdfDocument) : d.bytes.take 5 = PDF_SIGNATURE := by
  rw [PdfDocument.bytes, List.append_assoc]
  exact List.take_left' rfl

theorem update_eq (f : PdfFrame) (c2paOffset : Nat) (jumbf : Bytes) :
    update f c2paOffset jumbf = streamObject f jumbf ++ f.newCatalog
      ++ (xref f c2paOffset jumbf ++ trailer f c2paOffset jumbf) := by
  rw [update, streamObject, List.append_assoc, List.append_assoc, List.append_assoc]

theorem length_appended (f : PdfFrame) (doc jumbf : Bytes) :
    (doc ++ streamObject f jumbf ++ f.newCatalog).length = xrefOffset f doc.length jumbf := by
  rw [xrefOffset, catalogOffset, streamObject]
  simp only [List.length_append]
  omega

theorem lastTable_appended (f : PdfFrame) (doc jumbf : Bytes) :
    lastTable (doc ++ update f doc.length jumbf)
      = some (doc ++ streamObject f jumbf ++ f.newCatalog).length := by
  rw [length_appended, update, ← List.append_assoc doc, lastTable_update]

variable {d : PdfDocument}

theorem updated_of_catalog {f : PdfFrame} {o : PdfObject} (jumbf : Bytes)
    (hroot : (f.rootNum, 0) = (d.trailer.rootNum, d.trailer.rootGen))
    (hheader : objectHeader f.rootNum 0 <+: f.newCatalog) (ho : d.catalog = some o)
    (hcatalog : WithEntry o.bytes (c2paEntry f.c2paNum 0) f.newCatalog) :
    Updated d jumbf (d.bytes ++ update f d.bytes.length jumbf) := by
  obtain ⟨entries, hread, hperm⟩ := readTable_xref f d.bytes.length jumbf
  obtain ⟨hnum, hgen⟩ := Prod.mk.inj hroot
  refine ⟨streamObject f jumbf, f.newCatalog, _, f.c2paNum, 0, entries, o, ?_,
    lastTable_appended f d.bytes jumbf, hread, ?_, objectHeader_prefix_streamObject, ?_, ?_, ho,
    hcatalog⟩
  · rw [update_eq, List.append_assoc (_ ++ streamObject f jumbf), List.append_assoc d.bytes,
      List.append_assoc (streamObject f jumbf)]
  · rw [← hnum, ← hgen, List.length_append]
    exact hperm
  · exact ⟨_, _, rfl⟩
  · rw [← hnum, ← hgen]
    exact hheader

theorem entries_eq {x y x' y' : XrefEntry} (h : [x, y].Perm [x', y']) (hx : x.offset = x'.offset)
    (hne : y.offset ≠ x'.offset) : x = x' ∧ y = y' := by
  have hy : y = y' := by
    rcases List.mem_pair.mp (h.subset (List.mem_cons_of_mem _ List.mem_cons_self)) with rfl | h
    · exact absurd rfl hne
    · exact h
  subst hy
  have hperm : [x].Perm [x'] := (List.perm_append_right_iff [y]).mp h
  exact ⟨List.singleton_perm_singleton.mp hperm, rfl⟩

theorem catalog_of_updated {f : PdfFrame} {jumbf : Bytes}
    (h : Updated d jumbf (d.bytes ++ update f d.bytes.length jumbf)) :
    objectHeader d.trailer.rootNum d.trailer.rootGen <+: f.newCatalog ∧ d.trailer.rootGen = 0
      ∧ ∃ o, d.catalog = some o ∧ WithEntry o.bytes (c2paEntry f.c2paNum 0) f.newCatalog := by
  obtain ⟨stream, catalog, tail, num, gen, entries, o, hout, htable, hread, hperm, hstream, -,
    hheader, ho, hcatalog⟩ := h
  obtain ⟨entries', hread', hperm'⟩ := readTable_xref f d.bytes.length jumbf
  -- both tables start where the last `startxref` says
  have hlength := Option.some.inj ((lastTable_appended f d.bytes jumbf).symm.trans htable)
  rw [update_eq, ← List.append_assoc, ← List.append_assoc d.bytes] at hout
  obtain ⟨hfront, htail⟩ := List.append_inj hout hlength
  rw [← htail, hread', Option.some.injEq] at hread
  rw [hread] at hperm'
  -- and so the entries are those that are read
  have hoffset : (d.bytes ++ stream).length ≠ d.bytes.length := by
    have hpos : 0 < (objectHeader num gen).length := by
      rw [objectHeader_eq, List.length_append, List.length_cons]
      omega
    have hle := hstream.length_le
    rw [List.length_append]
    omega
  obtain ⟨hx, hy⟩ := entries_eq (hperm.symm.trans hperm') rfl hoffset
  rw [XrefEntry.mk.injEq] at hx hy
  obtain ⟨hnum, -, hgen⟩ := hx
  obtain ⟨-, hstreamLength, hrootGen⟩ := hy
  rw [List.length_append] at hstreamLength
  rw [List.append_assoc, List.append_assoc, List.append_cancel_left_eq] at hfront
  obtain ⟨-, rfl⟩ := List.append_inj hfront (Nat.add_left_cancel hstreamLength).symm
  subst hnum hgen
  exact ⟨hheader, hrootGen, o, ho, hcatalog⟩

theorem leadsToCatalog_of_updates (h : Updates d) : LeadsToCatalog d := by
  intro num gen size text hroot hsize htext hclose
  obtain ⟨newCatalog, hcatalog⟩ : ∃ result, WithEntry text (c2paEntry size 0) result :=
    exists_withEntry.mpr hclose
  have hparsed : Parsed d.bytes ⟨num, gen, size, _, newCatalog⟩ :=
    ⟨d.take_bytes, hroot, hsize, ⟨text, htext, hcatalog⟩, rfl⟩
  obtain ⟨hreturns, hupdated⟩ := h []
  have hframe := pdfFrame_of_parsed hparsed
  have hlt : size + 1 < 2 ^ 32 := by
    refine Nat.lt_of_not_le fun hge => hreturns ?_
    rw [embedInPdf, hframe, if_neg (Nat.not_lt.mpr hge), res_abort_bind]
  rw [if_pos hlt] at hframe
  obtain ⟨-, hupdate⟩ := hupdated _ (embedInPdf_eq_ok.mpr ⟨_, hframe, rfl⟩)
  obtain ⟨hheader, hgen, o, ho, hwith⟩ := catalog_of_updated hupdate
  obtain ⟨hnum, hgen'⟩ := objectHeader_inj (hcatalog.header_prefix htext.header_prefix) hheader
  exact ⟨hlt, hgen'.trans hgen, Prod.ext hnum hgen', o, ho, withEntry_inj hcatalog hwith⟩

theorem updates_of_leadsToCatalog (h : LeadsToCatalog d) : Updates d := by
  intro jumbf
  have hframe : ∀ {f}, Parsed d.bytes f → pdfFrame d.bytes = .ok f
      ∧ Updated d jumbf (d.bytes ++ update f d.bytes.length jumbf) := by
    intro f hparsed
    obtain ⟨text, htext, hcatalog⟩ := hparsed.catalog
    obtain ⟨hlt, hgen, hroot, o, ho, rfl⟩ := h _ _ _ _ hparsed.root hparsed.size htext
      (exists_withEntry.mp ⟨_, hcatalog⟩)
    refine ⟨(pdfFrame_of_parsed hparsed).trans (if_pos hlt), ?_⟩
    rw [hgen] at hroot htext
    exact updated_of_catalog jumbf hroot (hcatalog.header_prefix htext.header_prefix) ho hcatalog
  by_cases hfail : ∃ e, pdfFrame d.bytes = fail e
  · obtain ⟨e, he⟩ := hfail
    rw [embedInPdf, he, res_fail_bind]
    exact ⟨fail_ne_abort e, fun out h => absurd h (fail_ne_ok e out)⟩
  · obtain ⟨f, hparsed⟩ := exists_parsed fun e he => hfail ⟨e, he⟩
    obtain ⟨hok, hupdated⟩ := hframe hparsed
    rw [embedInPdf, hok, res_ok_bind]
    refine ⟨by rintro ⟨⟩, fun out hout => ?_⟩
    cases hout
    exact ⟨List.prefix_append _ _, hupdated⟩

/-- When the update is right. -/
theorem updates_iff (d : PdfDocument) : Updates d ↔ LeadsToCatalog d :=
  ⟨leadsToCatalog_of_updates, updates_of_leadsToCatalog⟩

/-! ## Short documents -/

def oneSpace : Gap := ⟨[0x20], by decide, List.all_eq_true.mp (by decide)⟩

def catalogObject (gen : Nat) (entries : String) : PdfObject :=
  ⟨1, gen, oneSpace, oneSpace, utf8 (" << " ++ entries ++ " >> ")⟩

def catalogTrailer (gen : Nat) (size : String) : PdfTrailer where
  front := utf8 " trailer << "
  rootNum := 1
  rootGen := gen
  behindKey := oneSpace
  behindNum := oneSpace
  behindGen := oneSpace
  back := utf8 (" /Size " ++ size ++ " >> startxref 9 %%EOF ")

/-- A base file with one object -/
def catalogPdf (gen : Nat) (size : String) : PdfDocument where
  version := utf8 "1.4 "
  base := ⟨[([], catalogObject gen "/Pages 2 0 R")], catalogTrailer gen size⟩
  updates := []

/-- An update that defines it anew -/
def redefinedPdf : PdfDocument where
  version := utf8 "1.4 "
  base := ⟨[([], catalogObject 0 "/Pages 2 0 R")], catalogTrailer 0 "3"⟩
  updates := [⟨[([], catalogObject 0 "/Pages 3 0 R")], catalogTrailer 0 "4"⟩]

/-- A table, a trailer and a catalog that are those of the only revision are updated rightly. -/
theorem updates_catalogPdf : Updates (catalogPdf 0 "3") := by
  have hroot : findRootRef (catalogPdf 0 "3").bytes = some (1, 0) := by decide +kernel
  have hsize : findTrailerSize (catalogPdf 0 "3").bytes = some 3 := by decide +kernel
  have hfound : findObjectBytes (catalogPdf 0 "3").bytes 1 0
      = some (catalogObject 0 "/Pages 2 0 R").bytes := by decide +kernel
  refine (updates_iff _).mpr fun num gen size text hnum hnext htext _ => ?_
  cases hroot.symm.trans hnum
  cases hsize.symm.trans hnext
  cases hfound.symm.trans (findObjectBytes_eq_some.mpr htext)
  exact ⟨by decide, rfl, rfl, _, rfl, rfl⟩

/-- A catalog that an update has replaced comes back, a generation is lost, and the number of a new
object runs out. -/
theorem updates_not_right :
    ¬ Updates redefinedPdf ∧ ¬ Updates (catalogPdf 1 "3")
      ∧ embedInPdf (catalogPdf 0 "4294967295").bytes [] = abort := by
  refine ⟨fun h => ?_, fun h => ?_, ?_⟩
  · -- the first definition is found, not the last
    have hfound : findObjectBytes redefinedPdf.bytes 1 0
        = some (catalogObject 0 "/Pages 2 0 R").bytes := by decide +kernel
    obtain ⟨-, -, -, o, ho, htext⟩ := leadsToCatalog_of_updates h 1 0 4 _ (by decide +kernel)
      (by decide +kernel) (findObjectBytes_eq_some.mp hfound)
      ⟨utf8 "1 0 obj << /Pages 2 0 R ", utf8 " endobj", by decide +kernel⟩
    have hlatest : redefinedPdf.catalog = some (catalogObject 0 "/Pages 3 0 R") := by rfl
    rw [hlatest, Option.some.injEq] at ho
    subst ho
    exact absurd htext (by decide +kernel)
  · -- the table says generation 0
    have hfound : findObjectBytes (catalogPdf 1 "3").bytes 1 1
        = some (catalogObject 1 "/Pages 2 0 R").bytes := by decide +kernel
    obtain ⟨-, hgen, -⟩ := leadsToCatalog_of_updates h 1 1 3 _ (by decide +kernel)
      (by decide +kernel) (findObjectBytes_eq_some.mp hfound)
      ⟨utf8 "1 1 obj << /Pages 2 0 R ", utf8 " endobj", by decide +kernel⟩
    exact absurd hgen (by decide)
  · -- the next object has no number
    have hfound : findObjectBytes (catalogPdf 0 "4294967295").bytes 1 0
        = some (catalogObject 0 "/Pages 2 0 R").bytes := by decide +kernel
    obtain ⟨newCatalog, hwith⟩ : ∃ result, WithEntry (catalogObject 0 "/Pages 2 0 R").bytes
        (c2paEntry 4294967295 0) result :=
      exists_withEntry.mpr ⟨utf8 "1 0 obj << /Pages 2 0 R ", utf8 " endobj",
        by decide +kernel⟩
    have hroot : findRootRef (catalogPdf 0 "4294967295").bytes = some (1, 0) := by decide +kernel
    have hsize : findTrailerSize (catalogPdf 0 "4294967295").bytes = some 4294967295 := by
      decide +kernel
    have hparsed : Parsed (catalogPdf 0 "4294967295").bytes ⟨1, 0, 4294967295, _, newCatalog⟩ :=
      ⟨PdfDocument.take_bytes _, hroot, hsize, ⟨_, findObjectBytes_eq_some.mp hfound, hwith⟩, rfl⟩
    have hlarge : ¬ 4294967295 + 1 < 2 ^ 32 := by decide
    rw [embedInPdf, pdfFrame_of_parsed hparsed, if_neg hlarge, res_abort_bind]

end WritersProof.C2pa
