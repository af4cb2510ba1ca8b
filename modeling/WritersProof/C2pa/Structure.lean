/-
  WritersProof.C2pa.Structure

  The check of a manifest store by its outermost boxes (`verify_jumbf_structure` of
  crates/authorproof-protocol/src/c2pa/jumbf.rs).
-/
import WritersProof.C2pa.Jumbf

namespace WritersProof.C2pa

open Rust Protocol

/-! ## Lengths -/

variable (data : Bytes) (offset : Nat)

/-- The bytes in front of the content of a box -/
def headerLength : Nat :=
  if beInt 4 (data.drop offset) = 1 then 16 else 8

/-- The length that a box gives; 1 stands for a length of 64 bits behind the type. -/
def boxLength : Nat :=
  if beInt 4 (data.drop offset) = 1 then beInt 8 (data.drop (offset + 8))
  else beInt 4 (data.drop offset)

/-- The header of a box is there up to `stop`, and its length leaves room for it. -/
structure Headed (data : Bytes) (stop offset : Nat) : Prop where
  short : offset + 8 ≤ stop
  long : beInt 4 (data.drop offset) = 1 → offset + 16 ≤ stop
  length : headerLength data offset ≤ boxLength data offset

/-- A box up to `stop` whose end is no `usize` -/
def Overflows (stop offset : Nat) : Prop :=
  Headed data stop offset ∧ 2 ^ 64 ≤ offset + boxLength data offset

/-- A box that ends at `stop` at the latest -/
def Fits (stop offset : Nat) : Prop :=
  Headed data stop offset ∧ offset + boxLength data offset < 2 ^ 64
    ∧ offset + boxLength data offset ≤ stop

theorem headerLength_pos : 8 ≤ headerLength data offset := by
  unfold headerLength
  split <;> decide

/-- A run of bytes -/
structure Span where
  start : Nat
  stop : Nat

def Span.Within (inner outer : Span) : Prop := outer.start ≤ inner.start ∧ inner.stop ≤ outer.stop

def boxSpan : Span := ⟨offset, offset + boxLength data offset⟩

/-- What a box contains -/
def contentSpan : Span :=
  ⟨offset + headerLength data offset, offset + boxLength data offset⟩

/-- Where the children are that stand side by side from `first` on -/
def childOffset (data : Bytes) (first : Nat) : Nat → Nat
  | 0 => first
  | n + 1 => childOffset data first n + boxLength data (childOffset data first n)

theorem childOffset_next (first n : Nat) :
    childOffset data (first + boxLength data first) n = childOffset data first (n + 1) := by
  induction n with
  | zero => rfl
  | succ n ih => rw [childOffset, ih, ← childOffset]

theorem le_childOffset (first n : Nat) : first ≤ childOffset data first n := by
  induction n with
  | zero => exact Nat.le_refl first
  | succ n ih => exact ih.trans (Nat.le_add_right _ _)

/-! ## The check -/

structure JumbfInfo where
  totalSize : Nat
  childBoxes : Nat

/-- `while offset + 8 <= box_len`: a child takes 8 bytes at least, so `data.len()` rounds do. -/
def verifyChildren (data : Bytes) (boxLen : Nat) :
    Nat → Nat → Bool → Nat → Res Error (Bool × Nat)
  | 0, _, foundJumd, childCount => .ok (foundJumd, childCount)
  | rounds + 1, offset, foundJumd, childCount =>
    if boxLen < offset + 8 then .ok (foundJumd, childCount)
    else do
      let childCompact := beInt 4 (data.drop offset)
      reject (childCompact = 1 ∧ boxLen < offset + 16)
        (.validation s!"Extended-size child box truncated at offset {offset}")
      let childLen := boxLength data offset
      reject (childLen < headerLength data offset)
        (.validation s!"Invalid child box length {childLen} at offset {offset}")
      let childEnd ← unwrap (checkedAdd offset childLen)
      reject (boxLen < childEnd)
        (.validation s!"Invalid child box length {childLen} at offset {offset}")
      let childType := (data.drop (offset + 4)).take 4
      -- the counter is a `u32`
      let childCount ← if childCount + 1 < 2 ^ 32 then .ok (childCount + 1) else abort
      let offset ← okOr (checkedAdd offset childLen) (.validation "JUMBF child box offset overflow")
      verifyChildren data boxLen rounds offset (foundJumd || decide (childType = JUMD)) childCount

/-- `verify_jumbf_structure`; `debug` is the `{:?}` of `String::from_utf8_lossy`. -/
def verifyJumbfStructure (debug : Bytes → String) (data : Bytes) : Res Error JumbfInfo := do
  reject (data.length < 8) (.validation "JUMBF data too short")
  reject (beInt 4 data = 1 ∧ data.length < 16) (.validation "JUMBF extended-size box too short")
  let boxLen := boxLength data 0
  reject (data.length < boxLen) (.validation "JUMBF box length exceeds data")
  let boxType := (data.drop 4).take 4
  reject (boxType ≠ JUMB) (.validation ("Expected JUMBF superbox, got " ++ debug boxType))
  let (foundJumd, childBoxes) ← verifyChildren data boxLen data.length (headerLength data 0) false 0
  reject (foundJumd = false) (.validation "Manifest store missing description box")
  .ok { totalSize := boxLen, childBoxes }

/-! ## What it looks at -/

/-- The check comes to child `n`: those before it are inside of the box. -/
def Inspects (stop first n : Nat) : Prop :=
  (∀ i < n, Fits data stop (childOffset data first i)) ∧ childOffset data first n + 8 ≤ stop

variable {data : Bytes} {first n boxLen rounds count : Nat} {found : Bool}

theorem inspects_zero {stop : Nat} : Inspects data stop first 0 ↔ first + 8 ≤ stop :=
  ⟨And.right, fun h => ⟨fun _ hi => absurd hi (Nat.not_lt_zero _), h⟩⟩

theorem inspects_succ {stop : Nat} :
    Inspects data stop first (n + 1) ↔
      Fits data stop first ∧ Inspects data stop (first + boxLength data first) n := by
  unfold Inspects
  simp only [childOffset_next]
  constructor
  · rintro ⟨hfits, hstop⟩
    exact ⟨hfits 0 (Nat.succ_pos n), fun i hi => hfits (i + 1) (Nat.succ_lt_succ hi), hstop⟩
  · rintro ⟨hfirst, hfits, hstop⟩
    refine ⟨fun i hi => ?_, hstop⟩
    cases i with
    | zero => exact hfirst
    | succ i => exact hfits i (Nat.lt_of_succ_lt_succ hi)

/-- The checks on the length of a box whose short header is there, whatever follows them -/
theorem checked_cases {α : Type} (data : Bytes) {stop offset : Nat} (hinside : offset + 8 ≤ stop)
    (e₁ e₂ e₃ : Error) (x : Nat → Res Error α) {r : Res Error α}
    (hr : r = (do
      reject (beInt 4 (data.drop offset) = 1 ∧ stop < offset + 16) e₁
      reject (boxLength data offset < headerLength data offset) e₂
      let boxEnd ← unwrap (checkedAdd offset (boxLength data offset))
      reject (stop < boxEnd) e₃
      x boxEnd)) :
    (Fits data stop offset ∧ r = x (offset + boxLength data offset))
      ∨ (Overflows data stop offset ∧ r = abort)
      ∨ (¬ Fits data stop offset ∧ ¬ Overflows data stop offset ∧ ∃ e, r = fail e) := by
  subst hr
  by_cases hlong : beInt 4 (data.drop offset) = 1 ∧ stop < offset + 16
  · -- no room for a long length
    have hnot : ¬ Headed data stop offset := fun h => absurd (h.long hlong.1) (by omega)
    refine .inr (.inr ⟨fun h => hnot h.1, fun h => hnot h.1, ?_⟩)
    rw [reject, if_pos hlong]
    exact ⟨_, rfl⟩
  rw [reject, if_neg hlong, res_ok_bind]
  by_cases hlength : boxLength data offset < headerLength data offset
  · have hnot : ¬ Headed data stop offset := fun h => absurd h.length (Nat.not_le.mpr hlength)
    refine .inr (.inr ⟨fun h => hnot h.1, fun h => hnot h.1, ?_⟩)
    rw [reject, if_pos hlength]
    exact ⟨_, rfl⟩
  rw [reject, if_neg hlength, res_ok_bind]
  have hheaded : Headed data stop offset :=
    ⟨hinside, fun h => Nat.not_lt.mp fun hlt => hlong ⟨h, hlt⟩, Nat.not_lt.mp hlength⟩
  by_cases hmax : offset + boxLength data offset < 2 ^ 64
  · rw [checkedAdd_eq_some hmax, unwrap_some, res_ok_bind]
    by_cases hstop : stop < offset + boxLength data offset
    · refine .inr (.inr ⟨fun h => absurd h.2.2 (Nat.not_le.mpr hstop),
        fun h => absurd h.2 (Nat.not_le.mpr hmax), ?_⟩)
      rw [reject, if_pos hstop]
      exact ⟨_, rfl⟩
    · refine .inl ⟨⟨hheaded, hmax, Nat.not_lt.mp hstop⟩, ?_⟩
      rw [reject, if_neg hstop, res_ok_bind]
  · refine .inr (.inl ⟨⟨hheaded, Nat.not_lt.mp hmax⟩, ?_⟩)
    rw [checkedAdd, if_neg hmax]
    rfl

theorem verifyChildren_succ (data : Bytes) {offset : Nat} (hinside : offset + 8 ≤ boxLen)
    (rounds : Nat) (found : Bool) (count : Nat) :
    (Fits data boxLen offset
        ∧ verifyChildren data boxLen (rounds + 1) offset found count
          = if count + 1 < 2 ^ 32 then
              verifyChildren data boxLen rounds (offset + boxLength data offset)
                (found || decide ((data.drop (offset + 4)).take 4 = JUMD)) (count + 1)
            else abort)
      ∨ (Overflows data boxLen offset
        ∧ verifyChildren data boxLen (rounds + 1) offset found count = abort)
      ∨ (¬ Fits data boxLen offset ∧ ¬ Overflows data boxLen offset
        ∧ ∃ e, verifyChildren data boxLen (rounds + 1) offset found count = fail e) := by
  rcases checked_cases data hinside _ _ _ _ ((verifyChildren.eq_2 _ _ _ _ _ _).trans
    (if_neg (Nat.not_lt.mpr hinside))) with ⟨hfits, heq⟩ | hother
  · refine .inl ⟨hfits, heq.trans ?_⟩
    dsimp only
    rw [checkedAdd_eq_some hfits.2.1]
    split <;> rfl
  · exact .inr hother

/-- A child at which the check aborts: its end is no `usize`, or it is one more than the counter
    holds. -/
def Breaks (data : Bytes) (stop offset count : Nat) : Prop :=
  Overflows data stop offset ∨ Fits data stop offset ∧ 2 ^ 32 ≤ count + 1

/-- The check aborts where it comes to such a child. -/
theorem verifyChildren_eq_abort {offset : Nat} (hrounds : boxLen ≤ offset + rounds) :
    verifyChildren data boxLen rounds offset found count = abort ↔
      ∃ n, Inspects data boxLen offset n
        ∧ Breaks data boxLen (childOffset data offset n) (count + n) := by
  induction rounds generalizing offset count found with
  | zero =>
    rw [verifyChildren]
    refine ⟨nofun, ?_⟩
    rintro ⟨n, ⟨hfits, hstop⟩, -⟩
    cases n with
    | zero => exact absurd hstop (by rw [childOffset]; omega)
    | succ n =>
      have := (hfits 0 (Nat.succ_pos n)).1.short
      rw [childOffset] at this
      omega
  | succ rounds ih =>
    by_cases hinside : offset + 8 ≤ boxLen
    · rcases verifyChildren_succ data hinside rounds found count with ⟨hfits, heq⟩ | ⟨hover, heq⟩
        | ⟨hfits, hover, e, heq⟩
      · have hlength := hfits.1.length
        have hheader := headerLength_pos data offset
        rw [heq]
        split
        -- there is room for one more in the count
        next hcount =>
          rw [ih (by omega)]
          constructor
          · rintro ⟨n, hn, hbreaks⟩
            refine ⟨n + 1, inspects_succ.mpr ⟨hfits, hn⟩, ?_⟩
            rwa [childOffset_next, Nat.add_assoc, Nat.add_comm 1 n] at hbreaks
          · rintro ⟨n, hn, hbreaks⟩
            cases n with
            | zero =>
              rcases hbreaks with hbad | ⟨-, hbad⟩
              · exact absurd hfits.2.1 (Nat.not_lt.mpr hbad.2)
              · exact absurd hcount (Nat.not_lt.mpr hbad)
            | succ n =>
              refine ⟨n, (inspects_succ.mp hn).2, ?_⟩
              rwa [childOffset_next, Nat.add_assoc, Nat.add_comm 1 n]
        next hcount =>
          refine ⟨fun _ => ⟨0, inspects_zero.mpr hinside, .inr ⟨hfits, Nat.not_lt.mp hcount⟩⟩,
            fun _ => rfl⟩
      · exact ⟨fun _ => ⟨0, inspects_zero.mpr hinside, .inl hover⟩, fun _ => heq⟩
      · rw [heq]
        refine ⟨nofun, ?_⟩
        rintro ⟨n, hn, hbreaks⟩
        cases n with
        | zero =>
          rcases hbreaks with hbad | ⟨hbad, -⟩
          · exact absurd hbad hover
          · exact absurd hbad hfits
        | succ n => exact absurd (inspects_succ.mp hn).1 hfits
    · rw [verifyChildren, if_pos (Nat.not_le.mp hinside)]
      refine ⟨nofun, ?_⟩
      rintro ⟨n, hn, -⟩
      cases n with
      | zero => exact absurd hn.2 hinside
      | succ n => exact absurd (inspects_succ.mp hn).1.1.short hinside

/-- What is inside of a box is known when the check returns. -/
theorem fits_of_verifyChildren {offset : Nat} {result : Bool × Nat}
    (hrounds : boxLen ≤ offset + rounds)
    (h : verifyChildren data boxLen rounds offset found count = .ok result)
    (hn : Inspects data boxLen offset n) : Fits data boxLen (childOffset data offset n) := by
  induction n generalizing rounds offset count found with
  | zero =>
    have hinside := inspects_zero.mp hn
    cases rounds with
    | zero => omega
    | succ rounds =>
      rcases verifyChildren_succ data hinside rounds found count with ⟨hfits, -⟩ | ⟨-, heq⟩
        | ⟨-, -, e, heq⟩
      · exact hfits
      · exact absurd (heq.symm.trans h) (abort_ne_ok _)
      · exact absurd (heq.symm.trans h) (fail_ne_ok _ _)
  | succ n ih =>
    obtain ⟨hfits, hrest⟩ := inspects_succ.mp hn
    have hheader := headerLength_pos data offset
    have hlength := hfits.1.length
    have hinside := hfits.1.short
    cases rounds with
    | zero => omega
    | succ rounds =>
      rcases verifyChildren_succ data hinside rounds found count with ⟨-, heq⟩ | ⟨hover, -⟩
        | ⟨hnot, -, -⟩
      · rw [heq] at h
        split at h
        next =>
          rw [← childOffset_next]
          exact ih (by omega) h hrest
        next => exact absurd h (abort_ne_ok _)
      · exact absurd hfits.2.1 (Nat.not_lt.mpr hover.2)
      · exact absurd hfits hnot

/-! ## The whole check -/

def ChecksChildren (data : Bytes) : Prop :=
  8 ≤ data.length ∧ (beInt 4 data = 1 → 16 ≤ data.length) ∧ boxLength data 0 ≤ data.length
    ∧ (data.drop 4).take 4 = JUMB

/-- The check aborts where it comes to a child at which it breaks. -/
theorem verifyJumbfStructure_eq_abort (debug : Bytes → String) (data : Bytes) :
    verifyJumbfStructure debug data = abort ↔
      ChecksChildren data ∧ ∃ n, Inspects data (boxLength data 0) (headerLength data 0) n
        ∧ Breaks data (boxLength data 0) (childOffset data (headerLength data 0) n) n := by
  unfold verifyJumbfStructure
  simp only [reject_bind_eq_abort, not_lt, not_and, not_not]
  unfold ChecksChildren
  simp only [and_assoc]
  refine and_congr_right fun _ => and_congr_right fun _ => and_congr_right fun hlen =>
    and_congr_right fun _ => ?_
  have hchildren : verifyChildren data (boxLength data 0) data.length (headerLength data 0) false 0
      = abort ↔ _ := verifyChildren_eq_abort (by omega)
  simp only [Nat.zero_add] at hchildren
  rw [← hchildren, res_bind_eq_abort]
  refine or_iff_left ?_
  rintro ⟨result, -, h⟩
  exact absurd (reject_bind_eq_abort.mp h).2 nofun

/-- Where the check returns, the children are inside of the store, and the store of the data. -/
theorem within_of_verify {debug : Bytes → String} {info : JumbfInfo}
    (h : verifyJumbfStructure debug data = .ok info) :
    (boxSpan data 0).Within ⟨0, data.length⟩
      ∧ ∀ n, Inspects data (boxLength data 0) (headerLength data 0) n →
        (boxSpan data (childOffset data (headerLength data 0) n)).Within (contentSpan data 0) := by
  unfold verifyJumbfStructure at h
  obtain ⟨-, h⟩ := reject_bind_eq_ok.mp h
  obtain ⟨-, h⟩ := reject_bind_eq_ok.mp h
  obtain ⟨hlen, h⟩ := reject_bind_eq_ok.mp h
  obtain ⟨-, h⟩ := reject_bind_eq_ok.mp h
  obtain ⟨result, hchildren, -⟩ := res_bind_eq_ok.mp h
  have hlen' := Nat.not_lt.mp hlen
  refine ⟨⟨Nat.le_refl 0, by rw [boxSpan, Nat.zero_add]; exact hlen'⟩, fun n hn => ?_⟩
  have hfits := fits_of_verifyChildren (by omega) hchildren hn
  have hfirst := le_childOffset data (headerLength data 0) n
  refine ⟨?_, ?_⟩
  · show 0 + headerLength data 0 ≤ _
    rwa [Nat.zero_add]
  · show _ ≤ 0 + boxLength data 0
    rw [Nat.zero_add]
    exact hfits.2.2

end WritersProof.C2pa
