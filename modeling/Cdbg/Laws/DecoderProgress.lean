import Cdbg.Source.DecoderSteps

/-!
Where the loops of `parse_line_table` and `parse_line_program` get to.

Every round of either loop moves the read position on, except at two kinds of place: one to
three bytes before the end of the section, where `read_u32` reads nothing, and an extended
opcode whose length wraps the sum with the position to the opcode or before it. A run that
comes to neither returns.
-/

namespace Cdbg

open Prog

namespace Decoder

/-! ### The head of a unit -/

/-- What the functions that read a header show of what they touch, as long as the cursor
stays in the section. -/
def Judges (m : LineSections) (ok good : Touch → Prop) : Prop :=
  ∀ c t c', ReadStep m c t c' → m.start .line ≤ c.data → c.data ≤ c.end_ → c.end_ ≤ m.end_ →
    (∀ e ∈ t, ok e) → ∀ e ∈ t, good e

/-- What is left of a unit at its head: it ends behind a place and not behind another, and
its program starts at most one byte before the first. -/
def UnitHead.Within (d e : Addr) : UnitHead → Prop
  | .skip next => d ≤ next ∧ next ≤ e
  | .program _ _ unit => d ≤ unit.end_ ∧ unit.end_ ≤ e ∧ d ≤ unit.data + 1

section Head

lemma end_toNat (m : LineSections) :
    m.end_.toNat = (m.start .line).toNat + (m.size .line).toNat := by
  have hfits := m.fits
  rw [LineSections.end_]
  bv_omega

lemma setWidth_toNat_lt (x : BitVec 32) : (x.setWidth 64).toNat < 2 ^ 32 := by
  have hx := x.isLt
  simp only [BitVec.toNat_setWidth]
  omega

variable {m : LineSections} {ok good : Touch → Prop}

lemma Judges.spec {α : Type} (hj : Judges m ok good) {p : Decoder α} (hp : Moves (ReadStep m) p)
    {d e : Addr} (hd : m.start .line ≤ d) (he : e ≤ m.end_) :
    Spec ok good (Between d e) p fun _ => Between d e := by
  refine hp.spec fun c t c' hs hc hok => ⟨hs.between hc, ?_⟩
  obtain ⟨hdc, hce, rfl⟩ := hc
  exact hj c t c' hs (BitVec.le_trans hd hdc) hce he hok

lemma Judges.spec_readUnit (hj : Judges m ok good) (v5 : Bool) {d e : Addr} (hd : m.start .line ≤ d)
    (he : e ≤ m.end_) :
    Spec ok good (Between d e) (readUnit m v5) fun head _ => head.Within d e := by
  have hfits := m.fits
  have hend := end_toNat m
  refine (hj.spec (moves_readUnitFields m v5) hd he).bind fun fields => ?_
  refine Spec.get_bind fun c hc => ?_
  obtain ⟨hdc, hce, rfl⟩ := hc
  have hlen := setWidth_toNat_lt fields.2
  refine Spec.ite (fun _ => Spec.hang) fun hle => ?_
  generalize hp : c.data + fields.2.setWidth 64 = prologueEnd at hle ⊢
  have hdp : d ≤ prologueEnd := by bv_omega
  have hpe : prologueEnd ≤ c.end_ := by bv_omega
  have hmod : Spec ok good (· = c)
      (Prog.modify fun c => { c with end_ := prologueEnd } : Decoder Unit)
      fun _ => Between d prologueEnd := by
    refine Spec.modify fun c' hc' => ?_
    subst hc'
    refine ⟨hdc, ?_, rfl⟩
    show c'.data ≤ prologueEnd
    bv_omega
  have hprologue := hj.spec (moves_readPrologue m v5 fields.1) hd (BitVec.le_trans hpe he)
  refine hmod.bind fun _ => hprologue.bind fun p => Spec.get_bind fun stop hstop => ?_
  obtain ⟨hds, hse, hs⟩ := hstop
  refine Spec.pure_from _ ⟨BitVec.le_trans hdp hpe, BitVec.le_refl _, ?_⟩
  cases v5 with
  | true =>
      show d ≤ prologueEnd - 1 + 1
      bv_omega
  | false =>
      show d ≤ stop.data + 1
      bv_omega

/-- The head of a unit whose length ends at `d`. -/
lemma Judges.spec_unitHead (hj : Judges m ok good) {data d : Addr} (hd : m.start .line ≤ d)
    (hread : Spec ok good (· = ⟨data, m.end_⟩) (readU32 m) fun _ => Between d m.end_) :
    Spec ok good (· = ⟨data, m.end_⟩) (unitHead m) fun head _ => head.Within d m.end_ := by
  have hfits := m.fits
  have hend := end_toNat m
  refine hread.bind fun unitLength => Spec.ite (fun _ => Spec.hang) fun _ => ?_
  refine Spec.get_bind fun c hc => ?_
  obtain ⟨hdc, hce, he⟩ := hc
  have hlen := setWidth_toNat_lt unitLength
  refine Spec.ite (fun _ => Spec.hang) fun hle => ?_
  generalize hu : c.data + unitLength.setWidth 64 = unitEnd at hle ⊢
  rw [he] at hle hce
  have hdu : d ≤ unitEnd := by bv_omega
  have hue : unitEnd ≤ m.end_ := by bv_omega
  have hmod : Spec ok good (· = c)
      (Prog.modify fun c => { c with end_ := unitEnd } : Decoder Unit)
      fun _ => Between d unitEnd := by
    refine Spec.modify fun c' hc' => ?_
    subst hc'
    refine ⟨hdc, ?_, rfl⟩
    show c'.data ≤ unitEnd
    bv_omega
  have hversion := hj.spec (moves_cursor m (moves_readU16 m)) hd hue
  refine hmod.bind fun _ => hversion.bind fun version => Spec.ite (fun _ => ?_) fun _ => ?_
  · exact Spec.pure _ fun _ _ => ⟨hdu, hue⟩
  · refine (hj.spec_readUnit _ hd hue).post fun head _ hhead => ?_
    cases head with
    | skip next => exact ⟨hhead.1, BitVec.le_trans hhead.2 hue⟩
    | program v5 p unit => exact ⟨hhead.1, BitVec.le_trans hhead.2.1 hue, hhead.2.2⟩

end Head

/-! ### A round of the program -/

section Round

variable (m : LineSections)

/-- What a round does behind its opcode. -/
def afterOpcode (h : LineHeader) (s : LineState) (opcode : Byte) : Decoder LineRound :=
  if opcode = 0 then extended m h s
  else if opcode < h.opcodeBase then standard m h s opcode
  else special h s opcode

lemma readU8_of_lt {c : ParseCursor} (h : c.data < c.end_) :
    readU8 m c = ⟨some (m.mem c.data), ⟨c.data + 1, c.end_⟩, [.load .line c.data]⟩ := by
  have hone : 1 ≤ (c.end_ - c.data).toNat := by bv_omega
  rw [readU8_apply, takeRun, if_pos hone]
  simp

lemma round_of_lt (h : LineHeader) (s : LineState) {c : ParseCursor} (hc : c.data < c.end_) :
    round m h s c = ⟨(afterOpcode m h s (m.mem c.data) ⟨c.data + 1, c.end_⟩).value,
      (afterOpcode m h s (m.mem c.data) ⟨c.data + 1, c.end_⟩).final,
      .load .line c.data :: (afterOpcode m h s (m.mem c.data) ⟨c.data + 1, c.end_⟩).trace⟩ := by
  rw [round, bind_of_eq (readU8_of_lt m hc)]
  rfl

/-- The standard opcodes whose round is a read of operands. -/
lemma moves_standard (h : LineHeader) (s : LineState) {opcode : Byte}
    (hop : opcode.toNat ∈ [1, 2, 3, 4, 5, 9]) : Moves CursorStep (standard m h s opcode) := by
  have huleb := moves_readUleb128 m
  rw [standard]
  split
  · exact Moves.pure _
  · exact huleb.bind fun _ => Moves.pure _
  · exact (moves_readSleb128 m).bind fun _ => Moves.pure _
  · exact huleb.bind fun _ => Moves.pure _
  · exact huleb.bind fun _ => Moves.pure _
  · next h8 => simp [h8] at hop
  · exact (moves_readU16 m).bind fun _ => Moves.pure _
  · simp_all

/-- The standard opcodes that are skipped by the length the header gives them. -/
lemma standard_skipped (h : LineHeader) (s : LineState) {opcode : Byte}
    (hop : opcode.toNat ∉ [1, 2, 3, 4, 5, 8, 9]) :
    standard m h s opcode = (do
      touch (.length opcode.toNat)
      advance (stdLength m h opcode.toNat).toNat
      return (none, s)) := by
  rw [standard]
  split <;> simp_all

lemma returns_of_takeRun {α : Type} {p : Decoder α} (n : ℕ) (a : ParseCursor → α) (b : α)
    (hp : ∀ c, p c = takeRun n (a c) b c) : Returns p := by
  intro c
  rw [hp c, takeRun]
  split
  · exact ⟨_, rfl⟩
  · exact ⟨_, rfl⟩

lemma returns_readU8 : Returns (readU8 m) :=
  returns_of_takeRun 1 (fun c => m.mem c.data) 0 (readU8_apply m)

lemma returns_readU16 : Returns (readU16 m) :=
  returns_of_takeRun 2 (fun c => m.mem (c.data + 1) ++ m.mem c.data) 0 (readU16_apply m)

lemma returns_readU32 : Returns (readU32 m) := returns_of_takeRun 4
  (fun c => m.mem (c.data + 3) ++ m.mem (c.data + 2) ++ m.mem (c.data + 1) ++ m.mem c.data) 0
  (readU32_apply m)

lemma returns_readU64 : Returns (readU64 m) := by
  have h := returns_readU8 m
  refine h.bind fun _ => h.bind fun _ => h.bind fun _ => h.bind fun _ => ?_
  exact h.bind fun _ => h.bind fun _ => h.bind fun _ => h.bind fun _ => Returns.pure _

lemma returns_lebLoop : ∀ (n shift : ℕ) (value : BitVec 64) (byte : Byte),
    Returns (lebLoop m n shift value byte)
  | 0, _, _, _ => Returns.pure _
  | n + 1, _, _, _ =>
      (returns_readU8 m).bind fun _ => Returns.ite (Returns.pure _) (returns_lebLoop n _ _ _)

lemma returns_readUleb128 : Returns (readUleb128 m) :=
  (returns_lebLoop m 10 0 0 0).bind fun _ => Returns.pure _

lemma returns_subOpcode (h : LineHeader) (s : LineState) (sub : Byte) :
    Returns (subOpcode m h s sub) := by
  refine Returns.ite (Returns.pure _) (Returns.ite ?_ (Returns.ite ?_ (Returns.pure _)))
  · exact (returns_readU64 m).bind fun _ => Returns.pure _
  · exact (returns_readU32 m).bind fun _ => Returns.pure _

lemma moves_subOpcode (h : LineHeader) (s : LineState) (sub : Byte) :
    Moves CursorStep (subOpcode m h s sub) := by
  refine Moves.ite (Moves.pure _) (Moves.ite ?_ (Moves.ite ?_ (Moves.pure _)))
  · exact (moves_readU64 m).bind fun _ => Moves.pure _
  · exact (moves_readU32 m).bind fun _ => Moves.pure _

/-- The length of an extended opcode, read at its first operand, and where it stands then. -/
def extLength (c : ParseCursor) : BitVec 64 × Addr :=
  ((readUleb128 m c).value.getD 0, (readUleb128 m c).final.data)

lemma returns_extendedTo (h : LineHeader) (s : LineState) (extEnd : Addr) :
    Returns (extendedTo m h s extEnd) :=
  (returns_readU8 m).bind fun sub => (returns_subOpcode m h s sub).bind fun _ _ => ⟨_, rfl⟩

lemma spec_extendedTo (h : LineHeader) (s : LineState) (extEnd d e : Addr) :
    Spec (fun _ => True) (fun _ => True) (Between d e) (extendedTo m h s extEnd)
      fun _ c => c = ⟨extEnd, e⟩ := by
  have hu8 := spec_between (moves_cursor m (moves_readU8 m)) d e
  refine hu8.bind fun sub => ?_
  refine (spec_between (moves_cursor m (moves_subOpcode m h s sub)) d e).bind fun round => ?_
  have hmod : Spec (fun _ => True) (fun _ => True) (Between d e)
      (Prog.modify fun c => { c with data := extEnd } : Decoder Unit)
      fun _ c => c = ⟨extEnd, e⟩ :=
    Spec.modify fun c hc => congrArg (ParseCursor.mk extEnd) hc.2.2
  exact hmod.bind fun _ => Spec.pure _ fun _ hc => hc

/-- An extended opcode ends where its length says, if that is not behind the end. -/
lemma extended_cases (h : LineHeader) (s : LineState) {d q : Addr} {len : BitVec 64}
    {c : ParseCursor} (hc : Between d c.end_ c) (hlen : extLength m c = (len, q)) :
    d ≤ q ∧ q ≤ c.end_ ∧
      (c.end_ < q + len ∧ (extended m h s c).value = none ∨
        q + len ≤ c.end_ ∧ ∃ a, (extended m h s c).value = some a ∧
          (extended m h s c).final = ⟨q + len, c.end_⟩) := by
  obtain ⟨v, hv⟩ := returns_readUleb128 m c
  have hspec := spec_between (moves_cursor m (moves_readUleb128 m)) d c.end_
  have hq := (hspec c hc fun _ _ => trivial).2 v hv
  rcases hr : readUleb128 m c with ⟨w, c', t⟩
  rw [extLength, hr] at hlen
  rw [hr] at hv hq
  obtain rfl : w = some v := hv
  obtain ⟨rfl, rfl⟩ : v = len ∧ c'.data = q := Prod.mk.inj hlen
  have hc' : Between d c.end_ c' := hq
  obtain ⟨hd, hle, he⟩ := hc'
  refine ⟨hd, he ▸ hle, ?_⟩
  rw [extended, bind_of_eq hr, Prog.get_bind, he]
  by_cases hlt : c.end_ < c'.data + v
  · rw [if_pos hlt]
    exact Or.inl ⟨hlt, rfl⟩
  · rw [if_neg hlt]
    obtain ⟨a, ha⟩ := returns_extendedTo m h s (c'.data + v) c'
    have hto := spec_extendedTo m h s (c'.data + v) d c.end_
    exact Or.inr ⟨BitVec.not_lt.mp hlt, a, ha, (hto c' hq fun _ _ => trivial).2 a ha⟩

/-- Any other opcode ends behind where it starts. -/
lemma spec_standard (h : LineHeader) (s : LineState) (opcode : Byte) {d e : Addr}
    (he : e.toNat ≤ 2 ^ 63) :
    Spec (fun _ => True) (fun _ => True) (Between d e) (standard m h s opcode)
      fun _ c => d ≤ c.data ∧ c.end_ = e := by
  by_cases hread : opcode.toNat ∈ [1, 2, 3, 4, 5, 9]
  · have hmoves := moves_cursor m (moves_standard m h s hread)
    exact (spec_between hmoves d e).post fun _ _ hc => ⟨hc.1, hc.2.2⟩
  · by_cases hconst : opcode.toNat = 8
    · intro c hc _
      rw [standard, hconst]
      exact ⟨fun _ _ => trivial, fun _ _ => ⟨hc.1, hc.2.2⟩⟩
    · have hskip : opcode.toNat ∉ [1, 2, 3, 4, 5, 8, 9] := by
        simp only [List.mem_cons, List.not_mem_nil, or_false, not_or] at hread ⊢
        omega
      rw [standard_skipped m h s hskip]
      intro c hc _
      refine ⟨fun _ _ => trivial, fun _ _ => ⟨?_, hc.2.2⟩⟩
      obtain ⟨hdc, hce, rfl⟩ := hc
      have hlen := (stdLength m h opcode.toNat).isLt
      show d ≤ c.data + BitVec.ofNat 64 (stdLength m h opcode.toNat).toNat
      bv_omega

/-- The cursor is before an extended opcode whose length sets it back: its sum with the
place behind it wraps, and comes out at the opcode or before it. -/
def WrapsBack (c : ParseCursor) : Prop :=
  m.mem c.data = 0 ∧
    2 ^ 64 ≤ (extLength m ⟨c.data + 1, c.end_⟩).2.toNat +
      (extLength m ⟨c.data + 1, c.end_⟩).1.toNat ∧
    ((extLength m ⟨c.data + 1, c.end_⟩).2 - c.data).toNat +
      (extLength m ⟨c.data + 1, c.end_⟩).1.toNat ≤ 2 ^ 64

/-- A round that is not the last ends behind where it starts, unless its length wraps. -/
lemma round_advances (h : LineHeader) (s : LineState) {c : ParseCursor} (hc : c.data < c.end_)
    (he : c.end_.toNat ≤ 2 ^ 63) {a : LineRound} (ha : (round m h s c).value = some a) :
    (round m h s c).final.end_ = c.end_ ∧
      (WrapsBack m c ∨ c.data < (round m h s c).final.data) := by
  rw [round_of_lt m h s hc] at ha ⊢
  have hnext : Between (c.data + 1) c.end_ ⟨c.data + 1, c.end_⟩ :=
    ⟨BitVec.le_refl _, by show c.data + 1 ≤ c.end_; bv_omega, rfl⟩
  by_cases hzero : m.mem c.data = 0
  · rw [afterOpcode, if_pos hzero] at ha ⊢
    rcases hlen : extLength m ⟨c.data + 1, c.end_⟩ with ⟨len, q⟩
    obtain ⟨hdq, hqe, ⟨_, hnone⟩ | ⟨hle, b, _, hfinal⟩⟩ := extended_cases m h s hnext hlen
    · rw [hnone] at ha
      cases ha
    · rw [hfinal]
      refine ⟨rfl, ?_⟩
      by_cases hwrap : WrapsBack m c
      · exact Or.inl hwrap
      · refine Or.inr ?_
        simp only [WrapsBack, hzero, hlen, true_and, not_and, not_le] at hwrap
        show c.data < q + len
        bv_omega
  · have hafter : Spec (fun _ => True) (fun _ => True) (Between (c.data + 1) c.end_)
        (afterOpcode m h s (m.mem c.data)) fun _ c' => c.data + 1 ≤ c'.data ∧ c'.end_ = c.end_ := by
      rw [afterOpcode, if_neg hzero]
      refine Spec.ite (fun _ => spec_standard m h s _ he) fun _ => ?_
      intro c' hc' _
      exact ⟨fun _ _ => trivial, fun _ _ => ⟨hc'.1, hc'.2.2⟩⟩
    obtain ⟨hdata, hend⟩ := (hafter _ hnext fun _ _ => trivial).2 a ha
    refine ⟨hend, Or.inr ?_⟩
    bv_omega

/-- A round whose length wraps ends at its opcode or before it. -/
lemma round_wraps (h : LineHeader) (s : LineState) {c : ParseCursor} (hc : c.data < c.end_)
    (he : c.end_.toNat ≤ 2 ^ 63) (hwrap : WrapsBack m c) :
    ∃ a, (round m h s c).value = some a ∧ (round m h s c).final.data ≤ c.data := by
  rw [round_of_lt m h s hc, afterOpcode, if_pos hwrap.1]
  have hnext : Between (c.data + 1) c.end_ ⟨c.data + 1, c.end_⟩ :=
    ⟨BitVec.le_refl _, by show c.data + 1 ≤ c.end_; bv_omega, rfl⟩
  rcases hlen : extLength m ⟨c.data + 1, c.end_⟩ with ⟨len, q⟩
  obtain ⟨_, hsum, hback⟩ := hwrap
  rw [hlen] at hsum hback
  obtain ⟨hdq, hqe, ⟨hlt, _⟩ | ⟨_, a, ha, hfinal⟩⟩ := extended_cases m h s hnext hlen
  · bv_omega
  · refine ⟨a, ha, ?_⟩
    rw [hfinal]
    show q + len ≤ c.data
    bv_omega

end Round

end Decoder

/-! ### The loops -/

namespace LineSections

open Decoder

variable (m : LineSections)

/-- The loops stand at the section: the cursor of `parse_line_table` between its start and
its end, the end of a unit as well. -/
def Stands : LinePosition → Prop
  | .units data _ => m.start .line ≤ data ∧ data ≤ m.end_
  | .opcodes _ _ unit _ => m.start .line ≤ unit.end_ ∧ unit.end_ ≤ m.end_
  | .returned _ _ => True

/-- The round that starts here moves the read position of its loop on, or is the last one. -/
def Advances : LinePosition → Prop
  | .units data ln => data < m.end_ →
      match m.next (.units data ln) with
      | .units data' _ => data < data'
      | .opcodes _ _ unit _ => data < unit.end_
      | .returned _ _ => True
  | .opcodes p s unit ln => unit.data < unit.end_ →
      match m.next (.opcodes p s unit ln) with
      | .opcodes _ _ unit' _ => unit.data < unit'.data
      | _ => True
  | .returned _ _ => True

/-- A unit has no bytes or its whole length before it, and an opcode no length that wraps
the position back. -/
def Proceeds : LinePosition → Prop
  | .units data _ => data = m.end_ ∨ 4 ≤ (m.end_ - data).toNat
  | .opcodes _ _ unit _ => unit.data < unit.end_ → ¬ WrapsBack m unit
  | .returned _ _ => True

/-- What is left of the section, the unit and the way back. -/
def left : LinePosition → ℕ
  | .units data _ => 2 * (m.end_.toNat - data.toNat) + 2
  | .opcodes _ _ unit _ =>
      2 * (m.end_.toNat - unit.end_.toNat) + 3 + (unit.end_.toNat - unit.data.toNat)
  | .returned _ _ => 0

lemma unitBody_apply (ln : LineRows) (c : ParseCursor) : m.unitBody ln c =
    ⟨(unitHead m c).value.map (behindHead ln), (unitHead m c).final, (unitHead m c).trace⟩ := by
  rw [unitBody, bind_pure_comp, map_apply]

lemma opcodeBody_apply (p : Prologue) (s : LineState) (ln : LineRows) (c : ParseCursor) :
    m.opcodeBody p s ln c =
      ⟨(round m p.header s c).value.map (behindRound p ln (round m p.header s c).final),
        (round m p.header s c).final, (round m p.header s c).trace⟩ := by
  rcases hr : round m p.header s c with ⟨_ | r, c', t⟩
  · rw [opcodeBody, bind_of_none hr]
    rfl
  · rw [opcodeBody, bind_of_eq hr]
    simp

variable {m}

lemma next_units {data : Addr} (ln : LineRows) (h : data < m.end_) :
    m.next (.units data ln) =
      ((unitHead m ⟨data, m.end_⟩).value.map (behindHead ln)).getD (.returned (-1) ln) := by
  rw [next, if_pos h, unitBody_apply]

lemma next_opcodes (p : Prologue) (s : LineState) {unit : ParseCursor} (ln : LineRows)
    (h : unit.data < unit.end_) : m.next (.opcodes p s unit ln) =
      ((round m p.header s unit).value.map
        (behindRound p ln (round m p.header s unit).final)).getD (.returned (-1) ln) := by
  rw [next, if_pos h, opcodeBody_apply]

/-- What is behind the head of a unit whose length ends at `d`. -/
lemma within_of_unitHead {data d : Addr} (hd : m.start .line ≤ d)
    (hread : Between d m.end_ (Decoder.readU32 m ⟨data, m.end_⟩).final) {head : UnitHead}
    (h : (unitHead m ⟨data, m.end_⟩).value = some head) : head.Within d m.end_ := by
  have hj : Judges m (fun _ => True) fun _ => True := fun _ _ _ _ _ _ _ _ _ _ => trivial
  have hlen : Spec (fun _ => True) (fun _ => True) (· = ⟨data, m.end_⟩) (Decoder.readU32 m)
      fun _ => Between d m.end_ := by
    intro c hc _
    subst hc
    exact ⟨fun _ _ => trivial, fun _ _ => hread⟩
  exact (hj.spec_unitHead hd hlen _ rfl fun _ _ => trivial).2 head h

lemma readU32_long {data e : Addr} (h : 4 ≤ (e - data).toNat) :
    (Decoder.readU32 m ⟨data, e⟩).final = ⟨data + 4, e⟩ := by
  rw [readU32_apply, takeRun, if_pos h]
  rfl

lemma readU32_short {data e : Addr} (h : ¬ 4 ≤ (e - data).toNat) :
    Decoder.readU32 m ⟨data, e⟩ = ⟨some 0, ⟨data, e⟩, []⟩ := by
  rw [readU32_apply, takeRun, if_neg h]

/-- Where the head of a unit reads its length, the loop goes on behind it. -/
lemma within_of_long {data : Addr} (hstart : m.start .line ≤ data) (hle : data ≤ m.end_)
    (hlen : 4 ≤ (m.end_ - data).toNat) {head : UnitHead}
    (h : (unitHead m ⟨data, m.end_⟩).value = some head) : head.Within (data + 4) m.end_ := by
  have hfits := m.fits
  have hend := end_toNat m
  refine within_of_unitHead (by bv_omega) ?_ h
  rw [readU32_long hlen]
  refine ⟨BitVec.le_refl _, ?_, rfl⟩
  show data + 4 ≤ m.end_
  bv_omega

/-- Where it does not, nothing is read, and the loop is where it was. -/
lemma next_short {data : Addr} (ln : LineRows) (hlt : data < m.end_)
    (hlen : ¬ 4 ≤ (m.end_ - data).toNat) : m.next (.units data ln) = .units data ln := by
  have hversion : Decoder.readU16 m ⟨data, data⟩ = ⟨some 0, ⟨data, data⟩, []⟩ := by
    rw [readU16_apply, takeRun, if_neg (by simp)]
  have hhead : (unitHead m ⟨data, m.end_⟩).value = some (.skip data) := by
    have hstay : data + (0 : BitVec 32).setWidth 64 = data := by simp
    have hlast : ¬ m.end_ < data := by bv_omega
    rw [unitHead, bind_of_eq (readU32_short hlen), unitOf, if_neg (by decide), Prog.get_bind]
    simp only [hstay, if_neg hlast]
    rw [modify_bind, bind_of_eq hversion]
    rfl
  rw [next_units ln hlt, hhead]
  rfl

/-- A head that reads at least to `d` leads to a position of the section. -/
lemma stands_behindHead {d : Addr} (hd : m.start .line ≤ d) (ln : LineRows) {head : UnitHead}
    (h : head.Within d m.end_) : m.Stands (behindHead ln head) := by
  cases head with
  | skip next => exact ⟨BitVec.le_trans hd h.1, h.2⟩
  | program v5 p unit => exact ⟨BitVec.le_trans hd h.1, h.2.1⟩

/-- The sections end in the lower half of the address space. -/
lemma Stands.unit_end_le {p : Prologue} {s : LineState} {unit : ParseCursor} {ln : LineRows}
    (h : m.Stands (.opcodes p s unit ln)) : unit.end_.toNat ≤ 2 ^ 63 := by
  have hfits := m.fits
  have hend := end_toNat m
  have hle : unit.end_.toNat ≤ m.end_.toNat := h.2
  omega

/-- The step lemma of the position. -/
lemma stands_next {pos : LinePosition} (h : m.Stands pos) : m.Stands (m.next pos) := by
  have hfits := m.fits
  have hend := end_toNat m
  cases pos with
  | units data ln =>
      obtain ⟨hstart, hle⟩ := h
      by_cases hlt : data < m.end_
      · rw [next_units ln hlt]
        rcases hv : (unitHead m ⟨data, m.end_⟩).value with _ | head
        · trivial
        · have hread := (spec_between (moves_cursor m (moves_readU32 m)) data m.end_
            ⟨data, m.end_⟩ ⟨BitVec.le_refl _, hle, rfl⟩ fun _ _ => trivial).2
          obtain ⟨v, hv'⟩ := returns_readU32 m ⟨data, m.end_⟩
          exact stands_behindHead hstart ln (within_of_unitHead hstart (hread v hv') hv)
      · rw [next, if_neg hlt]
        trivial
  | opcodes p s unit ln =>
      by_cases hlt : unit.data < unit.end_
      · rw [next_opcodes p s ln hlt]
        rcases hv : (round m p.header s unit).value with _ | r
        · trivial
        · obtain ⟨hkeep, _⟩ := round_advances m p.header s hlt h.unit_end_le hv
          show m.start .line ≤ (round m p.header s unit).final.end_ ∧ _ ≤ m.end_
          rw [hkeep]
          exact h
      · rw [next, if_neg hlt]
        exact h
  | returned rc ln => trivial

/-- A round moves on exactly where the loop proceeds. -/
lemma advances_iff {pos : LinePosition} (h : m.Stands pos) : m.Advances pos ↔ m.Proceeds pos := by
  have hfits := m.fits
  have hend := end_toNat m
  cases pos with
  | units data ln =>
      obtain ⟨hstart, hle⟩ := h
      constructor
      -- with less than four bytes left the round comes back to the same place
      · intro hadv
        by_contra hno
        obtain ⟨hne, hshort⟩ := not_or.mp hno
        have hlt : data < m.end_ := by bv_omega
        have hback := hadv hlt
        rw [next_short ln hlt hshort] at hback
        exact BitVec.lt_irrefl data hback
      · intro hproc hlt
        have hlong : 4 ≤ (m.end_ - data).toNat := hproc.resolve_left (by bv_omega)
        rw [next_units ln hlt]
        rcases hv : (unitHead m ⟨data, m.end_⟩).value with _ | head
        · trivial
        · have hwithin := within_of_long hstart hle hlong hv
          cases head with
          | skip next =>
              have hnext : data + 4 ≤ next := hwithin.1
              show data < next
              bv_omega
          | program v5 p unit =>
              have hnext : data + 4 ≤ unit.end_ := hwithin.1
              show data < unit.end_
              bv_omega
  | opcodes p s unit ln =>
      have hunit := h.unit_end_le
      constructor
      -- so does one whose extended opcode ends where it began
      · intro hadv hlt hwrap
        obtain ⟨r, hr, hback⟩ := round_wraps m p.header s hlt hunit hwrap
        have hon := hadv hlt
        rw [next_opcodes p s ln hlt, hr] at hon
        have hon : unit.data < (round m p.header s unit).final.data := hon
        bv_omega
      · intro hproc hlt
        rw [next_opcodes p s ln hlt]
        rcases hv : (round m p.header s unit).value with _ | r
        · trivial
        · obtain ⟨_, hwrap | hon⟩ := round_advances m p.header s hlt hunit hv
          · exact absurd hwrap (hproc hlt)
          · exact hon
  | returned rc ln => exact ⟨fun _ => trivial, fun _ => trivial⟩

/-- What is left gets less with every round that proceeds. -/
lemma left_next {pos : LinePosition} (h : m.Stands pos) (hproc : m.Proceeds pos)
    (hgoes : ∀ rc ln, pos ≠ .returned rc ln) : m.left (m.next pos) < m.left pos := by
  have hfits := m.fits
  have hend := end_toNat m
  cases pos with
  -- a unit takes its length field at least
  | units data ln =>
      obtain ⟨hstart, hle⟩ := h
      by_cases hlt : data < m.end_
      · have hlong : 4 ≤ (m.end_ - data).toNat := hproc.resolve_left (by bv_omega)
        rw [next_units ln hlt]
        rcases hv : (unitHead m ⟨data, m.end_⟩).value with _ | head
        · show 0 < _
          simp [left]
        · have hwithin := within_of_long hstart hle hlong hv
          cases head with
          | skip next =>
              obtain ⟨hnext, hnextEnd⟩ := hwithin
              show 2 * (m.end_.toNat - next.toNat) + 2 < 2 * (m.end_.toNat - data.toNat) + 2
              bv_omega
          | program v5 p unit =>
              obtain ⟨hunit, hunitEnd, hfrom⟩ := hwithin
              show 2 * (m.end_.toNat - unit.end_.toNat) + 3 +
                (unit.end_.toNat - unit.data.toNat) < 2 * (m.end_.toNat - data.toNat) + 2
              bv_omega
      · rw [next, if_neg hlt]
        show 0 < _
        simp [left]
  -- an opcode takes a byte at least, and the end of a unit takes the round itself
  | opcodes p s unit ln =>
      by_cases hlt : unit.data < unit.end_
      · have hunit := h.unit_end_le
        rw [next_opcodes p s ln hlt]
        rcases hv : (round m p.header s unit).value with _ | r
        · show 0 < _
          simp [left]
        · obtain ⟨hkeep, hwrap | hon⟩ := round_advances m p.header s hlt hunit hv
          · exact absurd hwrap (hproc hlt)
          · show 2 * (m.end_.toNat - (round m p.header s unit).final.end_.toNat) + 3 +
              ((round m p.header s unit).final.end_.toNat -
                (round m p.header s unit).final.data.toNat) < _
            rw [hkeep, left]
            bv_omega
      · rw [next, if_neg hlt, left, left]
        omega
  | returned rc ln => exact absurd rfl (hgoes rc ln)

/-! ### The run -/

lemma run_succ (ln : LineRows) (k : ℕ) : m.run ln (k + 1) = m.next (m.run ln k) :=
  Function.iterate_succ_apply' _ _ _

lemma run_stands (ln : LineRows) (k : ℕ) : m.Stands (m.run ln k) := by
  have hfits := m.fits
  have hend := end_toNat m
  induction k with
  | zero => exact ⟨BitVec.le_refl _, by bv_omega⟩
  | succ k ih =>
      rw [run_succ]
      exact stands_next ih

/-- A run that proceeds everywhere has returned after as many rounds as are left. -/
lemma run_returns (ln : LineRows) (h : ∀ k, m.Proceeds (m.run ln k)) :
    ∃ k rc ln', m.run ln k = .returned rc ln' := by
  by_contra hno
  have hgoes : ∀ k rc ln', m.run ln k ≠ .returned rc ln' := fun k rc ln' hk =>
    hno ⟨k, rc, ln', hk⟩
  have hfall : ∀ k, m.left (m.run ln k) + k ≤ m.left (m.run ln 0) := by
    intro k
    induction k with
    | zero => exact Nat.le_refl _
    | succ k ih =>
        have hstep := left_next (run_stands ln k) (h k) (hgoes k)
        rw [run_succ]
        omega
  have hlast := hfall (m.left (m.run ln 0) + 1)
  omega

/-- **The line decoder terminates**, with every round of its loops moving the read position
on, if and only if no unit head stands one to three bytes before the end of the section and
no extended opcode has a length that wraps the position back. -/
theorem run_terminates_iff (m : LineSections) (ln : LineRows) :
    ((∃ k rc ln', m.run ln k = .returned rc ln') ∧ ∀ k, m.Advances (m.run ln k)) ↔
      ∀ k, m.Proceeds (m.run ln k) := by
  constructor
  · intro h k
    exact (advances_iff (run_stands ln k)).mp (h.2 k)
  · intro h
    exact ⟨run_returns ln h, fun k => (advances_iff (run_stands ln k)).mpr (h k)⟩

/-- A section of one byte. -/
def truncated : LineSections where
  mem := fun _ => 0
  start := fun _ => 0x100000000
  size := fun r => if r = .line then 1 else 0
  behindLengths := fun _ => 0
  fits := by decide

/-- On a section of one byte the loop stays where it starts. -/
lemma truncated_run (ln : LineRows) (k : ℕ) :
    truncated.run ln k = .units (truncated.start .line) ln := by
  induction k with
  | zero => rfl
  | succ k ih =>
      rw [run_succ, ih]
      exact next_short ln (by decide) (by decide)

/-- The line decoder does not return on every section. -/
theorem run_stuck : ¬ ∀ (m : LineSections) (ln : LineRows),
    (∃ k rc ln', m.run ln k = .returned rc ln') ∧ ∀ k, m.Advances (m.run ln k) := by
  intro h
  obtain ⟨⟨k, rc, ln', hk⟩, _⟩ := h truncated ⟨[], []⟩
  rw [truncated_run] at hk
  cases hk

end LineSections

end Cdbg
