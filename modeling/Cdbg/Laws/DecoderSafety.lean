import Cdbg.Laws.DecoderProgress

/-!
What the parser of `.debug_line` touches.

It stays inside the two sections, inside `std_lengths` and divides by no zero, except in
four ways: it copies a C string that no NUL ends inside its section, it goes back to before
the section, it meets a standard opcode beyond the table of lengths, or it uses a
`line_range` of zero.
-/

namespace Cdbg

open Prog Decoder

namespace LineSections

variable (m : LineSections)

/-- The address is that of a byte of a section. -/
def Holds (r : Region) (a : Addr) : Prop := a - m.start r < m.size r

/-- What may be touched. -/
def Legal : Touch → Prop
  | .load r a => m.Holds r a
  | .text _ _ => True
  | .length i => i < 16
  | .divisor d => d ≠ 0

/-- A C string ends inside its section. -/
def Closed : Touch → Prop
  | .text r a => ∃ n : ℕ, (a - m.start r).toNat + n < (m.size r).toNat ∧
      m.mem (a + BitVec.ofNat 64 n) = 0
  | _ => True

variable {m}

/-! ### Copies -/

lemma copyLoop_trace (r : Region) (n : ℕ) (a : Addr) (c : ParseCursor) :
    (copyLoop m r (n + 1) a c).trace =
      .load r a :: if m.mem a = 0 then [] else (copyLoop m r n (a + 1) c).trace := by
  rw [copyLoop, load_bind]
  by_cases h : m.mem a = 0
  · simp only [if_pos h]
    rfl
  · simp only [if_neg h, bind_pure_comp, map_apply]

lemma add_one_ofNat (a : Addr) (n : ℕ) :
    a + 1 + BitVec.ofNat 64 n = a + BitVec.ofNat 64 (n + 1) := by
  rw [Nat.add_comm n 1, BitVec.ofNat_add, ← BitVec.add_assoc]
  rfl

/-- The address after a byte of a section is one further on. -/
lemma sub_succ {r : Region} {a : Addr} (h : m.Holds r a) :
    (a + 1 - m.start r).toNat = (a - m.start r).toNat + 1 := by
  have hlt : (a - m.start r).toNat < (m.size r).toNat := h
  bv_omega

/-- Up to a NUL inside the section, every byte that is copied lies in it. -/
lemma copyLoop_legal (r : Region) (c : ParseCursor) : ∀ (n fuel : ℕ) (a : Addr), n < fuel →
    (a - m.start r).toNat + n < (m.size r).toNat → m.mem (a + BitVec.ofNat 64 n) = 0 →
      ∀ t ∈ (copyLoop m r fuel a c).trace, m.Legal t := by
  intro n
  induction n with
  | zero =>
      intro fuel a hfuel hlt hnul t ht
      obtain ⟨fuel, rfl⟩ := Nat.exists_eq_succ_of_ne_zero (Nat.pos_iff_ne_zero.mp hfuel)
      have ha : m.mem a = 0 := by simpa using hnul
      rw [copyLoop_trace, if_pos ha] at ht
      obtain rfl : t = .load r a := by simpa using ht
      show (a - m.start r).toNat < (m.size r).toNat
      omega
  | succ n ih =>
      intro fuel a hfuel hlt hnul t ht
      obtain ⟨fuel, rfl⟩ := Nat.exists_eq_succ_of_ne_zero (Nat.ne_of_gt (Nat.zero_lt_of_lt hfuel))
      have hin : m.Holds r a := by
        show (a - m.start r).toNat < (m.size r).toNat
        omega
      rw [copyLoop_trace] at ht
      obtain rfl | ht := List.mem_cons.mp ht
      · exact hin
      · split at ht
        · cases ht
        · refine ih fuel (a + 1) (by omega) ?_ ?_ t ht
          · rw [sub_succ hin]
            omega
          · rw [add_one_ofNat]
            exact hnul

/-- A copy that stays in the section has met a NUL there. -/
lemma copyLoop_closed (r : Region) (c : ParseCursor) : ∀ (k fuel : ℕ) (a : Addr), k < fuel →
    (m.size r).toNat ≤ (a - m.start r).toNat + k →
      (∀ t ∈ (copyLoop m r fuel a c).trace, m.Legal t) → m.Closed (.text r a) := by
  intro k
  induction k with
  | zero =>
      intro fuel a hfuel hle hlegal
      obtain ⟨fuel, rfl⟩ := Nat.exists_eq_succ_of_ne_zero (Nat.pos_iff_ne_zero.mp hfuel)
      have hin : (a - m.start r).toNat < (m.size r).toNat :=
        hlegal (.load r a) (by rw [copyLoop_trace]; exact List.mem_cons_self)
      omega
  | succ k ih =>
      intro fuel a hfuel hle hlegal
      obtain ⟨fuel, rfl⟩ := Nat.exists_eq_succ_of_ne_zero (Nat.ne_of_gt (Nat.zero_lt_of_lt hfuel))
      have hin : m.Holds r a :=
        hlegal (.load r a) (by rw [copyLoop_trace]; exact List.mem_cons_self)
      have hlt : (a - m.start r).toNat < (m.size r).toNat := hin
      by_cases hnul : m.mem a = 0
      · exact ⟨0, hlt, by simpa using hnul⟩
      · obtain ⟨n, hn, hend⟩ := ih fuel (a + 1) (by omega) (by rw [sub_succ hin]; omega)
          fun t ht => hlegal t (by
            rw [copyLoop_trace, if_neg hnul]
            exact List.mem_cons_of_mem _ ht)
        rw [sub_succ hin] at hn
        rw [add_one_ofNat] at hend
        exact ⟨n + 1, by omega, hend⟩

/-- A string is copied from inside its section exactly if it ends there. -/
lemma copyCstr_legal_iff (r : Region) (a : Addr) (c : ParseCursor) :
    (∀ t ∈ (copyCstr m r a c).trace, m.Legal t) ↔ m.Closed (.text r a) := by
  have htrace : (copyCstr m r a c).trace = .text r a :: (copyLoop m r (2 ^ 64) a c).trace := rfl
  rw [htrace]
  constructor
  · intro h
    exact copyLoop_closed r c (m.size r).toNat (2 ^ 64) a (m.size r).isLt (by omega)
      fun t ht => h t (List.mem_cons_of_mem _ ht)
  · rintro ⟨n, hn, hnul⟩ t ht
    obtain rfl | ht := List.mem_cons.mp ht
    · trivial
    · have hsize := (m.size r).isLt
      exact copyLoop_legal r c n (2 ^ 64) a (by omega) hn hnul t ht

lemma copyLoop_loads (r : Region) (c : ParseCursor) : ∀ (n : ℕ) (a : Addr),
    ∀ t ∈ (copyLoop m r n a c).trace, ∃ b, t = .load r b
  | 0, _, t, ht => by cases ht
  | n + 1, a, t, ht => by
      rw [copyLoop_trace] at ht
      obtain rfl | ht := List.mem_cons.mp ht
      · exact ⟨a, rfl⟩
      · split at ht
        · cases ht
        · exact copyLoop_loads r c n (a + 1) t ht

lemma copyCstr_closed_iff (r : Region) (a : Addr) (c : ParseCursor) :
    (∀ t ∈ (copyCstr m r a c).trace, m.Closed t) ↔ m.Closed (.text r a) := by
  have htrace : (copyCstr m r a c).trace = .text r a :: (copyLoop m r (2 ^ 64) a c).trace := rfl
  rw [htrace]
  constructor
  · exact fun h => h _ List.mem_cons_self
  · intro h t ht
    obtain rfl | ht := List.mem_cons.mp ht
    · exact h
    · obtain ⟨b, rfl⟩ := copyLoop_loads r c (2 ^ 64) a t ht
      trivial

/-! ### The head of a unit -/

lemma holds_of_between {a : Addr} (hstart : m.start .line ≤ a) (hend : a < m.end_) :
    m.Holds .line a := by
  have hfits := m.fits
  have htoNat := end_toNat m
  show (a - m.start .line).toNat < (m.size .line).toNat
  bv_omega

lemma legal_of_cursorStep {c c' : ParseCursor} {t : List Touch} (h : CursorStep c t c')
    (hstart : m.start .line ≤ c.data) (hle : c.data ≤ c.end_) (hend : c.end_ ≤ m.end_) :
    ∀ e ∈ t, m.Legal e := by
  cases h with
  | load _ a ha =>
      obtain ⟨hda, hae⟩ := ha hle
      have hlegal : m.Holds .line a :=
        holds_of_between (BitVec.le_trans hstart hda) (by bv_omega)
      intro e he
      obtain rfl := List.mem_singleton.mp he
      exact hlegal
  | advance _ n _ => exact fun e he => by cases he

lemma legal_of_chain {c c' : ParseCursor} {t : List Touch} (h : Chain CursorStep c t c')
    (hstart : m.start .line ≤ c.data) (hle : c.data ≤ c.end_) (hend : c.end_ ≤ m.end_) :
    ∀ e ∈ t, m.Legal e := by
  induction h with
  | refl _ => exact fun e he => by cases he
  | step hs _ ih =>
      obtain ⟨hstart', hle', hend'⟩ := hs.between ⟨hstart, hle, rfl⟩
      intro e he
      rcases List.mem_append.mp he with he | he
      · exact legal_of_cursorStep hs hstart hle hend e he
      · exact ih hstart' hle' (hend' ▸ hend) e he

/-- Outside the copies no string is touched. -/
lemma closed_of_chain {c c' : ParseCursor} {t : List Touch} (h : Chain CursorStep c t c') :
    ∀ e ∈ t, m.Closed e := by
  induction h with
  | refl _ => exact fun e he => by cases he
  | step hs _ ih =>
      intro e he
      rcases List.mem_append.mp he with he | he
      · cases hs with
        | load _ a _ =>
            obtain rfl := List.mem_singleton.mp he
            trivial
        | advance => cases he
      · exact ih e he

/-- A step of a function that reads a header touches what it may exactly if the strings it
copies end where they are. -/
lemma legal_iff_of_readStep {c c' : ParseCursor} {t : List Touch} (h : ReadStep m c t c')
    (hstart : m.start .line ≤ c.data) (hle : c.data ≤ c.end_) (hend : c.end_ ≤ m.end_) :
    (∀ e ∈ t, m.Legal e) ↔ ∀ e ∈ t, m.Closed e := by
  cases h with
  | cursor h =>
      have hclosed := closed_of_chain (m := m) (Chain.single h)
      exact ⟨fun _ => hclosed, fun _ => legal_of_cursorStep h hstart hle hend⟩
  | copy _ r a => rw [copyCstr_legal_iff, copyCstr_closed_iff]
  | first h hlt =>
      have hfirst : m.Holds .line c.data := holds_of_between hstart (by bv_omega)
      constructor
      · intro _ e he
        rcases List.mem_append.mp he with he | he
        · exact closed_of_chain h e he
        · obtain rfl := List.mem_singleton.mp he
          trivial
      · intro _ e he
        rcases List.mem_append.mp he with he | he
        · exact legal_of_chain h hstart hle hend e he
        · obtain rfl := List.mem_singleton.mp he
          exact hfirst
  | length _ i hi =>
      constructor
      · intro _ e he
        obtain rfl := List.mem_singleton.mp he
        trivial
      · intro _ e he
        obtain rfl := List.mem_singleton.mp he
        exact hi

/-- The head of a unit touches what it may exactly if the strings it copies end where they
are. -/
lemma unitHead_legal_iff {data : Addr} (hstart : m.start .line ≤ data) (hle : data ≤ m.end_) :
    (∀ t ∈ (unitHead m ⟨data, m.end_⟩).trace, m.Legal t) ↔
      ∀ t ∈ (unitHead m ⟨data, m.end_⟩).trace, m.Closed t := by
  have hlegal : Judges m m.Closed m.Legal := fun c t c' hs h1 h2 h3 hclosed =>
    (legal_iff_of_readStep hs h1 h2 h3).mpr hclosed
  have hclosed : Judges m m.Legal m.Closed := fun c t c' hs h1 h2 h3 hlegal =>
    (legal_iff_of_readStep hs h1 h2 h3).mp hlegal
  have hu32 := moves_cursor m (moves_readU32 m)
  have hfrom : Between data m.end_ ⟨data, m.end_⟩ := ⟨BitVec.le_refl _, hle, rfl⟩
  have hend := BitVec.le_refl m.end_
  constructor
  · intro h
    have hread := (hclosed.spec hu32 hstart hend).from hfrom
    exact (hclosed.spec_unitHead hstart hread _ rfl h).1
  · intro h
    have hread := (hlegal.spec hu32 hstart hend).from hfrom
    exact (hlegal.spec_unitHead hstart hread _ rfl h).1

/-! ### A round of the program -/

/-- The header lets the decoder run an opcode: a standard one is in the table of lengths,
and where line_range divides it is not zero. -/
def OpcodeSafe (h : LineHeader) (opcode : Byte) : Prop :=
  opcode ≠ 0 →
    if opcode < h.opcodeBase then (opcode = 8 → h.lineRange ≠ 0) ∧ opcode.toNat < 16
    else h.lineRange ≠ 0

section Round

variable {d e : Addr}

/-- What a function that only reads from a cursor of the section touches may be touched. -/
lemma spec_legal {α : Type} {p : Decoder α} (hp : Moves CursorStep p) (hd : m.start .line ≤ d)
    (he : e ≤ m.end_) :
    Spec (fun _ => True) m.Legal (Between d e) p fun _ => Between d e := by
  refine hp.spec fun c t c' hs hc _ => ⟨hs.between hc, ?_⟩
  obtain ⟨hdc, hce, rfl⟩ := hc
  exact legal_of_cursorStep hs (BitVec.le_trans hd hdc) hce he

lemma extended_legal (h : LineHeader) (s : LineState) (hd : m.start .line ≤ d) (he : e ≤ m.end_) :
    Spec (fun _ => True) m.Legal (Between d e) (extended m h s) fun _ _ => True := by
  have hu8 := spec_legal (moves_readU8 m) hd he
  refine (spec_legal (moves_readUleb128 m) hd he).bind fun len => Spec.get_bind fun c hc => ?_
  refine Spec.ite (fun _ => Spec.hang) fun _ => (hu8.from hc).bind fun sub => ?_
  refine (spec_legal (moves_subOpcode m h s sub) hd he).bind fun round => ?_
  have hmod : Spec (fun _ => True) m.Legal (Between d e)
      (Prog.modify fun c' => { c' with data := c.data + len } : Decoder Unit) fun _ _ => True :=
    Spec.modify fun _ _ => trivial
  exact hmod.bind fun _ => Spec.pure _ fun _ hc => hc

lemma standard_legal_iff (h : LineHeader) (s : LineState) (opcode : Byte) {c : ParseCursor}
    (hc : Between d e c) (hd : m.start .line ≤ d) (he : e ≤ m.end_) :
    (∀ t ∈ (standard m h s opcode c).trace, m.Legal t) ↔
      (opcode = 8 → h.lineRange ≠ 0) ∧ opcode.toNat < 16 := by
  by_cases hread : opcode.toNat ∈ [1, 2, 3, 4, 5, 9]
  · have hlegal := (spec_legal (moves_standard m h s hread) hd he c hc fun _ _ => trivial).1
    simp only [List.mem_cons, List.not_mem_nil, or_false] at hread
    refine ⟨fun _ => ⟨fun height => ?_, by omega⟩, fun _ => hlegal⟩
    rw [height] at hread
    exact absurd hread (by decide)
  · by_cases hconst : opcode.toNat = 8
    · have height : opcode = 8 := BitVec.eq_of_toNat_eq hconst
      have htrace : (standard m h s opcode c).trace = [.divisor h.lineRange] := by
        rw [standard, hconst]
        rfl
      rw [htrace, List.forall_mem_singleton]
      exact ⟨fun hne => ⟨fun _ => hne, by omega⟩, fun hsafe => hsafe.1 height⟩
    · have hskip : opcode.toNat ∉ [1, 2, 3, 4, 5, 8, 9] := by
        simp only [List.mem_cons, List.not_mem_nil, or_false, not_or] at hread ⊢
        omega
      have htrace : (standard m h s opcode c).trace = [.length opcode.toNat] := by
        rw [standard_skipped m h s hskip]
        rfl
      rw [htrace, List.forall_mem_singleton]
      refine ⟨fun hlt => ⟨fun height => ?_, hlt⟩, fun hsafe => hsafe.2⟩
      rw [height] at hconst
      exact absurd rfl hconst

/-- A round touches what it may exactly if it starts in the section and the header lets its
opcode run. -/
lemma round_legal_iff (h : LineHeader) (s : LineState) {c : ParseCursor} (hc : c.data < c.end_)
    (he : c.end_ ≤ m.end_) :
    (∀ t ∈ (round m h s c).trace, m.Legal t) ↔
      m.start .line ≤ c.data ∧ OpcodeSafe h (m.mem c.data) := by
  have hfits := m.fits
  have htoNat := end_toNat m
  have hholds : m.Legal (.load .line c.data) ↔ m.start .line ≤ c.data := by
    constructor
    · intro hin
      have hlt : (c.data - m.start .line).toNat < (m.size .line).toNat := hin
      bv_omega
    · exact fun hstart => holds_of_between hstart (by bv_omega)
  have htrace : (round m h s c).trace = .load .line c.data ::
      (afterOpcode m h s (m.mem c.data) ⟨c.data + 1, c.end_⟩).trace := by
    rw [round_of_lt m h s hc]
  rw [htrace, List.forall_mem_cons, hholds]
  refine and_congr_right fun hstart => ?_
  have hnext : Between (c.data + 1) c.end_ ⟨c.data + 1, c.end_⟩ :=
    ⟨BitVec.le_refl _, by show c.data + 1 ≤ c.end_; bv_omega, rfl⟩
  have hd : m.start .line ≤ c.data + 1 := by bv_omega
  by_cases hzero : m.mem c.data = 0
  · rw [afterOpcode, if_pos hzero]
    have hlegal := (extended_legal h s hd he _ hnext fun _ _ => trivial).1
    exact ⟨fun _ hne => absurd hzero hne, fun _ => hlegal⟩
  · rw [afterOpcode, if_neg hzero]
    by_cases hbase : m.mem c.data < h.opcodeBase
    · rw [if_pos hbase, standard_legal_iff h s _ hnext hd he]
      exact ⟨fun hsafe _ => by rwa [if_pos hbase], fun hsafe => by
        rwa [OpcodeSafe, if_pos hbase, imp_iff_right hzero] at hsafe⟩
    · have hspecial : (special h s (m.mem c.data) ⟨c.data + 1, c.end_⟩).trace =
          [.divisor h.lineRange] := rfl
      rw [if_neg hbase, hspecial, List.forall_mem_singleton]
      exact ⟨fun hsafe _ => by rwa [if_neg hbase], fun hsafe => by
        rwa [OpcodeSafe, if_neg hbase, imp_iff_right hzero] at hsafe⟩

end Round

/-! ### The run -/

/-- What keeps the round that starts here from an illegal step: the strings that the head of
a unit copies end in their sections; an opcode is in the section and is one that the header
lets the decoder run. -/
def Sound (m : LineSections) : LinePosition → Prop
  | .units data _ => data < m.end_ →
      ∀ t ∈ (unitHead m ⟨data, m.end_⟩).trace, m.Closed t
  | .opcodes p _ unit _ => unit.data < unit.end_ →
      m.start .line ≤ unit.data ∧ OpcodeSafe p.header (m.mem unit.data)
  | .returned _ _ => True

lemma touched_legal_iff {pos : LinePosition} (h : m.Stands pos) :
    (∀ t ∈ m.touched pos, m.Legal t) ↔ m.Sound pos := by
  cases pos with
  | units data ln =>
      by_cases hlt : data < m.end_
      · have htrace : m.touched (.units data ln) = (unitHead m ⟨data, m.end_⟩).trace := by
          rw [touched, if_pos hlt, unitBody_apply]
        rw [htrace, unitHead_legal_iff h.1 h.2]
        exact ⟨fun hclosed _ => hclosed, fun hsound => hsound hlt⟩
      · have htrace : m.touched (.units data ln) = [] := by rw [touched, if_neg hlt]
        rw [htrace]
        exact ⟨fun _ hlt' => absurd hlt' hlt, fun _ t ht => by cases ht⟩
  | opcodes p s unit ln =>
      by_cases hlt : unit.data < unit.end_
      · have htrace : m.touched (.opcodes p s unit ln) = (round m p.header s unit).trace := by
          rw [touched, if_pos hlt, opcodeBody_apply]
        rw [htrace, round_legal_iff p.header s hlt h.2]
        exact ⟨fun hsafe _ => hsafe, fun hsound => hsound hlt⟩
      · have htrace : m.touched (.opcodes p s unit ln) = [] := by rw [touched, if_neg hlt]
        rw [htrace]
        exact ⟨fun _ hlt' => absurd hlt' hlt, fun _ t ht => by cases ht⟩
  | returned rc ln => exact ⟨fun _ => trivial, fun _ t ht => by cases ht⟩

/-- **The line decoder takes no illegal step** if and only if every string it copies ends in
its section, it never goes back to before the section, and every opcode it meets is one that
the header of its unit lets it run. -/
theorem run_legal_iff (m : LineSections) (ln : LineRows) :
    (∀ k, ∀ t ∈ m.touched (m.run ln k), m.Legal t) ↔ ∀ k, m.Sound (m.run ln k) :=
  forall_congr' fun k => touched_legal_iff (run_stands ln k)

/-- A unit of version 5 with a `line_range` of zero and a special opcode. -/
def zeroRange : LineSections where
  mem := fun a => ([17, 0, 0, 0, 5, 0, 8, 0, 9, 0, 0, 0, 1, 1, 1, 0, 0, 1, 0, 0, 0x20] :
    List Byte).getD (a - 0x100000000).toNat 0
  start := fun _ => 0x100000000
  size := fun r => if r = .line then 21 else 0
  behindLengths := fun _ => 0
  fits := by decide

/-- The line decoder takes an illegal step on some section. -/
theorem run_illegal : ¬ ∀ (m : LineSections) (ln : LineRows) (k : ℕ),
    ∀ t ∈ m.touched (m.run ln k), m.Legal t := by
  intro h
  have hdivisor : .divisor 0 ∈ zeroRange.touched (zeroRange.run ⟨[], []⟩ 1) := by
    decide +kernel
  exact h zeroRange ⟨[], []⟩ 1 (.divisor 0) hdivisor rfl

end LineSections

end Cdbg
