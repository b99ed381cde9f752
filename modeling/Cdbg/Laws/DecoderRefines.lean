import Cdbg.Laws.DecoderSafety

/-!
The parser of `.debug_line` over addresses and the one over lists.

A cursor is a window on the memory: the bytes up to its end and those behind it. As long as
the strings copied end in their sections, a function of `Decoder` leaves the cursor over
whose window its namesake over lists is left, with the same value (`Follows`). So a run
that proceeds, takes no illegal step and adds no length that wraps returns what
`parseLineTable` says.
-/

namespace Cdbg

open Prog CString

/-! ### Windows on the memory -/

namespace LineSections

variable (m : LineSections)

/-- The bytes from an address on. -/
def bytesAt (a : Addr) (n : ℕ) : List Byte :=
  (List.range n).map fun i => m.mem (a + BitVec.ofNat 64 i)

/-- What a cursor shows: the bytes before its end and those of the section behind it. -/
def window (c : ParseCursor) : Cursor Byte :=
  ⟨m.bytesAt c.data (c.end_.toNat - c.data.toNat),
    m.bytesAt c.end_ (m.end_.toNat - c.end_.toNat)⟩

/-- `.debug_line`. -/
def lineBytes : List Byte := m.bytesAt (m.start .line) (m.size .line).toNat

/-- `.debug_line_str`, empty if there is none. -/
def lineStrBytes : List Byte :=
  if m.start .lineStr = 0 then [] else m.bytesAt (m.start .lineStr) (m.size .lineStr).toNat

variable {m}

@[simp] lemma bytesAt_zero (a : Addr) : m.bytesAt a 0 = [] := rfl

lemma bytesAt_succ (a : Addr) (n : ℕ) :
    m.bytesAt a (n + 1) = m.mem a :: m.bytesAt (a + 1) n := by
  have hfirst : a + BitVec.ofNat 64 0 = a := by simp
  rw [bytesAt, List.range_succ_eq_map, List.map_cons, List.map_map, hfirst]
  refine congrArg (m.mem a :: ·) (List.map_congr_left fun i _ => ?_)
  exact congrArg m.mem (add_one_ofNat a i).symm

@[simp] lemma length_bytesAt (a : Addr) (n : ℕ) : (m.bytesAt a n).length = n := by
  simp [bytesAt]

lemma bytesAt_add (n : ℕ) : ∀ (k : ℕ) (a : Addr),
    m.bytesAt a (k + n) = m.bytesAt a k ++ m.bytesAt (a + BitVec.ofNat 64 k) n
  | 0, a => by simp
  | k + 1, a => by
      rw [Nat.add_right_comm, bytesAt_succ, bytesAt_add n k, bytesAt_succ, add_one_ofNat]
      rfl

lemma drop_bytesAt (k n : ℕ) (a : Addr) :
    (m.bytesAt a n).drop k = m.bytesAt (a + BitVec.ofNat 64 k) (n - k) := by
  by_cases h : k ≤ n
  · obtain ⟨n, rfl⟩ := Nat.exists_eq_add_of_le h
    rw [bytesAt_add, List.drop_left' (length_bytesAt a k), Nat.add_sub_cancel_left]
  · have hn : n - k = 0 := by omega
    rw [hn, bytesAt_zero]
    exact List.drop_eq_nil_of_le (by rw [length_bytesAt]; omega)

lemma take_bytesAt (k : ℕ) {n : ℕ} (a : Addr) (h : k ≤ n) :
    (m.bytesAt a n).take k = m.bytesAt a k := by
  obtain ⟨n, rfl⟩ := Nat.exists_eq_add_of_le h
  rw [bytesAt_add, List.take_left' (length_bytesAt a k)]

lemma mem_bytesAt {a : Addr} {i n : ℕ} (h : i < n) :
    m.mem (a + BitVec.ofNat 64 i) ∈ m.bytesAt a n :=
  List.mem_map.mpr ⟨i, List.mem_range.mpr h, rfl⟩

/-- The bytes up to an end behind a first one. -/
lemma bytesAt_of_lt {a b : Addr} (h : a < b) :
    m.bytesAt a (b.toNat - a.toNat) = m.mem a :: m.bytesAt (a + 1) (b.toNat - (a + 1).toNat) := by
  have hn : b.toNat - a.toNat = b.toNat - (a + 1).toNat + 1 := by bv_omega
  rw [hn, bytesAt_succ]

lemma bytesAt_of_le {a b : Addr} (h : b ≤ a) : m.bytesAt a (b.toNat - a.toNat) = [] := by
  have hn : b.toNat - a.toNat = 0 := Nat.sub_eq_zero_of_le h
  rw [hn, bytesAt_zero]

/-- The window of a cursor that has moved on, maybe past its end. -/
lemma window_advance {c : ParseCursor} {n : ℕ} (h : c.data.toNat + n < 2 ^ 64) :
    m.window ⟨c.data + BitVec.ofNat 64 n, c.end_⟩ =
      ⟨(m.window c).inside.drop n, (m.window c).outside⟩ := by
  have hrest : c.end_.toNat - (c.data + BitVec.ofNat 64 n).toNat =
      c.end_.toNat - c.data.toNat - n := by bv_omega
  rw [window, window, drop_bytesAt, hrest]

end LineSections

/-! ### Functions that follow their namesakes -/

namespace Decoder

/-- The cursor is in the section, and not past its end. -/
def Within (m : LineSections) (c : ParseCursor) : Prop :=
  m.start .line ≤ c.data ∧ c.data ≤ c.end_ ∧ c.end_ ≤ m.end_

/-- From this cursor, `p` does over addresses what `r` does over its window, if the strings it
copies end in their sections. -/
def FollowsFrom {α : Type} (m : LineSections) (c : ParseCursor) (p : Decoder α)
    (r : ByteReader α) : Prop :=
  Within m c → (∀ t ∈ (p c).trace, m.Closed t) →
    r.run (m.window c) = (p c).value.map fun a => (a, m.window (p c).final)

/-- `p` follows `r` from every cursor, in steps that keep it in the section. -/
structure Follows {α : Type} (m : LineSections) (p : Decoder α) (r : ByteReader α) : Prop where
  moves : Moves (ReadStep m) p
  follows : ∀ c, FollowsFrom m c p r

section Follows

variable {m : LineSections} {α β : Type}

lemma within_of_moves {p : Decoder α} (hp : Moves (ReadStep m) p) {c : ParseCursor}
    (hc : Within m c) {a : α} (ha : (p c).value = some a) : Within m (p c).final := by
  obtain ⟨hstart, hle, hend⟩ := hc
  obtain ⟨hd, hle', he⟩ := (spec_between hp c.data c.end_ c ⟨BitVec.le_refl _, hle, rfl⟩
    fun _ _ => trivial).2 a ha
  exact ⟨BitVec.le_trans hstart hd, hle', he ▸ hend⟩

lemma FollowsFrom.pure (a : α) (c : ParseCursor) :
    FollowsFrom m c (Pure.pure a) (Pure.pure a) := fun _ _ => rfl

lemma FollowsFrom.bind {p : Decoder α} {r : ByteReader α} {f : α → Decoder β}
    {g : α → ByteReader β} {c : ParseCursor} (hp : Moves (ReadStep m) p)
    (h : FollowsFrom m c p r)
    (hf : ∀ a, (p c).value = some a → FollowsFrom m (p c).final (f a) (g a)) :
    FollowsFrom m c (p >>= f) (r >>= g) := by
  intro hc hclosed
  rw [StateT.run_bind, h hc fun t ht => hclosed t (mem_trace_bind f ht)]
  rcases bind_cases p f c with ⟨hnone, hrun⟩ | ⟨a, ha, hrun⟩
  · rw [hrun, hnone]
    rfl
  · rw [hrun] at hclosed ⊢
    rw [ha]
    exact hf a ha (within_of_moves hp hc ha) fun t ht =>
      hclosed t (List.mem_append_right _ ht)

lemma Follows.pure (a : α) : Follows m (Pure.pure a) (Pure.pure a) :=
  ⟨Moves.pure a, FollowsFrom.pure a⟩

lemma Follows.giveUp : Follows m (giveUp : Decoder α) failure := ⟨Moves.hang, fun _ _ _ => rfl⟩

lemma Follows.bind {p : Decoder α} {r : ByteReader α} {f : α → Decoder β}
    {g : α → ByteReader β} (h : Follows m p r) (hf : ∀ a, Follows m (f a) (g a)) :
    Follows m (p >>= f) (r >>= g) :=
  ⟨h.moves.bind fun a => (hf a).moves,
    fun c => (h.follows c).bind h.moves fun a _ => (hf a).follows _⟩

lemma Follows.ite {P : Prop} [Decidable P] {p q : Decoder α} {r s : ByteReader α}
    (h : Follows m p r) (h' : Follows m q s) :
    Follows m (if P then p else q) (if P then r else s) := by
  split <;> assumption

lemma Follows.times {p : Decoder α} {r : ByteReader α} (h : Follows m p r) :
    ∀ n, Follows m (Prog.times n p) (Reader.times n r)
  | 0 => Follows.pure _
  | n + 1 => h.bind fun _ => (Follows.times h n).bind fun _ => Follows.pure _

lemma Follows.foldlM {f : β → α → Decoder β} {g : β → α → ByteReader β}
    (h : ∀ b a, Follows m (f b a) (g b a)) :
    ∀ (as : List α) (b : β), Follows m (as.foldlM f b) (as.foldlM g b)
  | [], b => Follows.pure b
  | a :: as, b => by
      rw [List.foldlM_cons, List.foldlM_cons]
      exact (h b a).bind fun b' => Follows.foldlM h as b'

/-- Reading the cursor: each side reads its own. -/
lemma FollowsFrom.get_bind {f : ParseCursor → Decoder α} {g : Cursor Byte → ByteReader α}
    {c : ParseCursor} (h : FollowsFrom m c (f c) (g (m.window c))) :
    FollowsFrom m c (Prog.get >>= f) (get >>= g) := by
  intro hc hclosed
  rw [Prog.get_bind] at hclosed ⊢
  exact h hc hclosed

/-- A read of a fixed size follows one that takes as many bytes of a list. -/
lemma follows_of_takeRun {p : Decoder α} {r : ByteReader α} (n : ℕ) (a : ParseCursor → α) (b : α)
    (hp : ∀ c, p c = takeRun n (a c) b c) (hshort : ∀ w, w.inside.length < n → r w = some (b, w))
    (hlong : ∀ c, c.data ≤ c.end_ → n ≤ (c.end_ - c.data).toNat → r (m.window c) =
      some (a c, ⟨(m.window c).inside.drop n, (m.window c).outside⟩)) : Follows m p r := by
  refine ⟨moves_cursor m (moves_of_takeRun n a b hp), fun c hc _ => ?_⟩
  obtain ⟨_, hle, _⟩ := hc
  rw [hp c, takeRun]
  by_cases hn : n ≤ (c.end_ - c.data).toNat
  · rw [if_pos hn]
    show r (m.window c) = some (a c, m.window ⟨c.data + BitVec.ofNat 64 n, c.end_⟩)
    rw [hlong c hle hn, LineSections.window_advance (by bv_omega)]
  · rw [if_neg hn]
    refine hshort _ ?_
    rw [LineSections.window, LineSections.length_bytesAt]
    bv_omega

lemma follows_readU8 : Follows m (readU8 m) Cdbg.readU8 := by
  refine follows_of_takeRun 1 (fun c => m.mem c.data) 0 (readU8_apply m) ?_ ?_
  · rintro ⟨inside, outside⟩ hlt
    obtain rfl : inside = [] := List.length_eq_zero_iff.mp (by simpa using hlt)
    rfl
  · intro c hle hn
    have hlt : c.data < c.end_ := by bv_omega
    rw [LineSections.window, LineSections.bytesAt_of_lt hlt]
    rfl

lemma follows_readU16 : Follows m (readU16 m) Cdbg.readU16 := by
  refine follows_of_takeRun 2 (fun c => m.mem (c.data + 1) ++ m.mem c.data) 0
    (readU16_apply m) ?_ ?_
  · rintro ⟨_ | ⟨b0, _ | ⟨b1, rest⟩⟩, outside⟩ hlt
    · rfl
    · rfl
    · simp at hlt
  · intro c hle hn
    obtain ⟨n, hn⟩ : ∃ n, c.end_.toNat - c.data.toNat = 2 + n := by
      refine Nat.exists_eq_add_of_le ?_
      bv_omega
    have htwo : m.bytesAt c.data 2 = [m.mem c.data, m.mem (c.data + 1)] := by
      simp [LineSections.bytesAt, List.range_succ]
    rw [LineSections.window, hn, LineSections.bytesAt_add, htwo]
    rfl

lemma follows_readU32 : Follows m (readU32 m) Cdbg.readU32 := by
  refine follows_of_takeRun 4 (fun c => m.mem (c.data + 3) ++ m.mem (c.data + 2) ++
    m.mem (c.data + 1) ++ m.mem c.data) 0 (readU32_apply m) ?_ ?_
  · rintro ⟨_ | ⟨b0, _ | ⟨b1, _ | ⟨b2, _ | ⟨b3, rest⟩⟩⟩⟩, outside⟩ hlt
    · rfl
    · rfl
    · rfl
    · rfl
    · simp only [List.length_cons] at hlt
      omega
  · intro c hle hn
    obtain ⟨n, hn⟩ : ∃ n, c.end_.toNat - c.data.toNat = 4 + n := by
      refine Nat.exists_eq_add_of_le ?_
      bv_omega
    have hfour : m.bytesAt c.data 4 = [m.mem c.data, m.mem (c.data + 1), m.mem (c.data + 2),
        m.mem (c.data + 3)] := by
      simp [LineSections.bytesAt, List.range_succ]
    rw [LineSections.window, hn, LineSections.bytesAt_add, hfour]
    rfl

lemma follows_readU64 : Follows m (readU64 m) Cdbg.readU64 := by
  have h := follows_readU8 (m := m)
  refine h.bind fun _ => h.bind fun _ => h.bind fun _ => h.bind fun _ => ?_
  exact h.bind fun _ => h.bind fun _ => h.bind fun _ => h.bind fun _ => Follows.pure _

lemma follows_lebLoop : ∀ (n shift : ℕ) (value : BitVec 64) (byte : Byte),
    Follows m (lebLoop m n shift value byte) (Cdbg.lebLoop n shift value byte)
  | 0, _, _, _ => Follows.pure _
  | n + 1, _, _, _ =>
      follows_readU8.bind fun _ => Follows.ite (Follows.pure _) (follows_lebLoop n _ _ _)

lemma follows_readUleb128 : Follows m (readUleb128 m) Cdbg.readUleb128 :=
  (follows_lebLoop 10 0 0 0).bind fun _ => Follows.pure _

lemma follows_readSleb128 : Follows m (readSleb128 m) Cdbg.readSleb128 :=
  (follows_lebLoop 10 0 0 0).bind fun _ => Follows.pure _

/-- Where a loop over the bytes of a window ends. -/
lemma window_skipWhile (p : Byte → Bool) : ∀ (n : ℕ) (c : ParseCursor), c.data ≤ c.end_ →
    (c.end_ - c.data).toNat ≤ n → m.window (skipWhile m p n c).final =
      ⟨(m.window c).inside.dropWhile p, (m.window c).outside⟩
  | 0, c, hle, hn => by
      have hempty : (m.window c).inside = [] := LineSections.bytesAt_of_le (by bv_omega)
      rw [hempty]
      show m.window c = ⟨[], (m.window c).outside⟩
      rw [← hempty]
  | n + 1, c, hle, hn => by
      rw [skipWhile_succ]
      by_cases hlt : c.data < c.end_
      · have hnext : c.data + 1 ≤ c.end_ := by bv_omega
        have hleft : (c.end_ - (c.data + 1)).toNat ≤ n := by bv_omega
        have hcons : (m.window c).inside =
            m.mem c.data :: (m.window ⟨c.data + 1, c.end_⟩).inside :=
          LineSections.bytesAt_of_lt hlt
        rw [if_pos hlt, hcons]
        by_cases hp : p (m.mem c.data) = true
        · rw [if_pos hp, List.dropWhile_cons_of_pos hp]
          exact window_skipWhile p n ⟨c.data + 1, c.end_⟩ hnext hleft
        · rw [if_neg hp, List.dropWhile_cons_of_neg hp, ← hcons]
      · have hempty : (m.window c).inside = [] := LineSections.bytesAt_of_le (by bv_omega)
        rw [if_neg hlt, hempty]
        show m.window c = ⟨[], (m.window c).outside⟩
        rw [← hempty]

lemma follows_skipPaddingZeros : Follows m (skipPaddingZeros m) Cdbg.skipPaddingZeros := by
  refine ⟨moves_cursor m (moves_skipPaddingZeros m), fun c hc _ => ?_⟩
  have hrun : skipPaddingZeros m c = skipWhile m (· = 0) (c.end_ - c.data).toNat c := rfl
  rw [hrun, skipWhile_value]
  exact congrArg (fun w => some ((), w)) (window_skipWhile _ _ c hc.2.1 (Nat.le_refl _)).symm

/-- The cursor behind a C string. -/
lemma window_readCstr {c : ParseCursor} (hle : c.data ≤ c.end_) :
    m.window (readCstr m c).final =
      ⟨((m.window c).inside.dropWhile (· ≠ 0)).tail, (m.window c).outside⟩ := by
  have hwindow := window_skipWhile (m := m) (· ≠ 0) _ c hle (Nat.le_refl _)
  have hskip := (spec_between (moves_cursor m (moves_skipWhile m (· ≠ 0)
    (c.end_ - c.data).toNat)) c.data c.end_ c ⟨BitVec.le_refl _, hle, rfl⟩
    fun _ _ => trivial).2 () (skipWhile_value m _ _ _)
  have hv := skipWhile_value m (· ≠ 0) (c.end_ - c.data).toNat c
  rcases hr : skipWhile m (· ≠ 0) (c.end_ - c.data).toNat c with ⟨v, c', t⟩
  rw [hr] at hskip hv hwindow
  obtain rfl : v = some () := hv
  have hwindow : m.window c' =
    ⟨(m.window c).inside.dropWhile (· ≠ 0), (m.window c).outside⟩ := hwindow
  obtain ⟨hd, hle', he⟩ : Between c.data c.end_ c' := hskip
  rw [readCstr, Prog.get_bind, bind_of_eq hr, Prog.get_bind]
  by_cases hlt : c'.data < c'.end_
  · rw [if_pos hlt]
    show m.window ⟨c'.data + BitVec.ofNat 64 1, c'.end_⟩ = _
    rw [LineSections.window_advance (by bv_omega), hwindow, List.drop_one]
  · have hempty : (m.window c').inside = [] := LineSections.bytesAt_of_le (by bv_omega)
    rw [if_neg hlt]
    show m.window c' = _
    rw [hwindow] at hempty ⊢
    have hnone : (m.window c).inside.dropWhile (· ≠ 0) = [] := hempty
    rw [hnone]
    rfl

lemma cstrOf_cons {b : Byte} (l : List Byte) (h : b ≠ 0) :
    cstrOf (b :: l) = charOf b :: cstrOf l := by
  have hb : ¬ b = 0#8 := h
  simp [cstrOf, hb]

/-- What is copied of a C string that ends within the bytes shown. -/
lemma copyLoop_value (r : Region) (c : ParseCursor) : ∀ (n fuel : ℕ) (a : Addr), n ≤ fuel →
    0 ∈ m.bytesAt a n → (copyLoop m r fuel a c).value = some (cstrOf (m.bytesAt a n))
  | 0, _, _, _, h => by cases h
  | n + 1, fuel, a, hfuel, h => by
      obtain ⟨fuel, rfl⟩ := Nat.exists_eq_succ_of_ne_zero (Nat.ne_of_gt (Nat.zero_lt_of_lt hfuel))
      rw [LineSections.bytesAt_succ] at h ⊢
      rw [copyLoop, load_bind]
      by_cases hnul : m.mem a = 0
      · rw [if_pos hnul, hnul]
        rfl
      · have hrest : 0 ∈ m.bytesAt (a + 1) n :=
          (List.mem_cons.mp h).resolve_left fun h0 => hnul h0.symm
        have ih := copyLoop_value r c n fuel (a + 1) (by omega) hrest
        rw [if_neg hnul]
        show ((copyLoop m r fuel (a + 1) >>= fun s => Pure.pure (charOf (m.mem a) :: s)) c).value =
          _
        rw [bind_pure_comp, map_apply, ih, cstrOf_cons _ hnul]
        rfl

/-- A C string of `.debug_line` that ends there. -/
lemma copyCstr_line {c : ParseCursor} {a : Addr} (hstart : m.start .line ≤ a) (hend : a ≤ m.end_)
    (hclosed : m.Closed (.text .line a)) :
    (copyCstr m .line a c).value = some (cstrOf (m.bytesAt a (m.end_.toNat - a.toNat))) := by
  have hfits := m.fits
  have htoNat := end_toNat m
  obtain ⟨n, hn, hnul⟩ := hclosed
  have hlt : n < m.end_.toNat - a.toNat := by bv_omega
  have hmem : 0 ∈ m.bytesAt a (m.end_.toNat - a.toNat) := by
    rw [← hnul]
    exact LineSections.mem_bytesAt hlt
  exact copyLoop_value .line c _ _ a (by omega) hmem

/-- The bytes from a cursor to the end of the section. -/
lemma window_append {c : ParseCursor} (hle : c.data ≤ c.end_) (hend : c.end_ ≤ m.end_) :
    (m.window c).inside ++ (m.window c).outside =
      m.bytesAt c.data (m.end_.toNat - c.data.toNat) := by
  have hn : m.end_.toNat - c.data.toNat =
      (c.end_.toNat - c.data.toNat) + (m.end_.toNat - c.end_.toNat) := by bv_omega
  have he : c.data + BitVec.ofNat 64 (c.end_.toNat - c.data.toNat) = c.end_ := by bv_omega
  rw [hn, LineSections.bytesAt_add, he]
  rfl

/-- `read_cstr` with a copy of what it found. -/
lemma follows_readCstr : Follows m (readCstr m >>= copyCstr m .line) Cdbg.readCstr := by
  refine ⟨(moves_cursor m (moves_readCstr m)).bind fun a => moves_copyCstr m .line a, ?_⟩
  rintro c ⟨hstart, hle, hend⟩ hclosed
  have hv := readCstr_value m c
  have hwindow := window_readCstr (m := m) hle
  rcases hr : readCstr m c with ⟨v, c', t⟩
  rw [hr] at hv hwindow
  obtain rfl : v = some c.data := hv
  rw [bind_of_eq hr] at hclosed ⊢
  have htext : m.Closed (.text .line c.data) :=
    hclosed _ (List.mem_append_right _ List.mem_cons_self)
  rw [copyCstr_line hstart (BitVec.le_trans hle hend) htext, copyCstr_final,
    ← window_append hle hend]
  exact congrArg (fun w => some (cstrOf _, w)) hwindow.symm

/-- `read_cstr` where the string is not looked at. -/
lemma follows_skipCstr :
    Follows m (do let _ ← readCstr m) (do let _ ← Cdbg.readCstr) := by
  refine ⟨(moves_cursor m (moves_readCstr m)).bind fun _ => Moves.pure (), ?_⟩
  intro c hc hclosed
  have hv := readCstr_value m c
  have hwindow := window_readCstr (m := m) hc.2.1
  rcases hr : readCstr m c with ⟨v, c', t⟩
  rw [hr] at hv hwindow
  obtain rfl : v = some c.data := hv
  rw [bind_of_eq hr]
  exact congrArg (fun w => some ((), w)) hwindow.symm

lemma follows_lookupLineStr (offset : BitVec 64) :
    Follows m (lookupLineStr m offset)
      (Pure.pure (Cdbg.lookupLineStr m.lineStrBytes offset)) := by
  rw [lookupLineStr, Cdbg.lookupLineStr, LineSections.lineStrBytes]
  by_cases hnull : m.start .lineStr = 0
  · rw [if_pos (Or.inl hnull), if_pos hnull, List.drop_nil]
    exact Follows.pure _
  · rw [if_neg hnull]
    by_cases hle : m.size .lineStr ≤ offset
    · have hnone : (m.bytesAt (m.start .lineStr) (m.size .lineStr).toNat).drop offset.toNat = [] :=
        List.drop_eq_nil_of_le (by rw [LineSections.length_bytesAt]; exact hle)
      rw [if_pos (Or.inr hle), hnone]
      exact Follows.pure _
    · rw [if_neg (not_or.mpr ⟨hnull, hle⟩)]
      refine ⟨moves_copyCstr m _ _, fun c _ hclosed => ?_⟩
      obtain ⟨n, hn, hnul⟩ := (LineSections.copyCstr_closed_iff _ _ _).mp hclosed
      have hsize := (m.size .lineStr).isLt
      have hlt : n < (m.size .lineStr).toNat - offset.toNat := by bv_omega
      have hmem : 0 ∈ m.bytesAt (m.start .lineStr + offset)
          ((m.size .lineStr).toNat - offset.toNat) := by
        rw [← hnul]
        exact LineSections.mem_bytesAt hlt
      have hdrop : (m.bytesAt (m.start .lineStr) (m.size .lineStr).toNat).drop offset.toNat =
          m.bytesAt (m.start .lineStr + offset) ((m.size .lineStr).toNat - offset.toNat) := by
        rw [LineSections.drop_bytesAt, BitVec.ofNat_toNat, BitVec.setWidth_eq]
      have hvalue := copyLoop_value .lineStr c _ (2 ^ 64) _ (by omega) hmem
      have hcopy : (copyCstr m .lineStr (m.start .lineStr + offset) c).value = _ := hvalue
      rw [hdrop, hcopy, copyCstr_final]
      rfl

lemma window_length {c : ParseCursor} (hc : Within m c) :
    (m.window c).inside.length = (c.end_ - c.data).toNat := by
  have hle := hc.2.1
  rw [LineSections.window, LineSections.length_bytesAt]
  bv_omega

/-- A function that asks first whether some bytes are left. -/
lemma Follows.cursorOk {p : Decoder α} {r : ByteReader α} (n : ℕ) (h : Follows m p r) :
    Follows m (do if ← cursorOk n then p else Decoder.giveUp) (do Cdbg.cursorOk n; r) := by
  refine ⟨(moves_cursorOk m n).bind fun ok => Moves.ite h.moves Moves.hang, fun c hc hclosed => ?_⟩
  have hlen := window_length hc
  rw [cursorOk_bind] at hclosed ⊢
  by_cases hn : n ≤ (c.end_ - c.data).toNat
  · have hok : (Cdbg.cursorOk n).run (m.window c) = some ((), m.window c) :=
      if_pos (hlen ▸ hn)
    rw [if_pos (decide_eq_true hn)] at hclosed ⊢
    rw [StateT.run_bind, hok]
    exact h.follows c hc hclosed
  · have hno : (Cdbg.cursorOk n).run (m.window c) = none := if_neg (hlen ▸ hn)
    rw [if_neg (by simpa using hn), StateT.run_bind, hno]
    rfl

lemma follows_skipData16 :
    Follows m skipData16 (do Cdbg.cursorOk 16; Cdbg.advance 16) := by
  refine ⟨moves_cursor m moves_skipData16, fun c hc _ => ?_⟩
  have hle := hc.2.1
  have hlen := window_length hc
  rw [skipData16, cursorOk_bind]
  by_cases hn : 16 ≤ (c.end_ - c.data).toNat
  · have hok : (Cdbg.cursorOk 16).run (m.window c) = some ((), m.window c) := if_pos (hlen ▸ hn)
    rw [if_pos (decide_eq_true hn), StateT.run_bind, hok]
    have hfit : c.data.toNat + 16 < 2 ^ 64 := by bv_omega
    exact congrArg (fun w => some ((), w)) (LineSections.window_advance hfit).symm
  · have hno : (Cdbg.cursorOk 16).run (m.window c) = none := if_neg (hlen ▸ hn)
    rw [if_neg (by simpa using hn), StateT.run_bind, hno]
    rfl

lemma follows_readFormatDescriptors :
    Follows m (readFormatDescriptors m) Cdbg.readFormatDescriptors := by
  refine follows_readU8.bind fun _ => Follows.times ?_ _
  exact follows_readUleb128.bind fun _ => follows_readUleb128.bind fun _ => Follows.pure _

lemma follows_readFormString (form : BitVec 64) :
    Follows m (readFormString m form) (Cdbg.readFormString m.lineStrBytes form) := by
  refine Follows.ite ?_ (Follows.ite ?_ Follows.giveUp)
  · refine Follows.cursorOk 1 (follows_readUleb128.bind fun offset => ?_)
    have hstr := (follows_lookupLineStr (m := m) offset).bind
      fun s => Follows.pure (m := m) (truncate linenoMaxFile s)
    rwa [pure_bind] at hstr
  · have hstr := (follows_readCstr (m := m)).bind
      fun s => Follows.pure (m := m) (truncate linenoMaxFile s)
    rwa [bind_assoc] at hstr

lemma follows_skipFormValue (form : BitVec 64) :
    Follows m (skipFormValue m form) (Cdbg.skipFormValue form) := by
  have huleb : Follows m (do let _ ← readUleb128 m) (do let _ ← Cdbg.readUleb128) :=
    follows_readUleb128.bind fun _ => Follows.pure ()
  refine Follows.ite huleb (Follows.ite follows_skipData16 ?_)
  exact Follows.ite follows_skipCstr (Follows.ite huleb Follows.giveUp)

lemma follows_readDirField (path : Str) (desc : FormatDesc) :
    Follows m (readDirField m path desc) (Cdbg.readDirField m.lineStrBytes path desc) :=
  Follows.ite (follows_readFormString _)
    ((follows_skipFormValue _).bind fun _ => Follows.pure _)

lemma follows_parseV5Directories :
    Follows m (parseV5Directories m) (Cdbg.parseV5Directories m.lineStrBytes) := by
  have hfields := Follows.foldlM (follows_readDirField (m := m))
  refine follows_readFormatDescriptors.bind fun descs => Follows.ite (Follows.pure _) ?_
  refine follows_readUleb128.bind fun count => (Follows.times (hfields descs []) _).bind fun _ => ?_
  exact follows_skipPaddingZeros.bind fun _ => Follows.pure _

lemma follows_readFileField (file : Str × BitVec 64) (desc : FormatDesc) :
    Follows m (readFileField m file desc) (Cdbg.readFileField m.lineStrBytes file desc) := by
  refine Follows.ite ((follows_readFormString _).bind fun _ => Follows.pure _) ?_
  refine Follows.ite (follows_readUleb128.bind fun _ => Follows.pure _) ?_
  refine Follows.ite ?_ ((follows_skipFormValue _).bind fun _ => Follows.pure _)
  have h := (follows_skipData16 (m := m)).bind fun _ => Follows.pure (m := m) file
  rwa [bind_assoc] at h

lemma follows_parseV5FileNames :
    Follows m (parseV5FileNames m) (Cdbg.parseV5FileNames m.lineStrBytes) := by
  have hfields := Follows.foldlM (follows_readFileField (m := m))
  refine follows_readFormatDescriptors.bind fun descs => Follows.ite (Follows.pure _) ?_
  exact follows_readUleb128.bind fun count => Follows.times (hfields descs ([], 0)) _

/-- A copy of a C string of `.debug_line` is the string there. -/
lemma follows_copyCstr {a : Addr} (hstart : m.start .line ≤ a) (hend : a ≤ m.end_) :
    Follows m (copyCstr m .line a)
      (Pure.pure (cstrOf (m.bytesAt a (m.end_.toNat - a.toNat)))) := by
  refine ⟨moves_copyCstr m .line a, fun c _ hclosed => ?_⟩
  have htext := (LineSections.copyCstr_closed_iff _ _ _).mp hclosed
  rw [copyCstr_line hstart hend htext, copyCstr_final]
  rfl

/-- A string that is read before its first byte is looked at. -/
lemma FollowsFrom.string {c : ParseCursor} {f : Addr × Byte → Decoder β}
    {g : Str → ByteReader β}
    (h : FollowsFrom m (readCstr m c).final (f (c.data, m.mem c.data))
      (g (cstrOf (m.bytesAt c.data (m.end_.toNat - c.data.toNat))))) :
    FollowsFrom m c (readCstrFirst m >>= f) (Cdbg.readCstr >>= g) := by
  intro hc hclosed
  have hle := hc.2.1
  have hfinal := within_of_moves (moves_cursor m (moves_readCstr m)) hc (readCstr_value m c)
  have hread : Cdbg.readCstr.run (m.window c) =
      some (cstrOf (m.bytesAt c.data (m.end_.toNat - c.data.toNat)),
        m.window (readCstr m c).final) := by
    rw [window_readCstr hle, ← window_append hle hc.2.2]
    rfl
  rw [bind_of_eq (readCstrFirst_apply m c)] at hclosed ⊢
  rw [StateT.run_bind, hread]
  exact h hfinal fun t ht => hclosed t (List.mem_append_right _ ht)

lemma cstrOf_eq_nil_iff {a : Addr} (h : a < m.end_) :
    cstrOf (m.bytesAt a (m.end_.toNat - a.toNat)) = [] ↔ m.mem a = 0 := by
  rw [LineSections.bytesAt_of_lt h]
  constructor
  · intro hnil
    by_contra hne
    rw [cstrOf_cons _ hne] at hnil
    cases hnil
  · intro hnul
    rw [hnul]
    rfl

lemma window_inside_eq_nil {c : ParseCursor} : (m.window c).inside = [] ↔ ¬ c.data < c.end_ := by
  rw [← List.length_eq_zero_iff, LineSections.window, LineSections.length_bytesAt]
  bv_omega

lemma follows_parseDirsV4 : ∀ n, Follows m (parseDirsV4 m n) (Cdbg.parseDirsV4 n)
  | 0 => Follows.pure _
  | n + 1 => by
      refine ⟨moves_parseDirsV4 m (n + 1), fun c hc => ?_⟩
      refine FollowsFrom.get_bind ?_ hc
      by_cases hlt : c.data < c.end_
      · have hinside : ¬ (m.window c).inside = [] := fun h => window_inside_eq_nil.mp h hlt
        have hend : c.data < m.end_ := by
          have hce := hc.2.2
          bv_omega
        have hcopy := follows_copyCstr hc.1 (BitVec.le_of_lt hend)
        rw [if_pos hlt, if_neg hinside]
        refine FollowsFrom.string ?_
        by_cases hnul : m.mem c.data = 0
        · rw [(cstrOf_eq_nil_iff hend).mpr hnul]
          simp only [hnul, if_true]
          exact FollowsFrom.pure _ _
        · have hne := (cstrOf_eq_nil_iff hend).not.mpr hnul
          simp only [if_neg hnul, if_neg hne]
          have h := hcopy.bind fun dir => (follows_parseDirsV4 n).bind fun dirs =>
            Follows.pure (dir :: dirs)
          rw [pure_bind] at h
          exact h.follows _
      · rw [if_neg hlt, if_pos (window_inside_eq_nil.mpr hlt)]
        exact FollowsFrom.pure _ _

lemma follows_fileNamesV4Loop : ∀ n, Follows m (fileNamesV4Loop m n) (Cdbg.fileNamesV4Loop n)
  | 0 => Follows.pure _
  | n + 1 => by
      refine ⟨moves_fileNamesV4Loop m (n + 1), fun c hc => ?_⟩
      refine FollowsFrom.get_bind ?_ hc
      by_cases hlt : c.data < c.end_
      · have hinside : ¬ (m.window c).inside = [] := fun h => window_inside_eq_nil.mp h hlt
        have hend : c.data < m.end_ := by
          have hce := hc.2.2
          bv_omega
        have hcopy := follows_copyCstr hc.1 (BitVec.le_of_lt hend)
        rw [if_pos hlt, if_neg hinside]
        refine FollowsFrom.string ?_
        by_cases hnul : m.mem c.data = 0
        · rw [(cstrOf_eq_nil_iff hend).mpr hnul]
          simp only [hnul, if_true]
          exact FollowsFrom.pure _ _
        · have hne := (cstrOf_eq_nil_iff hend).not.mpr hnul
          simp only [if_neg hnul, if_neg hne]
          have h := (follows_readUleb128 (m := m)).bind fun dirIndex =>
            (follows_skipData16 (m := m)).bind fun _ => hcopy.bind fun name =>
              (follows_fileNamesV4Loop n).bind fun files => Follows.pure ((name, dirIndex) :: files)
          simp only [pure_bind, bind_assoc] at h
          exact h.follows _
      · rw [if_neg hlt, if_pos (window_inside_eq_nil.mpr hlt)]
        exact FollowsFrom.pure _ _

/-- A loop with as many rounds as bytes are left. -/
lemma Follows.rounds {f : ℕ → Decoder α} {g : ℕ → ByteReader α} (h : ∀ n, Follows m (f n) (g n)) :
    Follows m (do let c ← Prog.get; f (c.end_ - c.data).toNat)
      (do let c ← get; g c.inside.length) := by
  refine ⟨Moves.get_bind' fun c => (h _).moves, fun c hc => ?_⟩
  refine FollowsFrom.get_bind ?_ hc
  rw [window_length hc]
  exact (h _).follows c

lemma follows_parseFileNamesV4 : Follows m (parseFileNamesV4 m) Cdbg.parseFileNamesV4 :=
  Follows.rounds follows_fileNamesV4Loop

lemma follows_readTables (v5 : Bool) (header : LineHeader) :
    Follows m (readTables m v5 header) (Cdbg.readTables m.lineStrBytes v5 header) := by
  refine Follows.ite ?_ ?_
  · exact follows_parseV5Directories.bind fun _ => follows_parseV5FileNames.bind fun _ =>
      Follows.pure _
  · have h := (Follows.rounds (follows_parseDirsV4 (m := m))).bind fun dirs =>
      follows_parseFileNamesV4.bind fun files =>
        Follows.pure (Prologue.mk header ([] :: dirs) (([], 0) :: files))
    rwa [bind_assoc, bind_assoc] at h

lemma follows_lengthsLoop : ∀ n i, n + i ≤ 16 →
    Follows m (lengthsLoop m n i) (Reader.times n Cdbg.readU8)
  | 0, _, _ => Follows.pure _
  | n + 1, i, h => by
      have htouch : Follows m (touch (.length i)) (Pure.pure ()) :=
        ⟨fun c => MovesFrom.single (ReadStep.length c i (by omega)), fun _ _ _ => rfl⟩
      have hrest := follows_lengthsLoop n (i + 1) (by omega)
      have hloop := htouch.bind fun _ => follows_readU8.bind fun b => hrest.bind fun bs =>
        Follows.pure (b :: bs)
      rwa [pure_bind] at hloop

lemma follows_readPrologue (v5 : Bool) (addressSize : Byte) :
    Follows m (readPrologue m v5 addressSize)
      (Cdbg.readPrologue m.lineStrBytes v5 addressSize) := by
  have hu8 := follows_readU8 (m := m)
  have hmaxOps : Follows m (readMaxOps m v5) (Cdbg.readMaxOps v5) :=
    Follows.ite hu8 (Follows.pure _)
  refine hu8.bind fun _ => hmaxOps.bind fun _ => hu8.bind fun _ => hu8.bind fun _ => ?_
  refine hu8.bind fun _ => hu8.bind fun opcodeBase => ?_
  exact (follows_lengthsLoop _ 1 (by omega)).bind fun _ => follows_readTables _ _

lemma follows_readUnitFields (v5 : Bool) :
    Follows m (readUnitFields m v5) (Cdbg.readUnitFields v5) := by
  have hu8 := follows_readU8 (m := m)
  have hu32 := follows_readU32 (m := m)
  refine Follows.ite ?_ (hu32.bind fun _ => Follows.pure _)
  exact hu8.bind fun _ => hu8.bind fun _ => hu32.bind fun _ => Follows.pure _

lemma follows_subOpcode (h : LineHeader) (s : LineState) (sub : Byte) :
    Follows m (subOpcode m h s sub) (h.subOpcode s sub) := by
  refine Follows.ite (Follows.pure _) (Follows.ite ?_ (Follows.ite ?_ (Follows.pure _)))
  · exact follows_readU64.bind fun _ => Follows.pure _
  · exact follows_readU32.bind fun _ => Follows.pure _

/-! ### Rounds of the program -/

/-- What only reads from its cursor copies no string. -/
lemma Follows.run {p : Decoder α} {r : ByteReader α} (h : Follows m p r)
    (hp : Moves CursorStep p) {c : ParseCursor} (hc : Within m c) :
    r.run (m.window c) = (p c).value.map fun a => (a, m.window (p c).final) := by
  obtain ⟨c', hchain, _⟩ := hp c
  exact h.follows c hc (LineSections.closed_of_chain hchain)

lemma follows_standard (h : LineHeader) (s : LineState) {opcode : Byte}
    (hop : opcode.toNat ∈ [1, 2, 3, 4, 5, 9]) :
    Follows m (standard m h s opcode) (h.standard s opcode) := by
  have huleb := follows_readUleb128 (m := m)
  simp only [List.mem_cons, List.not_mem_nil, or_false] at hop
  rcases hop with hk | hk | hk | hk | hk | hk
  · rw [standard, LineHeader.standard, hk]
    exact Follows.pure _
  · rw [standard, LineHeader.standard, hk]
    exact huleb.bind fun _ => Follows.pure _
  · rw [standard, LineHeader.standard, hk]
    exact follows_readSleb128.bind fun _ => Follows.pure _
  · rw [standard, LineHeader.standard, hk]
    exact huleb.bind fun _ => Follows.pure _
  · rw [standard, LineHeader.standard, hk]
    exact huleb.bind fun _ => Follows.pure _
  · rw [standard, LineHeader.standard, hk]
    exact follows_readU16.bind fun _ => Follows.pure _

lemma extendedTo_window (h : LineHeader) (s : LineState) {c : ParseCursor} (hc : Within m c)
    {n : ℕ} (hfit : c.data.toNat + n < 2 ^ 64) :
    (do
      let w ← get
      let sub ← Cdbg.readU8
      let round ← h.subOpcode s sub
      set w
      Cdbg.advance n
      return round : ByteReader LineRound).run (m.window c) =
      (extendedTo m h s (c.data + BitVec.ofNat 64 n) c).value.map fun a =>
        (a, m.window (extendedTo m h s (c.data + BitVec.ofNat 64 n) c).final) := by
  have hcore := (follows_readU8 (m := m)).bind fun sub => follows_subOpcode h s sub
  have hmoves := (moves_readU8 m).bind fun sub => moves_subOpcode m h s sub
  have hrun := hcore.run hmoves hc
  obtain ⟨r, hr⟩ := (returns_readU8 m).bind (fun sub => returns_subOpcode m h s sub) c
  -- the sub opcode is read, and the cursor is set to the end of the opcode
  have hto : extendedTo m h s (c.data + BitVec.ofNat 64 n) =
      (readU8 m >>= fun sub => subOpcode m h s sub) >>= fun round => do
        Prog.modify fun c' => { c' with data := c.data + BitVec.ofNat 64 n }
        return round := by
    rw [bind_assoc]
    rfl
  have hend := ((spec_between (moves_cursor m hmoves) c.data c.end_ c
    ⟨BitVec.le_refl _, hc.2.1, rfl⟩ fun _ _ => trivial).2 r hr).2.2
  rcases hc' : (readU8 m >>= fun sub => subOpcode m h s sub) c with ⟨v, c', t⟩
  rw [hc'] at hr hrun hend
  obtain rfl : v = some r := hr
  have hend : c'.end_ = c.end_ := hend
  -- the reader over the section goes the same way
  have hlist : (do
      let w ← get
      let sub ← Cdbg.readU8
      let round ← h.subOpcode s sub
      set w
      Cdbg.advance n
      return round : ByteReader LineRound) = (do
      let w ← get
      let round ← Cdbg.readU8 >>= fun sub => h.subOpcode s sub
      set w
      Cdbg.advance n
      return round) := by simp only [bind_assoc]
  have hfinal : (⟨(m.window c).inside.drop n, (m.window c).outside⟩ : Cursor Byte) =
      m.window ⟨c.data + BitVec.ofNat 64 n, c'.end_⟩ := by
    rw [hend, LineSections.window_advance hfit]
  rw [hto, bind_of_eq hc', hlist]
  show ((Cdbg.readU8 >>= fun sub => h.subOpcode s sub) >>= fun round =>
    (do set (m.window c); Cdbg.advance n; return round : ByteReader LineRound)).run
      (m.window c) = _
  rw [StateT.run_bind, hrun]
  exact congrArg (fun w => some (r, w)) hfinal

/-- An extended opcode whose length does not wrap. -/
lemma extended_window (h : LineHeader) (s : LineState) {c : ParseCursor} (hc : Within m c)
    (hsum : (extLength m c).2.toNat + (extLength m c).1.toNat < 2 ^ 64) :
    (h.extended s).run (m.window c) =
      (extended m h s c).value.map fun a => (a, m.window (extended m h s c).final) := by
  obtain ⟨len, hlen⟩ := returns_readUleb128 m c
  have hread := follows_readUleb128.run (moves_readUleb128 m) hc
  have hc' := within_of_moves (moves_cursor m (moves_readUleb128 m)) hc hlen
  rcases hr : readUleb128 m c with ⟨v, c', t⟩
  rw [hr] at hread hc' hlen
  obtain rfl : v = some len := hlen
  rw [extLength, hr] at hsum
  have hsum : c'.data.toNat + len.toNat < 2 ^ 64 := hsum
  have hc' : Within m c' := hc'
  have hle := hc'.2.1
  rw [extended, bind_of_eq hr, Prog.get_bind, LineHeader.extended, StateT.run_bind, hread]
  show ((do
    Cdbg.cursorOk len.toNat
    let c ← get
    let sub ← Cdbg.readU8
    let round ← h.subOpcode s sub
    set c
    Cdbg.advance len.toNat
    return round : ByteReader LineRound).run (m.window c')) = _
  by_cases hlt : c'.end_ < c'.data + len
  · have hno : (Cdbg.cursorOk len.toNat).run (m.window c') = none :=
      if_neg (by rw [window_length hc']; bv_omega)
    rw [if_pos hlt, StateT.run_bind, hno]
    rfl
  · have hok : (Cdbg.cursorOk len.toNat).run (m.window c') = some ((), m.window c') :=
      if_pos (by rw [window_length hc']; bv_omega)
    rw [if_neg hlt, StateT.run_bind, hok]
    have hto := extendedTo_window h s hc' hsum
    rwa [BitVec.ofNat_toNat, BitVec.setWidth_eq] at hto

/-- A standard opcode that the header lets the decoder run. -/
lemma standard_window (h : LineHeader) (s : LineState) {opcode : Byte} (hop : opcode.toNat < 16)
    {c : ParseCursor} (hc : Within m c) :
    (h.standard s opcode).run (m.window c) = (standard m h s opcode c).value.map fun a =>
      (a, m.window (standard m h s opcode c).final) := by
  by_cases hread : opcode.toNat ∈ [1, 2, 3, 4, 5, 9]
  · exact (follows_standard h s hread).run (moves_standard m h s hread) hc
  · by_cases hconst : opcode.toNat = 8
    · rw [standard, LineHeader.standard, hconst]
      rfl
    · have hskip : opcode.toNat ∉ [1, 2, 3, 4, 5, 8, 9] := by
        simp only [List.mem_cons, List.not_mem_nil, or_false, not_or] at hread ⊢
        omega
      have hlist : h.standard s opcode = (do
          Cdbg.advance (h.stdLengths.getD opcode.toNat 0).toNat
          return (none, s)) := by
        rw [LineHeader.standard]
        split <;> simp_all
      have hlength : stdLength m h opcode.toNat = h.stdLengths.getD opcode.toNat 0 := if_pos hop
      have hfits := m.fits
      have htoNat := end_toNat m
      have hlt := (h.stdLengths.getD opcode.toNat 0).isLt
      obtain ⟨_, hle, hend⟩ := hc
      have hwindow : (⟨(m.window c).inside.drop (h.stdLengths.getD opcode.toNat 0).toNat,
          (m.window c).outside⟩ : Cursor Byte) = m.window ⟨c.data +
            BitVec.ofNat 64 (h.stdLengths.getD opcode.toNat 0).toNat, c.end_⟩ :=
        (LineSections.window_advance (by bv_omega)).symm
      rw [hlist, standard_skipped m h s hskip, hlength]
      exact congrArg (fun w => some ((none, s), w)) hwindow

/-- A round that is legal and adds no length that wraps does over addresses what it does over
the window. -/
lemma round_window (h : LineHeader) (s : LineState) {c : ParseCursor} (hlt : c.data < c.end_)
    (hstart : m.start .line ≤ c.data) (hend : c.end_ ≤ m.end_)
    (hsafe : LineSections.OpcodeSafe h (m.mem c.data))
    (hplain : m.mem c.data = 0 → (extLength m ⟨c.data + 1, c.end_⟩).2.toNat +
      (extLength m ⟨c.data + 1, c.end_⟩).1.toNat < 2 ^ 64) :
    (h.round s).run (m.window c) =
      (round m h s c).value.map fun a => (a, m.window (round m h s c).final) := by
  have hfits := m.fits
  have htoNat := end_toNat m
  have hc : Within m c := ⟨hstart, BitVec.le_of_lt hlt, hend⟩
  have hread := follows_readU8.run (moves_readU8 m) hc
  rw [readU8_of_lt m hlt] at hread
  have hnext : Within m ⟨c.data + 1, c.end_⟩ := by
    refine ⟨?_, ?_, hend⟩
    · show m.start .line ≤ c.data + 1
      bv_omega
    · show c.data + 1 ≤ c.end_
      bv_omega
  rw [round_of_lt m h s hlt, LineHeader.round, StateT.run_bind, hread, afterOpcode]
  show (if m.mem c.data = 0 then h.extended s else if m.mem c.data < h.opcodeBase then
    h.standard s (m.mem c.data) else _ : ByteReader LineRound).run
      (m.window ⟨c.data + 1, c.end_⟩) = _
  by_cases hzero : m.mem c.data = 0
  · rw [if_pos hzero, if_pos hzero]
    exact extended_window h s hnext (hplain hzero)
  · rw [if_neg hzero, if_neg hzero]
    by_cases hbase : m.mem c.data < h.opcodeBase
    · have hsafe := hsafe hzero
      rw [if_pos hbase] at hsafe
      rw [if_pos hbase, if_pos hbase]
      exact standard_window h s hsafe.2 hnext
    · rw [if_neg hbase, if_neg hbase]
      rfl

end Follows

end Decoder

/-! ### Runs -/

namespace LineSections

open Decoder

variable {m : LineSections}

/-- A position from which both parsers go the same way: the round is legal, moves on, and adds
no length that wraps. -/
structure Ordinary (m : LineSections) (pos : LinePosition) : Prop where
  sound : m.Sound pos
  proceeds : m.Proceeds pos
  plain : ∀ p s unit ln, pos = .opcodes p s unit ln → unit.data < unit.end_ →
    m.mem unit.data = 0 → (extLength m ⟨unit.data + 1, unit.end_⟩).2.toNat +
      (extLength m ⟨unit.data + 1, unit.end_⟩).1.toNat < 2 ^ 64

/-- Where a program with these rows leads: the loop goes on behind the unit, or returns. -/
def behindProgram (p : Prologue) (unitEnd : Addr) (ln : LineRows) (r : ℤ × List LineState) :
    LinePosition :=
  let ln := { ln with entries := ln.entries ++ r.2.filterMap (LineState.entry p.dirs p.files) }
  if r.1 = 0 then .units unitEnd ln else .returned r.1 ln

lemma behindProgram_nil (p : Prologue) (unitEnd : Addr) (ln : LineRows) :
    behindProgram p unitEnd ln (0, []) = .units unitEnd ln := by
  simp [behindProgram]

lemma behindProgram_fail (p : Prologue) (unitEnd : Addr) (ln : LineRows) :
    behindProgram p unitEnd ln (-1, []) = .returned (-1) ln := by
  simp [behindProgram]

/-- The row of a round comes before those of the rest. -/
lemma behindProgram_cons (p : Prologue) (unitEnd : Addr) (ln : LineRows)
    (row : Option LineState) (rest : ℤ × List LineState) :
    behindProgram p unitEnd
        { ln with entries := ln.entries ++ (row.bind (LineState.entry p.dirs p.files)).toList }
        rest =
      behindProgram p unitEnd ln (rest.1, row.toList ++ rest.2) := by
  have hrow : (row.bind (LineState.entry p.dirs p.files)).toList =
      row.toList.filterMap (LineState.entry p.dirs p.files) := by
    cases row with
    | none => rfl
    | some s => cases h : LineState.entry p.dirs p.files s <;> simp [h]
  simp only [behindProgram, hrow, List.filterMap_append, List.append_assoc]

/-- A program over addresses comes to where its rows over the window lead. -/
lemma run_program (p : Prologue) : ∀ (n : ℕ) (s : LineState) (unit : ParseCursor) (ln : LineRows),
    m.start .line ≤ unit.end_ → unit.end_ ≤ m.end_ → unit.end_.toNat - unit.data.toNat ≤ n →
    (∀ k, m.Ordinary (m.next^[k] (.opcodes p s unit ln))) →
      ∃ j, m.next^[j] (.opcodes p s unit ln) =
        behindProgram p unit.end_ ln (p.header.program n s (m.window unit)) := by
  intro n
  induction n with
  | zero =>
      intro s unit ln _ _ hn _
      have hlast : ¬ unit.data < unit.end_ := by bv_omega
      have hnext : m.next (.opcodes p s unit ln) = .units unit.end_ ln := by
        rw [next, if_neg hlast]
      exact ⟨1, hnext.trans (behindProgram_nil p unit.end_ ln).symm⟩
  | succ n ih =>
      intro s unit ln hstart hend hn hordinary
      have hhere := hordinary 0
      by_cases hlt : unit.data < unit.end_
      · have hfits := m.fits
        have htoNat := end_toNat m
        have hunit : unit.end_.toNat ≤ 2 ^ 63 := by bv_omega
        obtain ⟨hfrom, hsafe⟩ := hhere.sound hlt
        have hplain := hhere.plain p s unit ln rfl hlt
        -- a round over addresses is a round over the window
        have hround := round_window p.header s hlt hfrom hend hsafe hplain
        have hinside : ¬ (m.window unit).inside = [] := fun h => window_inside_eq_nil.mp h hlt
        have hnext := next_opcodes (m := m) p s ln hlt
        rw [LineHeader.program, if_neg hinside, hround]
        rcases hv : (round m p.header s unit).value with _ | r
        · rw [hv] at hnext
          exact ⟨1, hnext.trans (behindProgram_fail p unit.end_ ln).symm⟩
        -- it moves on and keeps the end of the unit, so fewer bytes are left
        · obtain ⟨hkeep, hwrap | hon⟩ := round_advances m p.header s hlt hunit hv
          · exact absurd hwrap (hhere.proceeds hlt)
          · rw [hv] at hnext
            have hleft : (round m p.header s unit).final.end_.toNat -
                (round m p.header s unit).final.data.toNat ≤ n := by
              rw [hkeep]
              bv_omega
            obtain ⟨j, hj⟩ := ih r.2 (round m p.header s unit).final
              { ln with entries := ln.entries ++
                  (r.1.bind (LineState.entry p.dirs p.files)).toList }
              (by rw [hkeep]; exact hstart) (by rw [hkeep]; exact hend) hleft fun k => by
                have h := hordinary (k + 1)
                rwa [Function.iterate_succ_apply, hnext] at h
            rw [behindProgram_cons, hkeep] at hj
            refine ⟨j + 1, ?_⟩
            rw [Function.iterate_succ_apply, hnext]
            exact hj
      · have hnext : m.next (.opcodes p s unit ln) = .units unit.end_ ln := by
          rw [next, if_neg hlt]
        have hinside : (m.window unit).inside = [] := window_inside_eq_nil.mpr hlt
        rw [LineHeader.program, if_pos hinside, behindProgram_nil]
        exact ⟨1, hnext⟩

/-- The rows of a unit with its program. -/
def unitRows (v5 : Bool) (p : Prologue) (ln : LineRows) (r : ℤ × List LineEntry) : ℤ × LineRows :=
  let ln := if ln.compDir = [] then { ln with compDir := p.compDir v5 } else ln
  (r.1, { ln with entries := ln.entries ++ r.2 })

/-- The window on the header of a unit. -/
lemma window_prologue {c : ParseCursor} (hc : Within m c) {n : ℕ}
    (hn : n ≤ (c.end_ - c.data).toNat) :
    m.window ⟨c.data, c.data + BitVec.ofNat 64 n⟩ =
      ⟨(m.window c).inside.take n, (m.window c).inside.drop n ++ (m.window c).outside⟩ := by
  obtain ⟨_, hle, hend⟩ := hc
  have hfits := m.fits
  have htoNat := end_toNat m
  have htake : (c.data + BitVec.ofNat 64 n).toNat - c.data.toNat = n := by bv_omega
  have hrest : m.end_.toNat - (c.data + BitVec.ofNat 64 n).toNat =
      (c.end_.toNat - c.data.toNat - n) + (m.end_.toNat - c.end_.toNat) := by bv_omega
  have hend' : c.data + BitVec.ofNat 64 n +
      BitVec.ofNat 64 (c.end_.toNat - c.data.toNat - n) = c.end_ := by bv_omega
  rw [window, window, htake, hrest, bytesAt_add, hend', take_bytesAt n c.data (by bv_omega),
    drop_bytesAt]

/-- A header that fits ends within the section. -/
lemma within_prologue {c : ParseCursor} (hc : Within m c) {n : ℕ}
    (hn : n ≤ (c.end_ - c.data).toNat) : Within m ⟨c.data, c.data + BitVec.ofNat 64 n⟩ := by
  obtain ⟨hstart, hle, hend⟩ := hc
  have hfits := m.fits
  have htoNat := end_toNat m
  refine ⟨hstart, ?_, ?_⟩
  · show c.data ≤ c.data + BitVec.ofNat 64 n
    bv_omega
  · show c.data + BitVec.ofNat 64 n ≤ m.end_
    bv_omega

/-- A header over addresses and over the window: neither fits or can be read, or both are read
as the same. -/
lemma readHeader_cases {v5 : Bool} {addressSize : Byte} {len : BitVec 32} {c : ParseCursor}
    (hc : Within m c) (hclosed : ∀ t ∈ (readHeader m v5 addressSize len c).trace, m.Closed t) :
    let prologue : Cursor Byte := ⟨(m.window c).inside.take len.toNat,
      (m.window c).inside.drop len.toNat ++ (m.window c).outside⟩
    let read := (Cdbg.readPrologue m.lineStrBytes v5 addressSize).run prologue
    ((m.window c).inside.length < len.toNat ∨ read = none) ∧
        (readHeader m v5 addressSize len c).value = none ∨
      len.toNat ≤ (m.window c).inside.length ∧ ∃ p c', read = some (p, m.window c') ∧
        Between c.data (c.data + BitVec.ofNat 64 len.toNat) c' ∧
        (readHeader m v5 addressSize len c).value = some (.program v5 p
          ⟨if v5 then c.data + BitVec.ofNat 64 len.toNat - 1 else c'.data, c.end_⟩) := by
  have hfits := m.fits
  have htoNat := end_toNat m
  have hlen := len.isLt
  have hlength := window_length hc
  have hset : len.setWidth 64 = BitVec.ofNat 64 len.toNat := (BitVec.ofNat_toNat 64 len).symm
  obtain ⟨hstart, hle, hend⟩ := hc
  intro prologue read
  rw [readHeader, Prog.get_bind, hset] at hclosed ⊢
  by_cases hlt : c.end_ < c.data + BitVec.ofNat 64 len.toNat
  · rw [if_pos hlt]
    exact Or.inl ⟨Or.inl (by rw [hlength]; bv_omega), rfl⟩
  · have hn : len.toNat ≤ (c.end_ - c.data).toNat := by bv_omega
    have hwindow := window_prologue ⟨hstart, hle, hend⟩ hn
    have hwithin := within_prologue ⟨hstart, hle, hend⟩ hn
    rw [if_neg hlt, modify_bind] at hclosed ⊢
    -- the length fits: the tables are read up to the end of the header
    have hread := (follows_readPrologue (m := m) v5 addressSize).follows _ hwithin fun t ht =>
      hclosed t (mem_trace_bind _ ht)
    rw [hwindow] at hread
    have hbetween := (spec_between (moves_readPrologue m v5 addressSize) c.data
      (c.data + BitVec.ofNat 64 len.toNat) ⟨c.data, c.data + BitVec.ofNat 64 len.toNat⟩
      ⟨BitVec.le_refl _, hwithin.2.1, rfl⟩ fun _ _ => trivial).2
    rcases hr : Decoder.readPrologue m v5 addressSize ⟨c.data, c.data + BitVec.ofNat 64 len.toNat⟩
      with ⟨_ | p, c', t⟩
    · rw [hr] at hread
      rw [bind_of_none hr]
      exact Or.inl ⟨Or.inr hread, rfl⟩
    · rw [hr] at hread hbetween
      rw [bind_of_eq hr]
      exact Or.inr ⟨by rw [hlength]; exact hn, p, c', hread, hbetween p rfl, rfl⟩

/-- The program of version 5 starts a byte before the end of the header. -/
lemma window_start5 {w : Addr} {c : ParseCursor} (hc : Within m c) (hw : w < c.data) {n : ℕ}
    (hn : n ≤ (c.end_ - c.data).toNat) :
    m.window ⟨c.data + BitVec.ofNat 64 n - 1, c.end_⟩ =
      ⟨(m.window ⟨w, c.end_⟩).inside.drop ((m.window ⟨w, c.end_⟩).inside.length -
        (m.window c).inside.length + n - 1), (m.window ⟨w, c.end_⟩).outside⟩ := by
  obtain ⟨_, hle, hend⟩ := hc
  have hfits := m.fits
  have htoNat := end_toNat m
  have hwhole : (m.window ⟨w, c.end_⟩).inside.length = c.end_.toNat - w.toNat :=
    length_bytesAt _ _
  have hbody : (m.window c).inside.length = c.end_.toNat - c.data.toNat := length_bytesAt _ _
  rw [hwhole, hbody]
  have hdrop : c.end_.toNat - w.toNat - (c.end_.toNat - c.data.toNat) + n - 1 =
      c.data.toNat - w.toNat + n - 1 := by bv_omega
  have hfit : w.toNat + (c.data.toNat - w.toNat + n - 1) < 2 ^ 64 := by bv_omega
  have hstart : c.data + BitVec.ofNat 64 n - 1 =
      w + BitVec.ofNat 64 (c.data.toNat - w.toNat + n - 1) := by bv_omega
  have hadvance := window_advance (m := m) (c := ⟨w, c.end_⟩) hfit
  rw [hdrop, hstart]
  exact hadvance

/-- The program of version 4 starts where its tables end. -/
lemma window_start4 {c c' : ParseCursor} (hc : Within m c) {n : ℕ}
    (hn : n ≤ (c.end_ - c.data).toNat)
    (hc' : Between c.data (c.data + BitVec.ofNat 64 n) c') :
    m.window ⟨c'.data, c.end_⟩ =
      ⟨(m.window c').inside ++ (m.window c).inside.drop n, (m.window c).outside⟩ := by
  obtain ⟨_, hle, hend⟩ := hc
  obtain ⟨hd, hle', he⟩ := hc'
  have hfits := m.fits
  have htoNat := end_toNat m
  have hsplit : c.end_.toNat - c'.data.toNat =
      (c'.end_.toNat - c'.data.toNat) + (c.end_.toNat - c.data.toNat - n) := by bv_omega
  have hjoin : c'.data + BitVec.ofNat 64 (c'.end_.toNat - c'.data.toNat) =
      c.data + BitVec.ofNat 64 n := by bv_omega
  rw [window, hsplit, bytesAt_add, hjoin, window, window, drop_bytesAt]

lemma parseUnit_of_fields {lineStr : List Byte} {v5 : Bool} {whole unit body : Cursor Byte}
    {addressSize : Byte} {len : BitVec 32} (ln : LineRows)
    (h : (Cdbg.readUnitFields v5).run unit = some ((addressSize, len), body)) :
    parseUnit lineStr v5 whole unit ln =
      if body.inside.length < len.toNat then (-1, ln)
      else
        match (Cdbg.readPrologue lineStr v5 addressSize).run
          ⟨body.inside.take len.toNat, body.inside.drop len.toNat ++ body.outside⟩ with
        | none => (-1, ln)
        | some (p, stop) => unitRows v5 p ln (parseLineProgram p.header p.dirs p.files
            ⟨if v5 then
                whole.inside.drop (whole.inside.length - body.inside.length + len.toNat - 1)
              else stop.inside ++ body.inside.drop len.toNat, whole.outside⟩) := by
  rw [parseUnit, h]
  rfl

/-- A unit over addresses and over the window: both fail, or both come to the same program. -/
lemma parseUnit_cases {v5 : Bool} {w : Addr} {c : ParseCursor} (hc : Within m c) (hw : w < c.data)
    (ln : LineRows) (hclosed : ∀ t ∈ (readUnit m v5 c).trace, m.Closed t) :
    (readUnit m v5 c).value = none ∧
        parseUnit m.lineStrBytes v5 (m.window ⟨w, c.end_⟩) (m.window c) ln = (-1, ln) ∨
      ∃ p unit, (readUnit m v5 c).value = some (.program v5 p unit) ∧ unit.end_ = c.end_ ∧
        parseUnit m.lineStrBytes v5 (m.window ⟨w, c.end_⟩) (m.window c) ln =
          unitRows v5 p ln (parseLineProgram p.header p.dirs p.files (m.window unit)) := by
  have hfits := m.fits
  have htoNat := end_toNat m
  have hfields := (follows_readUnitFields (m := m) v5).follows c hc fun t ht =>
    hclosed t (mem_trace_bind _ ht)
  -- the address size and the length of the header, or no room for them
  rcases hr : Decoder.readUnitFields m v5 c with ⟨_ | ⟨addressSize, len⟩, c1, t⟩
  · rw [hr] at hfields
    rw [readUnit, bind_of_none hr, parseUnit, hfields]
    exact Or.inl ⟨rfl, rfl⟩
  · rw [hr] at hfields
    have hc1 : Between c.data c.end_ c1 := by
      have h := (spec_between (moves_readUnitFields m v5) c.data c.end_ c
        ⟨BitVec.le_refl _, hc.2.1, rfl⟩ fun _ _ => trivial).2
      rw [hr] at h
      exact h _ rfl
    obtain ⟨hd1, hle1, he1⟩ := hc1
    have hwithin : Within m c1 := ⟨BitVec.le_trans hc.1 hd1, hle1, he1 ▸ hc.2.2⟩
    rw [readUnit, bind_of_eq hr] at hclosed
    -- the header behind them
    have hcases := readHeader_cases hwithin fun t ht => hclosed t (List.mem_append_right _ ht)
    rw [readUnit, bind_of_eq hr, parseUnit_of_fields ln hfields]
    obtain ⟨hfail, hvalue⟩ | ⟨hlen, p, c', hread, hbetween, hvalue⟩ := hcases
    · refine Or.inl ⟨hvalue, ?_⟩
      by_cases hshort : (m.window c1).inside.length < len.toNat
      · rw [if_pos hshort]
      · rw [if_neg hshort, hfail.resolve_left hshort]
    · refine Or.inr ⟨p, _, hvalue, he1, ?_⟩
      rw [if_neg (Nat.not_lt.mpr hlen), hread, ← he1]
      have hn : len.toNat ≤ (c1.end_ - c1.data).toNat := by rwa [window_length hwithin] at hlen
      -- the program begins behind the length in version 5, behind the header in version 4
      cases v5 with
      | true =>
          have hw1 : w < c1.data := by bv_omega
          show _ = unitRows true p ln (parseLineProgram p.header p.dirs p.files
            (m.window ⟨c1.data + BitVec.ofNat 64 len.toNat - 1, c1.end_⟩))
          rw [window_start5 hwithin hw1 hn]
          rfl
      | false =>
          show _ = unitRows false p ln (parseLineProgram p.header p.dirs p.files
            (m.window ⟨c'.data, c1.end_⟩))
          rw [window_start4 hwithin hn hbetween]
          rfl

/-- A version that is not zero has been read. -/
lemma readU16_nonzero {c : ParseCursor} (hv : (Decoder.readU16 m c).value ≠ some 0) :
    (Decoder.readU16 m c).final = ⟨c.data + 2, c.end_⟩ := by
  rw [readU16_apply, takeRun] at hv ⊢
  split at hv
  · next hn =>
    rw [if_pos hn]
    rfl
  · exact absurd rfl hv

/-- A unit of a length over addresses and over the window: it is no unit that fits, or both
read the same version and skip it, or go on with it. -/
lemma unitOf_cases {len : BitVec 32} {c : ParseCursor} (hc : Within m c)
    (hclosed : ∀ t ∈ (unitOf m len c).trace, m.Closed t) :
    (len = 0xffffffff ∨ (m.window c).inside.length < len.toNat) ∧
        (unitOf m len c).value = none ∨
      ¬ (len = 0xffffffff ∨ (m.window c).inside.length < len.toNat) ∧
        ∃ version c', Cdbg.readU16.run ⟨(m.window c).inside.take len.toNat,
            (m.window c).inside.drop len.toNat ++ (m.window c).outside⟩ =
            some (version, m.window c') ∧
          Between c.data (c.data + BitVec.ofNat 64 len.toNat) c' ∧
          ((version ≠ 5 ∧ version ≠ 4) ∧ (unitOf m len c).value =
              some (.skip (c.data + BitVec.ofNat 64 len.toNat)) ∨
            ¬ (version ≠ 5 ∧ version ≠ 4) ∧ c.data < c'.data ∧
              (unitOf m len c).value = (readUnit m (version = 5) c').value ∧
              ∀ t ∈ (readUnit m (version = 5) c').trace, m.Closed t) := by
  have hfits := m.fits
  have htoNat := end_toNat m
  have hlen := len.isLt
  have hlength := window_length hc
  have hset : len.setWidth 64 = BitVec.ofNat 64 len.toNat := (BitVec.ofNat_toNat 64 len).symm
  obtain ⟨hstart, hle, hend⟩ := hc
  rw [unitOf] at hclosed ⊢
  -- the unit has no length that is understood, or a longer one than there is
  by_cases hlast : len = 0xffffffff
  · rw [if_pos hlast]
    exact Or.inl ⟨Or.inl hlast, rfl⟩
  · rw [if_neg hlast, Prog.get_bind, hset] at hclosed ⊢
    by_cases hlt : c.end_ < c.data + BitVec.ofNat 64 len.toNat
    · rw [if_pos hlt]
      exact Or.inl ⟨Or.inr (by rw [hlength]; bv_omega), rfl⟩
    · have hn : len.toNat ≤ (c.end_ - c.data).toNat := by bv_omega
      have hwindow := window_prologue ⟨hstart, hle, hend⟩ hn
      have hwithin := within_prologue ⟨hstart, hle, hend⟩ hn
      have hread := follows_readU16.run (moves_readU16 m) hwithin
      have hbetween := (spec_between (moves_cursor m (moves_readU16 m)) c.data
        (c.data + BitVec.ofNat 64 len.toNat) ⟨c.data, c.data + BitVec.ofNat 64 len.toNat⟩
        ⟨BitVec.le_refl _, hwithin.2.1, rfl⟩ fun _ _ => trivial).2
      have hpast := readU16_nonzero (m := m) (c := ⟨c.data, c.data + BitVec.ofNat 64 len.toNat⟩)
      rw [hwindow] at hread
      rw [if_neg hlt, modify_bind] at hclosed ⊢
      -- it fits, and the version is read with the end of the unit in place
      refine Or.inr ⟨?_, ?_⟩
      · rw [hlength, not_or]
        exact ⟨hlast, Nat.not_lt.mpr hn⟩
      · obtain ⟨version, hv⟩ := returns_readU16 m ⟨c.data, c.data + BitVec.ofNat 64 len.toNat⟩
        rcases hr : Decoder.readU16 m ⟨c.data, c.data + BitVec.ofNat 64 len.toNat⟩
          with ⟨v, c', t⟩
        rw [hr] at hread hbetween hpast hv
        obtain rfl : v = some version := hv
        rw [bind_of_eq hr] at hclosed ⊢
        refine ⟨version, c', hread, hbetween version rfl, ?_⟩
        by_cases hversion : version ≠ 5 ∧ version ≠ 4
        · rw [if_pos hversion]
          exact Or.inl ⟨hversion, rfl⟩
        · rw [if_neg hversion] at hclosed ⊢
          -- a version of 4 or 5 has been read, so the cursor stands behind it
          have hzero : (some version : Option (BitVec 16)) ≠ some 0 := by
            rintro ⟨⟩
            exact hversion (by decide)
          have hdata : c' = ⟨c.data + 2, c.data + BitVec.ofNat 64 len.toNat⟩ := hpast hzero
          have hle' := (hbetween version rfl).2.1
          refine Or.inr ⟨hversion, ?_, rfl, fun t ht => hclosed t (List.mem_append_right _ ht)⟩
          rw [hdata]
          show c.data < c.data + 2
          bv_omega

section Loop

variable {lineStr section_ : List Byte} {len : BitVec 32} {cursor : Cursor Byte}

lemma parseLineTableLoop_fail (n : ℕ) (ln : LineRows) (hne : section_ ≠ [])
    (h : Cdbg.readU32.run ⟨section_, []⟩ = some (len, cursor))
    (hfail : len = 0xffffffff ∨ cursor.inside.length < len.toNat) :
    parseLineTableLoop lineStr (n + 1) section_ ln = some (-1, ln) := by
  cases section_ with
  | nil => exact absurd rfl hne
  | cons b bs =>
      rw [parseLineTableLoop, h]
      by_cases hlast : len = 0xffffffff
      · exact if_pos hlast
      · exact (if_neg hlast).trans (if_pos (hfail.resolve_left hlast))

lemma parseLineTableLoop_unit {version : BitVec 16} {unit : Cursor Byte} (n : ℕ) (ln : LineRows)
    (hne : section_ ≠ []) (h : Cdbg.readU32.run ⟨section_, []⟩ = some (len, cursor))
    (hfit : ¬ (len = 0xffffffff ∨ cursor.inside.length < len.toNat))
    (hversion : Cdbg.readU16.run
      ⟨cursor.inside.take len.toNat, cursor.inside.drop len.toNat⟩ = some (version, unit)) :
    parseLineTableLoop lineStr (n + 1) section_ ln =
      if version ≠ 5 ∧ version ≠ 4 then
        parseLineTableLoop lineStr n (cursor.inside.drop len.toNat) ln
      else
        let r := parseUnit lineStr (version = 5)
          ⟨cursor.inside.take len.toNat, cursor.inside.drop len.toNat⟩ unit ln
        if r.1 ≠ 0 then some r
        else parseLineTableLoop lineStr n (cursor.inside.drop len.toNat) r.2 := by
  obtain ⟨hlast, hshort⟩ := not_or.mp hfit
  cases section_ with
  | nil => exact absurd rfl hne
  | cons b bs =>
      rw [parseLineTableLoop, h]
      refine (if_neg hlast).trans ((if_neg hshort).trans ?_)
      simp only [hversion]

end Loop

/-- The bytes of the section from an address on. -/
def rest (m : LineSections) (data : Addr) : List Byte :=
  m.bytesAt data (m.end_.toNat - data.toNat)

/-- The window on the rest of the section. -/
lemma window_rest (data : Addr) : m.window ⟨data, m.end_⟩ = ⟨m.rest data, []⟩ := by
  rw [window, Nat.sub_self, bytesAt_zero, rest]

/-- The window on the rest of the section behind a unit. -/
lemma drop_rest {data : Addr} {n : ℕ} (hle : data ≤ m.end_) (hn : n ≤ (m.end_ - data).toNat) :
    (m.rest data).drop n = m.rest (data + BitVec.ofNat 64 n) := by
  have hfits := m.fits
  have htoNat := end_toNat m
  have hleft : m.end_.toNat - data.toNat - n =
      m.end_.toNat - (data + BitVec.ofNat 64 n).toNat := by bv_omega
  rw [rest, drop_bytesAt, hleft, rest]

/-- The program of a unit, from the position behind its head on. -/
lemma run_unit {v5 : Bool} {p : Prologue} {unit : ParseCursor} (ln : LineRows)
    (hstart : m.start .line ≤ unit.end_) (hend : unit.end_ ≤ m.end_)
    (hordinary : ∀ k, m.Ordinary (m.next^[k] (behindHead ln (.program v5 p unit)))) :
    let r := unitRows v5 p ln (parseLineProgram p.header p.dirs p.files (m.window unit))
    ∃ j, m.next^[j] (behindHead ln (.program v5 p unit)) =
      if r.1 = 0 then .units unit.end_ r.2 else .returned r.1 r.2 := by
  have hlength : (m.window unit).inside.length = unit.end_.toNat - unit.data.toNat :=
    length_bytesAt _ _
  obtain ⟨j, hj⟩ := run_program p (m.window unit).inside.length .init unit _ hstart hend
    (by rw [hlength]) hordinary
  exact ⟨j, hj⟩

/-! ### The units of a section -/

/-- The run from a position returns the result, or it comes to the head of the loop, from where
the loop over `n` more units has the result. -/
def Answers (m : LineSections) (n : ℕ) (pos : LinePosition) (result : Option (ℤ × LineRows)) :
    Prop :=
  (∃ j rc ln, m.next^[j] pos = .returned rc ln ∧ result = some (rc, ln)) ∨
    ∃ j data ln, m.next^[j] pos = .units data ln ∧ m.start .line ≤ data ∧ data ≤ m.end_ ∧
      m.end_.toNat - data.toNat ≤ n ∧
      result = parseLineTableLoop m.lineStrBytes n (m.rest data) ln

lemma Answers.of_next {n : ℕ} {pos : LinePosition} {result : Option (ℤ × LineRows)}
    (h : m.Answers n (m.next pos) result) : m.Answers n pos result := by
  obtain ⟨j, rc, ln, hj, hresult⟩ | ⟨j, data, ln, hj, hrest⟩ := h
  · exact Or.inl ⟨j + 1, rc, ln, hj, hresult⟩
  · exact Or.inr ⟨j + 1, data, ln, hj, hrest⟩

/-- Behind the last byte of the section both return `0`. -/
lemma answers_end (n : ℕ) {data : Addr} (ln : LineRows) (h : ¬ data < m.end_) :
    m.next (.units data ln) = .returned 0 ln ∧
      parseLineTableLoop m.lineStrBytes n (m.rest data) ln = some (0, ln) := by
  refine ⟨?_, ?_⟩
  · rw [next, if_neg h]
  · rw [rest, bytesAt_of_le (BitVec.not_lt.mp h)]
    cases n <;> rw [parseLineTableLoop]

/-- The length at the head of a unit. -/
lemma read_length {data : Addr} (hstart : m.start .line ≤ data) (hle : data ≤ m.end_)
    (hlong : 4 ≤ (m.end_ - data).toNat) :
    ∃ len t, Decoder.readU32 m ⟨data, m.end_⟩ = ⟨some len, ⟨data + 4, m.end_⟩, t⟩ ∧
      Cdbg.readU32.run ⟨m.rest data, []⟩ = some (len, m.window ⟨data + 4, m.end_⟩) ∧
      Within m ⟨data + 4, m.end_⟩ := by
  have hfits := m.fits
  have htoNat := end_toNat m
  have hread := follows_readU32.run (moves_readU32 m) (c := ⟨data, m.end_⟩)
    ⟨hstart, hle, BitVec.le_refl _⟩
  obtain ⟨len, hv⟩ := returns_readU32 m ⟨data, m.end_⟩
  have hfinal := readU32_long (m := m) hlong
  rcases hr : Decoder.readU32 m ⟨data, m.end_⟩ with ⟨v, c, t⟩
  rw [hr] at hread hv hfinal
  obtain rfl : v = some len := hv
  obtain rfl : c = ⟨data + 4, m.end_⟩ := hfinal
  rw [window_rest] at hread
  refine ⟨len, t, rfl, hread, ?_, ?_, BitVec.le_refl _⟩
  · show m.start .line ≤ data + 4
    bv_omega
  · show data + 4 ≤ m.end_
    bv_omega

/-- A unit of version 4 or 5, from the position behind its head on. -/
lemma answers_readUnit {v5 : Bool} {w : Addr} {c : ParseCursor} (n : ℕ) (ln : LineRows)
    (hc : Within m c) (hw : w < c.data) (hn : m.end_.toNat - c.end_.toNat ≤ n)
    (hclosed : ∀ t ∈ (readUnit m v5 c).trace, m.Closed t) {pos : LinePosition}
    (hpos : pos = ((readUnit m v5 c).value.map (behindHead ln)).getD (.returned (-1) ln))
    (hordinary : ∀ k, m.Ordinary (m.next^[k] pos)) :
    let r := parseUnit m.lineStrBytes v5 (m.window ⟨w, c.end_⟩) (m.window c) ln
    m.Answers n pos (if r.1 ≠ 0 then some r
      else parseLineTableLoop m.lineStrBytes n (m.rest c.end_) r.2) := by
  have hstart : m.start .line ≤ c.end_ := BitVec.le_trans hc.1 hc.2.1
  obtain ⟨hnone, hparse⟩ | ⟨p, unit, hsome, hend, hparse⟩ := parseUnit_cases hc hw ln hclosed
  -- the head of the unit is cut off
  · rw [hnone] at hpos
    rw [hparse]
    exact Or.inl ⟨0, -1, ln, hpos, rfl⟩
  · rw [hsome] at hpos
    have hpos : pos = behindHead ln (.program v5 p unit) := hpos
    subst hpos
    obtain ⟨j, hj⟩ := run_unit ln (hend ▸ hstart) (hend ▸ hc.2.2) hordinary
    rw [hend] at hj
    simp only [hparse]
    by_cases hzero :
        (unitRows v5 p ln (parseLineProgram p.header p.dirs p.files (m.window unit))).1 = 0
    · rw [if_pos hzero] at hj
      rw [if_neg (not_not.mpr hzero)]
      exact Or.inr ⟨j, c.end_, _, hj, hstart, hc.2.2, hn, rfl⟩
    · rw [if_neg hzero] at hj
      rw [if_pos hzero]
      exact Or.inl ⟨j, _, _, hj, rfl⟩

/-- One round of the loop: the two parsers take the same unit. -/
lemma answers_units (n : ℕ) {data : Addr} (ln : LineRows) (hstart : m.start .line ≤ data)
    (hlt : data < m.end_) (hn : m.end_.toNat - data.toNat ≤ n + 1)
    (hordinary : ∀ k, m.Ordinary (m.next^[k] (.units data ln))) :
    m.Answers n (.units data ln)
      (parseLineTableLoop m.lineStrBytes (n + 1) (m.rest data) ln) := by
  have hfits := m.fits
  have htoNat := end_toNat m
  have hle : data ≤ m.end_ := BitVec.le_of_lt hlt
  have hlong : 4 ≤ (m.end_ - data).toNat := (hordinary 0).proceeds.resolve_left (by bv_omega)
  have hclosed := (hordinary 0).sound hlt
  have hnext := next_units (m := m) ln hlt
  have hne : m.rest data ≠ [] := by
    rw [rest, bytesAt_of_lt hlt]
    exact List.cons_ne_nil _ _
  obtain ⟨len, t, hr, hread, hwithin⟩ := read_length hstart hle hlong
  rw [unitHead, bind_of_eq hr] at hclosed hnext
  refine Answers.of_next ?_
  obtain ⟨hfail, hvalue⟩ | ⟨hfit, version, c, hversion, hbetween, hhead⟩ :=
    unitOf_cases hwithin fun t ht => hclosed t (List.mem_append_right _ ht)
  · rw [hvalue] at hnext
    exact Or.inl ⟨0, -1, ln, hnext, parseLineTableLoop_fail n ln hne hread hfail⟩
  -- the unit fits: its window ends where the next unit starts
  · have hlen : len.toNat ≤ (m.end_ - (data + 4)).toNat := by
      have hshort := (not_or.mp hfit).2
      rw [window_length hwithin] at hshort
      exact Nat.not_lt.mp hshort
    have hwhole := window_prologue hwithin hlen
    have hrest := drop_rest hwithin.2.1 hlen
    rw [window_rest, List.append_nil] at hversion hwhole
    rw [parseLineTableLoop_unit n ln hne hread hfit (by rwa [window_rest]), window_rest, ← hwhole,
      hrest]
    have hnextStart : m.start .line ≤ data + 4 + BitVec.ofNat 64 len.toNat := by bv_omega
    have hnextEnd : data + 4 + BitVec.ofNat 64 len.toNat ≤ m.end_ := by bv_omega
    have hleft : m.end_.toNat - (data + 4 + BitVec.ofNat 64 len.toNat).toNat ≤ n := by bv_omega
    obtain ⟨hother, hvalue⟩ | ⟨hversion, hpast, hvalue, hunitClosed⟩ := hhead
    · rw [hvalue] at hnext
      rw [if_pos hother]
      exact Or.inr ⟨0, _, ln, hnext, hnextStart, hnextEnd, hleft, rfl⟩
    · rw [if_neg hversion]
      obtain ⟨hd, hle', he⟩ := hbetween
      have hunit : Within m c :=
        ⟨BitVec.le_trans hwithin.1 hd, hle', by rw [he]; exact hnextEnd⟩
      have hanswers := answers_readUnit n ln hunit hpast (by rw [he]; exact hleft) hunitClosed
        (hvalue ▸ hnext) fun k => hordinary (k + 1)
      rwa [he] at hanswers

/-- The loop of `parse_line_table` over addresses returns what it returns over the section. -/
lemma run_units (n : ℕ) (data : Addr) (ln : LineRows) (hstart : m.start .line ≤ data)
    (hle : data ≤ m.end_) (hn : m.end_.toNat - data.toNat ≤ n)
    (hordinary : ∀ k, m.Ordinary (m.next^[k] (.units data ln))) :
    ∃ j rc ln', m.next^[j] (.units data ln) = .returned rc ln' ∧
      parseLineTableLoop m.lineStrBytes n (m.rest data) ln = some (rc, ln') := by
  induction n generalizing data ln with
  | zero =>
      have hlast : ¬ data < m.end_ := by bv_omega
      obtain ⟨hnext, hloop⟩ := answers_end 0 ln hlast
      exact ⟨1, 0, ln, hnext, hloop⟩
  | succ n ih =>
      by_cases hlt : data < m.end_
      · obtain h | ⟨j, data', ln', hj, hstart', hle', hn', hloop⟩ :=
          answers_units n ln hstart hlt hn hordinary
        · exact h
        · have hordinary' : ∀ k, m.Ordinary (m.next^[k] (.units data' ln')) := fun k => by
            rw [← hj, ← Function.iterate_add_apply]
            exact hordinary (k + j)
          obtain ⟨j', rc, ln'', hj', hagain⟩ := ih data' ln' hstart' hle' hn' hordinary'
          refine ⟨j' + j, rc, ln'', ?_, hloop.trans hagain⟩
          rw [Function.iterate_add_apply, hj]
          exact hj'
      · obtain ⟨hnext, hloop⟩ := answers_end (n + 1) ln hlt
        exact ⟨1, 0, ln, hnext, hloop⟩

/-- **The two parsers agree**: a run over addresses whose rounds are legal, move on and add no
length that wraps returns what `parseLineTable` says of the two sections. -/
theorem run_refines (m : LineSections) (ln : LineRows) (h : ∀ k, m.Ordinary (m.run ln k)) :
    ∃ k rc ln', m.run ln k = .returned rc ln' ∧
      parseLineTable ln m.lineBytes m.lineStrBytes = some (rc, ln') := by
  have hfits := m.fits
  have htoNat := end_toNat m
  have hsize : m.end_.toNat - (m.start .line).toNat = (m.size .line).toNat := by omega
  have hrun := run_units (m.size .line).toNat (m.start .line) ln (BitVec.le_refl _)
    (by bv_omega) (by omega) h
  rw [rest, hsize] at hrun
  rw [parseLineTable, lineBytes, length_bytesAt]
  exact hrun

end LineSections

end Cdbg
