import Cdbg.Source.Decoder

/-!
What the functions of `Decoder` do to their cursor, step by step.

From a cursor that has not passed its end, a function loads bytes before the end, moves on
without passing it, and copies C strings (`ReadStep`). Everything about where the cursor
gets to and what is touched on the way follows from the steps.
-/

namespace Cdbg

open Prog

namespace Decoder

/-- A step of a cursor: it loads a byte between its position and its end, or moves on by no
more bytes than are left. -/
inductive CursorStep : Prog.Step Touch ParseCursor
  | load (c : ParseCursor) (a : Addr) (h : c.data ≤ c.end_ → c.data ≤ a ∧ a < c.end_) :
      CursorStep c [.load .line a] c
  | advance (c : ParseCursor) (n : ℕ) (h : c.data ≤ c.end_ → n ≤ (c.end_ - c.data).toNat) :
      CursorStep c [] { c with data := c.data + BitVec.ofNat 64 n }

/-- A step of a function that reads a header. -/
inductive ReadStep (m : LineSections) : Prog.Step Touch ParseCursor
  | cursor {c c' : ParseCursor} {t : List Touch} (h : CursorStep c t c') : ReadStep m c t c'
  | copy (c : ParseCursor) (r : Region) (a : Addr) : ReadStep m c (copyCstr m r a c).trace c
  | first {c c' : ParseCursor} {t : List Touch} (h : Chain CursorStep c t c')
      (hlt : c.data < c.end_) : ReadStep m c (t ++ [.load .line c.data]) c'
  | length (c : ParseCursor) (i : ℕ) (h : i < 16) : ReadStep m c [.length i] c

/-! ### The functions that read from a cursor -/

lemma cursorOk_bind {α : Type} (n : ℕ) (f : Bool → Decoder α) (c : ParseCursor) :
    (cursorOk n >>= f) c = f (n ≤ (c.end_ - c.data).toNat) c := by
  have hok : cursorOk n c = ⟨some (n ≤ (c.end_ - c.data).toNat), c, []⟩ := rfl
  rw [bind_of_eq hok]
  rfl

lemma load_bind {α : Type} (m : LineSections) (r : Region) (a : Addr) (f : Byte → Decoder α)
    (c : ParseCursor) : (load m r a >>= f) c =
      ⟨(f (m.mem a) c).value, (f (m.mem a) c).final, .load r a :: (f (m.mem a) c).trace⟩ := rfl

lemma chain_loads {c : ParseCursor} : ∀ as : List Addr,
    (∀ a ∈ as, c.data ≤ c.end_ → c.data ≤ a ∧ a < c.end_) →
      Chain CursorStep c (as.map (Touch.load .line)) c
  | [], _ => Chain.refl c
  | a :: as, h =>
      Chain.step (CursorStep.load c a (h a List.mem_cons_self))
        (chain_loads as fun b hb => h b (List.mem_cons_of_mem a hb))

/-- The run of a function that reads `n` bytes if they are left, and else returns `b`. -/
def takeRun {α : Type} (n : ℕ) (a b : α) (c : ParseCursor) : Run Touch ParseCursor α :=
  if n ≤ (c.end_ - c.data).toNat then
    ⟨some a, { c with data := c.data + BitVec.ofNat 64 n },
      (List.range n).map fun i => .load .line (c.data + BitVec.ofNat 64 i)⟩
  else ⟨some b, c, []⟩

lemma moves_of_takeRun {α : Type} {p : Decoder α} (n : ℕ) (a : ParseCursor → α) (b : α)
    (hp : ∀ c, p c = takeRun n (a c) b c) : Moves CursorStep p := by
  intro c
  rw [MovesFrom, hp c, takeRun]
  split
  · next hn =>
    have hloads := chain_loads (c := c) ((List.range n).map fun i => c.data + BitVec.ofNat 64 i)
      (by
        intro x hx hle
        obtain ⟨i, hi, rfl⟩ := List.mem_map.mp hx
        have hi := List.mem_range.mp hi
        constructor <;> bv_omega)
    refine ⟨_, ?_, fun _ _ => rfl⟩
    simpa [Function.comp_def] using
      hloads.trans (Chain.single (CursorStep.advance c n fun _ => hn))
  · exact ⟨c, Chain.refl c, fun _ _ => rfl⟩

section Reads

variable (m : LineSections)

lemma readU8_apply (c : ParseCursor) : readU8 m c = takeRun 1 (m.mem c.data) 0 c := by
  rw [readU8, cursorOk_bind, takeRun]
  by_cases h : 1 ≤ (c.end_ - c.data).toNat
  · have hloads : (List.range 1).map (fun i => Touch.load .line (c.data + BitVec.ofNat 64 i)) =
        [.load .line c.data] := by simp
    simp only [h, decide_true, if_true, hloads]
    rfl
  · simp only [h, decide_false, if_false]
    rfl

lemma readU16_apply (c : ParseCursor) :
    readU16 m c = takeRun 2 (m.mem (c.data + 1) ++ m.mem c.data) 0 c := by
  rw [readU16, cursorOk_bind, takeRun]
  by_cases h : 2 ≤ (c.end_ - c.data).toNat
  · have hloads : (List.range 2).map (fun i => Touch.load .line (c.data + BitVec.ofNat 64 i)) =
        [.load .line c.data, .load .line (c.data + 1)] := by simp [List.range_succ]
    simp only [h, decide_true, if_true, hloads]
    rfl
  · simp only [h, decide_false, if_false]
    rfl

lemma readU32_apply (c : ParseCursor) :
    readU32 m c = takeRun 4 (m.mem (c.data + 3) ++ m.mem (c.data + 2) ++ m.mem (c.data + 1) ++
      m.mem c.data) 0 c := by
  rw [readU32, cursorOk_bind, takeRun]
  by_cases h : 4 ≤ (c.end_ - c.data).toNat
  · have hloads : (List.range 4).map (fun i => Touch.load .line (c.data + BitVec.ofNat 64 i)) =
        [.load .line c.data, .load .line (c.data + 1), .load .line (c.data + 2),
          .load .line (c.data + 3)] := by simp [List.range_succ]
    simp only [h, decide_true, if_true, hloads]
    rfl
  · simp only [h, decide_false, if_false]
    rfl

lemma moves_readU8 : Moves CursorStep (readU8 m) :=
  moves_of_takeRun 1 (fun c => m.mem c.data) 0 (readU8_apply m)

lemma moves_readU16 : Moves CursorStep (readU16 m) :=
  moves_of_takeRun 2 (fun c => m.mem (c.data + 1) ++ m.mem c.data) 0 (readU16_apply m)

lemma moves_readU32 : Moves CursorStep (readU32 m) :=
  moves_of_takeRun 4 (fun c => m.mem (c.data + 3) ++ m.mem (c.data + 2) ++
    m.mem (c.data + 1) ++ m.mem c.data) 0 (readU32_apply m)

lemma moves_readU64 : Moves CursorStep (readU64 m) := by
  have h := moves_readU8 m
  refine h.bind fun _ => h.bind fun _ => h.bind fun _ => h.bind fun _ => ?_
  exact h.bind fun _ => h.bind fun _ => h.bind fun _ => h.bind fun _ => Moves.pure _

lemma moves_lebLoop : ∀ (n shift : ℕ) (value : BitVec 64) (byte : Byte),
    Moves CursorStep (lebLoop m n shift value byte)
  | 0, _, _, _ => Moves.pure _
  | n + 1, _, _, _ =>
      (moves_readU8 m).bind fun _ => Moves.ite (Moves.pure _) (moves_lebLoop n _ _ _)

lemma moves_readUleb128 : Moves CursorStep (readUleb128 m) :=
  (moves_lebLoop m 10 0 0 0).bind fun _ => Moves.pure _

lemma moves_readSleb128 : Moves CursorStep (readSleb128 m) :=
  (moves_lebLoop m 10 0 0 0).bind fun _ => Moves.pure _

/-- Moving on by a byte before the end. -/
lemma movesFrom_advance_one {c : ParseCursor} (h : c.data < c.end_) :
    MovesFrom CursorStep c (advance 1) :=
  MovesFrom.single (CursorStep.advance c 1 fun _ => by bv_omega)

/-- Loading the byte at the position, before the end. -/
lemma movesFrom_load {c : ParseCursor} (h : c.data < c.end_) :
    MovesFrom CursorStep c (load m .line c.data) :=
  MovesFrom.single (CursorStep.load c c.data fun _ => ⟨BitVec.le_refl _, h⟩)

lemma moves_skipWhile (p : Byte → Bool) : ∀ n, Moves CursorStep (skipWhile m p n)
  | 0 => Moves.pure _
  | n + 1 => by
      refine Moves.get_bind fun c => ?_
      by_cases h : c.data < c.end_
      · rw [if_pos h]
        refine (movesFrom_load m h).bind fun b _ => MovesFrom.ite ?_ (MovesFrom.pure _ _)
        exact (movesFrom_advance_one h).bind fun _ _ => moves_skipWhile p n _
      · rw [if_neg h]
        exact MovesFrom.pure _ _

/-- What a round of the loop leaves to the next. -/
lemma skipWhile_succ (p : Byte → Bool) (n : ℕ) (c : ParseCursor) :
    skipWhile m p (n + 1) c = if c.data < c.end_ then
        if p (m.mem c.data) then
          ⟨(skipWhile m p n ⟨c.data + 1, c.end_⟩).value,
            (skipWhile m p n ⟨c.data + 1, c.end_⟩).final,
            .load .line c.data :: (skipWhile m p n ⟨c.data + 1, c.end_⟩).trace⟩
        else ⟨some (), c, [.load .line c.data]⟩
      else ⟨some (), c, []⟩ := by
  show (if c.data < c.end_ then _ else _ : Decoder Unit) c = _
  by_cases h : c.data < c.end_
  · rw [if_pos h, if_pos h, load_bind]
    by_cases hp : p (m.mem c.data)
    · rw [if_pos hp, if_pos hp]
      rfl
    · rw [if_neg hp, if_neg hp]
      rfl
  · rw [if_neg h, if_neg h]
    rfl

lemma skipWhile_value (p : Byte → Bool) : ∀ (n : ℕ) (c : ParseCursor),
    (skipWhile m p n c).value = some ()
  | 0, _ => rfl
  | n + 1, c => by
      rw [skipWhile_succ]
      split
      · split
        · exact skipWhile_value p n _
        · rfl
      · rfl

/-- `read_cstr` returns where it starts. -/
lemma readCstr_value (c : ParseCursor) : (readCstr m c).value = some c.data := by
  have hskip := skipWhile_value m (· ≠ 0) (c.end_ - c.data).toNat c
  rcases h : skipWhile m (· ≠ 0) (c.end_ - c.data).toNat c with ⟨v, c', t⟩
  rw [h] at hskip
  obtain rfl : v = some () := hskip
  rw [readCstr, Prog.get_bind, bind_of_eq h, Prog.get_bind]
  by_cases hlt : c'.data < c'.end_
  · rw [if_pos hlt]
    rfl
  · rw [if_neg hlt]
    rfl

lemma moves_readCstr : Moves CursorStep (readCstr m) := by
  refine Moves.get_bind' fun start => (moves_skipWhile m _ _).bind fun _ => ?_
  refine Moves.get_bind fun c => ?_
  by_cases h : c.data < c.end_
  · rw [if_pos h]
    exact (movesFrom_advance_one h).bind fun _ _ => MovesFrom.pure _ _
  · rw [if_neg h]
    exact MovesFrom.pure _ _

lemma moves_skipPaddingZeros : Moves CursorStep (skipPaddingZeros m) :=
  Moves.get_bind' fun _ => moves_skipWhile m _ _

lemma moves_skipData16 : Moves CursorStep skipData16 := by
  intro c
  rw [MovesFrom, skipData16, cursorOk_bind]
  by_cases h : 16 ≤ (c.end_ - c.data).toNat
  · simp only [h, decide_true, if_true]
    exact MovesFrom.single (CursorStep.advance c 16 fun _ => h)
  · simp only [h, decide_false]
    exact Moves.hang c

end Reads

/-! ### The functions that read a header -/

section Header

variable (m : LineSections)

lemma moves_cursor {α : Type} {p : Decoder α} (h : Moves CursorStep p) : Moves (ReadStep m) p :=
  h.mono fun _ _ _ => ReadStep.cursor

lemma copyLoop_final (r : Region) : ∀ (n : ℕ) (a : Addr) (c : ParseCursor),
    (copyLoop m r n a c).final = c
  | 0, _, _ => rfl
  | n + 1, a, c => by
      rw [copyLoop, load_bind]
      by_cases h : m.mem a = 0
      · rw [if_pos h]
        rfl
      · rw [if_neg h]
        show ((copyLoop m r n (a + 1) >>= fun s => pure (charOf (m.mem a) :: s)) c).final = c
        rw [bind_pure_comp, map_apply]
        exact copyLoop_final r n (a + 1) c

/-- Copying a string leaves the cursor alone. -/
lemma copyCstr_final (r : Region) (a : Addr) (c : ParseCursor) :
    (copyCstr m r a c).final = c :=
  copyLoop_final m r (2 ^ 64) a c

lemma moves_copyCstr (r : Region) (a : Addr) : Moves (ReadStep m) (copyCstr m r a) := fun c =>
  ⟨c, Chain.single (ReadStep.copy c r a), fun _ _ => (copyCstr_final m r a c).symm⟩

lemma moves_lookupLineStr (offset : BitVec 64) : Moves (ReadStep m) (lookupLineStr m offset) :=
  Moves.ite (Moves.pure _) (moves_copyCstr m _ _)

lemma moves_readFormatDescriptors : Moves (ReadStep m) (readFormatDescriptors m) := by
  have huleb := moves_readUleb128 m
  refine moves_cursor m ((moves_readU8 m).bind fun _ => Moves.times ?_ _)
  exact huleb.bind fun _ => huleb.bind fun _ => Moves.pure _

lemma moves_cursorOk (n : ℕ) : Moves (ReadStep m) (cursorOk n) :=
  Moves.get_bind' fun _ => Moves.pure _

lemma moves_readFormString (form : BitVec 64) : Moves (ReadStep m) (readFormString m form) := by
  have huleb := moves_cursor m (moves_readUleb128 m)
  have hcstr := moves_cursor m (moves_readCstr m)
  refine Moves.ite ?_ (Moves.ite ?_ Moves.hang)
  · refine (moves_cursorOk m 1).bind fun ok => Moves.ite ?_ Moves.hang
    exact huleb.bind fun offset => (moves_lookupLineStr m offset).bind fun _ => Moves.pure _
  · exact hcstr.bind fun a => (moves_copyCstr m _ a).bind fun _ => Moves.pure _

lemma moves_skipFormValue (form : BitVec 64) : Moves (ReadStep m) (skipFormValue m form) := by
  have huleb := (moves_readUleb128 m).bind fun _ => Moves.pure ()
  have hcstr := (moves_readCstr m).bind fun _ => Moves.pure ()
  refine moves_cursor m (Moves.ite huleb (Moves.ite moves_skipData16 ?_))
  exact Moves.ite hcstr (Moves.ite huleb Moves.hang)

lemma moves_readDirField (path : Str) (desc : FormatDesc) :
    Moves (ReadStep m) (readDirField m path desc) :=
  Moves.ite (moves_readFormString m _)
    ((moves_skipFormValue m _).bind fun _ => Moves.pure _)

lemma moves_parseV5Directories : Moves (ReadStep m) (parseV5Directories m) := by
  have hfields := Moves.foldlM (moves_readDirField m)
  have hpadding := moves_cursor m (moves_skipPaddingZeros m)
  refine (moves_readFormatDescriptors m).bind fun descs => Moves.ite (Moves.pure _) ?_
  refine (moves_cursor m (moves_readUleb128 m)).bind fun count => ?_
  exact (Moves.times (hfields descs []) _).bind fun _ => hpadding.bind fun _ => Moves.pure _

lemma moves_readFileField (file : Str × BitVec 64) (desc : FormatDesc) :
    Moves (ReadStep m) (readFileField m file desc) := by
  have huleb := moves_cursor m (moves_readUleb128 m)
  have hdata16 := moves_cursor m moves_skipData16
  refine Moves.ite ((moves_readFormString m _).bind fun _ => Moves.pure _) ?_
  refine Moves.ite (huleb.bind fun _ => Moves.pure _) ?_
  refine Moves.ite (hdata16.bind fun _ => Moves.pure _) ?_
  exact (moves_skipFormValue m _).bind fun _ => Moves.pure _

lemma moves_parseV5FileNames : Moves (ReadStep m) (parseV5FileNames m) := by
  have hfields := Moves.foldlM (moves_readFileField m)
  refine (moves_readFormatDescriptors m).bind fun descs => Moves.ite (Moves.pure _) ?_
  refine (moves_cursor m (moves_readUleb128 m)).bind fun count => ?_
  exact Moves.times (hfields descs ([], 0)) _

lemma readCstrFirst_apply (c : ParseCursor) : readCstrFirst m c =
    ⟨some (c.data, m.mem c.data), (readCstr m c).final,
      (readCstr m c).trace ++ [.load .line c.data]⟩ := by
  have hv := readCstr_value m c
  rcases hr : readCstr m c with ⟨v, c', t⟩
  rw [hr] at hv
  obtain rfl : v = some c.data := hv
  rw [readCstrFirst, bind_of_eq hr]
  rfl

lemma movesFrom_readCstrFirst {c : ParseCursor} (h : c.data < c.end_) :
    MovesFrom (ReadStep m) c (readCstrFirst m) := by
  obtain ⟨c', hchain, hc'⟩ := moves_readCstr m c
  obtain rfl := hc' c.data (readCstr_value m c)
  rw [MovesFrom, readCstrFirst_apply]
  exact ⟨_, Chain.single (ReadStep.first hchain h), fun _ _ => rfl⟩

lemma moves_parseDirsV4 : ∀ n, Moves (ReadStep m) (parseDirsV4 m n)
  | 0 => Moves.pure _
  | n + 1 => by
      refine Moves.get_bind fun c => ?_
      by_cases h : c.data < c.end_
      · rw [if_pos h]
        refine (movesFrom_readCstrFirst m h).bind fun first _ => ?_
        refine MovesFrom.ite (MovesFrom.pure _ _) (Moves.from ?_ _)
        exact (moves_copyCstr m _ _).bind fun _ =>
          (moves_parseDirsV4 n).bind fun _ => Moves.pure _
      · rw [if_neg h]
        exact MovesFrom.pure _ _

lemma moves_fileNamesV4Loop : ∀ n, Moves (ReadStep m) (fileNamesV4Loop m n)
  | 0 => Moves.pure _
  | n + 1 => by
      refine Moves.get_bind fun c => ?_
      by_cases h : c.data < c.end_
      · rw [if_pos h]
        refine (movesFrom_readCstrFirst m h).bind fun first _ => ?_
        refine MovesFrom.ite (MovesFrom.pure _ _) (Moves.from ?_ _)
        refine (moves_cursor m (moves_readUleb128 m)).bind fun _ => ?_
        refine (moves_cursor m moves_skipData16).bind fun _ => ?_
        exact (moves_copyCstr m _ _).bind fun _ =>
          (moves_fileNamesV4Loop n).bind fun _ => Moves.pure _
      · rw [if_neg h]
        exact MovesFrom.pure _ _

lemma moves_parseFileNamesV4 : Moves (ReadStep m) (parseFileNamesV4 m) :=
  Moves.get_bind' fun _ => moves_fileNamesV4Loop m _

lemma moves_readTables (v5 : Bool) (header : LineHeader) :
    Moves (ReadStep m) (readTables m v5 header) := by
  refine Moves.ite ?_ ?_
  · exact (moves_parseV5Directories m).bind fun _ =>
      (moves_parseV5FileNames m).bind fun _ => Moves.pure _
  · exact Moves.get_bind' fun _ => (moves_parseDirsV4 m _).bind fun _ =>
      (moves_parseFileNamesV4 m).bind fun _ => Moves.pure _

lemma moves_lengthsLoop : ∀ n i, n + i ≤ 16 → Moves (ReadStep m) (lengthsLoop m n i)
  | 0, _, _ => Moves.pure _
  | n + 1, i, h => by
      have htouch : Moves (ReadStep m) (touch (.length i)) := fun c =>
        MovesFrom.single (ReadStep.length c i (by omega))
      have hrest := moves_lengthsLoop n (i + 1) (by omega)
      exact htouch.bind fun _ => (moves_cursor m (moves_readU8 m)).bind fun _ =>
        hrest.bind fun _ => Moves.pure _

lemma moves_readPrologue (v5 : Bool) (addressSize : Byte) :
    Moves (ReadStep m) (readPrologue m v5 addressSize) := by
  have hu8 := moves_cursor m (moves_readU8 m)
  have hmaxOps : Moves (ReadStep m) (readMaxOps m v5) := Moves.ite hu8 (Moves.pure _)
  refine hu8.bind fun _ => hmaxOps.bind fun _ => hu8.bind fun _ => hu8.bind fun _ => ?_
  refine hu8.bind fun _ => hu8.bind fun opcodeBase => ?_
  exact (moves_lengthsLoop m _ 1 (by omega)).bind fun _ => moves_readTables m _ _

lemma moves_readUnitFields (v5 : Bool) : Moves (ReadStep m) (readUnitFields m v5) := by
  have hu8 := moves_readU8 m
  have hu32 := moves_readU32 m
  refine moves_cursor m (Moves.ite ?_ (hu32.bind fun _ => Moves.pure _))
  exact hu8.bind fun _ => hu8.bind fun _ => hu32.bind fun _ => Moves.pure _

end Header

/-! ### Where a cursor gets to -/

/-- The cursor stands between a place and its end. -/
def Between (d e : Addr) (c : ParseCursor) : Prop := d ≤ c.data ∧ c.data ≤ c.end_ ∧ c.end_ = e

lemma CursorStep.between {c c' : ParseCursor} {t : List Touch} {d e : Addr}
    (h : CursorStep c t c') (hc : Between d e c) : Between d e c' := by
  obtain ⟨hd, hle, he⟩ := hc
  cases h with
  | load => exact ⟨hd, hle, he⟩
  | advance _ n hn =>
      have hn := hn hle
      refine ⟨?_, ?_, he⟩
      · show d ≤ c.data + BitVec.ofNat 64 n
        bv_omega
      · show c.data + BitVec.ofNat 64 n ≤ c.end_
        bv_omega

lemma between_of_chain {c c' : ParseCursor} {t : List Touch} {d e : Addr}
    (h : Chain CursorStep c t c') (hc : Between d e c) : Between d e c' := by
  induction h with
  | refl _ => exact hc
  | step hs _ ih => exact ih (hs.between hc)

lemma ReadStep.between {m : LineSections} {c c' : ParseCursor} {t : List Touch} {d e : Addr}
    (h : ReadStep m c t c') (hc : Between d e c) : Between d e c' := by
  cases h with
  | cursor h => exact h.between hc
  | copy => exact hc
  | first h _ => exact between_of_chain h hc
  | length => exact hc

/-- What moves by such steps keeps the cursor between where it is and its end. -/
lemma spec_between {m : LineSections} {α : Type} {p : Decoder α} (h : Moves (ReadStep m) p)
    (d e : Addr) :
    Spec (fun _ => True) (fun _ => True) (Between d e) p fun _ => Between d e :=
  h.spec fun _ _ _ hs hc _ => ⟨hs.between hc, fun _ _ => trivial⟩

/-! ### The rounds suffice

A loop that is given as many rounds as bytes are left ends by its own condition: one more
round changes nothing. -/

section Rounds

variable (m : LineSections)

lemma skipWhile_enough (p : Byte → Bool) : ∀ (n : ℕ) (c : ParseCursor), c.data ≤ c.end_ →
    (c.end_ - c.data).toNat ≤ n → skipWhile m p (n + 1) c = skipWhile m p n c
  | 0, c, hc, hn => by
      have hlast : ¬ c.data < c.end_ := by bv_omega
      rw [skipWhile_succ, if_neg hlast]
      rfl
  | n + 1, c, hc, hn => by
      rw [skipWhile_succ m p (n + 1) c, skipWhile_succ m p n c]
      by_cases h : c.data < c.end_
      · have hnext : c.data + 1 ≤ c.end_ := by bv_omega
        have hleft : (c.end_ - (c.data + 1)).toNat ≤ n := by bv_omega
        rw [skipWhile_enough p n ⟨c.data + 1, c.end_⟩ hnext hleft]
      · rw [if_neg h, if_neg h]

/-- `read_cstr` takes at least a byte, if there is one. -/
lemma readCstr_past {c : ParseCursor} (h : c.data < c.end_) :
    Between (c.data + 1) c.end_ (readCstr m c).final := by
  have hskip := (spec_between (moves_cursor m (moves_skipWhile m (· ≠ 0)
    (c.end_ - c.data).toNat)) c.data c.end_ c ⟨BitVec.le_refl _, by bv_omega, rfl⟩
    fun _ _ => trivial).2 () (skipWhile_value m _ _ _)
  have hv := skipWhile_value m (· ≠ 0) (c.end_ - c.data).toNat c
  rcases hr : skipWhile m (· ≠ 0) (c.end_ - c.data).toNat c with ⟨v, c', t⟩
  rw [hr] at hskip hv
  obtain rfl : v = some () := hv
  obtain ⟨hd, hle, he⟩ : Between c.data c.end_ c' := hskip
  rw [readCstr, Prog.get_bind, bind_of_eq hr, Prog.get_bind]
  by_cases hlt : c'.data < c'.end_
  · rw [if_pos hlt]
    refine ⟨?_, ?_, he⟩
    · show c.data + 1 ≤ c'.data + 1
      bv_omega
    · show c'.data + 1 ≤ c'.end_
      bv_omega
  · rw [if_neg hlt]
    refine ⟨?_, hle, he⟩
    show c.data + 1 ≤ c'.data
    bv_omega

lemma left_of_past {n : ℕ} {c c' : ParseCursor} (h : c.data < c.end_)
    (hpast : Between (c.data + 1) c.end_ c') (hn : (c.end_ - c.data).toNat ≤ n + 1) :
    (c'.end_ - c'.data).toNat ≤ n := by
  obtain ⟨hd, hle, he⟩ := hpast
  bv_omega

lemma parseDirsV4_succ (n : ℕ) (c : ParseCursor) :
    parseDirsV4 m (n + 1) c = if c.data < c.end_ then
        (do
          let (dir, first) ← readCstrFirst m
          if first = 0 then
            return []
          let copy ← copyCstr m .line dir
          let dirs ← parseDirsV4 m n
          return copy :: dirs : Decoder (List Str)) c
      else ⟨some [], c, []⟩ := by
  show (if c.data < c.end_ then _ else _ : Decoder (List Str)) c = _
  split <;> rfl

lemma parseDirsV4_enough : ∀ (n : ℕ) (c : ParseCursor), c.data ≤ c.end_ →
    (c.end_ - c.data).toNat ≤ n → parseDirsV4 m (n + 1) c = parseDirsV4 m n c
  | 0, c, hc, hn => by
      have hlast : ¬ c.data < c.end_ := by bv_omega
      rw [parseDirsV4_succ, if_neg hlast]
      rfl
  | n + 1, c, hc, hn => by
      rw [parseDirsV4_succ m (n + 1) c, parseDirsV4_succ m n c]
      by_cases h : c.data < c.end_
      · rw [if_pos h, if_pos h]
        refine bind_congr_at fun x _ => ?_
        rw [readCstrFirst_apply]
        have hpast := readCstr_past m h
        by_cases hx : x.2 = 0
        · simp only [if_pos hx]
        · simp only [if_neg hx]
          refine bind_congr_at fun copy _ => ?_
          rw [copyCstr_final]
          rw [bind_pure_comp, bind_pure_comp, map_apply, map_apply,
            parseDirsV4_enough n _ hpast.2.1 (left_of_past h hpast hn)]
      · rw [if_neg h, if_neg h]

lemma fileNamesV4Loop_succ (n : ℕ) (c : ParseCursor) :
    fileNamesV4Loop m (n + 1) c = if c.data < c.end_ then
        (do
          let (name, first) ← readCstrFirst m
          if first = 0 then
            return []
          let dirIndex ← readUleb128 m
          skipData16
          let copy ← copyCstr m .line name
          let files ← fileNamesV4Loop m n
          return (copy, dirIndex) :: files : Decoder FileTable) c
      else ⟨some [], c, []⟩ := by
  show (if c.data < c.end_ then _ else _ : Decoder FileTable) c = _
  split <;> rfl

lemma fileNamesV4Loop_enough : ∀ (n : ℕ) (c : ParseCursor), c.data ≤ c.end_ →
    (c.end_ - c.data).toNat ≤ n → fileNamesV4Loop m (n + 1) c = fileNamesV4Loop m n c
  | 0, c, hc, hn => by
      have hlast : ¬ c.data < c.end_ := by bv_omega
      rw [fileNamesV4Loop_succ, if_neg hlast]
      rfl
  | n + 1, c, hc, hn => by
      rw [fileNamesV4Loop_succ m (n + 1) c, fileNamesV4Loop_succ m n c]
      by_cases h : c.data < c.end_
      · rw [if_pos h, if_pos h]
        refine bind_congr_at fun x _ => ?_
        rw [readCstrFirst_apply]
        have hpast := readCstr_past m h
        by_cases hx : x.2 = 0
        · simp only [if_pos hx]
        · simp only [if_neg hx]
          refine bind_congr_at fun dirIndex hindex => ?_
          have huleb := (spec_between (moves_cursor m (moves_readUleb128 m)) (c.data + 1) c.end_
            _ hpast fun _ _ => trivial).2 dirIndex hindex
          refine bind_congr_at fun _ hskip => ?_
          have hdata16 := (spec_between (moves_cursor m moves_skipData16) (c.data + 1) c.end_
            _ huleb fun _ _ => trivial).2 () hskip
          refine bind_congr_at fun copy _ => ?_
          rw [copyCstr_final]
          rw [bind_pure_comp, bind_pure_comp, map_apply, map_apply,
            fileNamesV4Loop_enough n _ hdata16.2.1 (left_of_past h hdata16 hn)]
      · rw [if_neg h, if_neg h]

end Rounds

end Decoder

end Cdbg
