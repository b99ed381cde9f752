import Cdbg.Lib.Numeral
import Cdbg.Machine.Calls
import Cdbg.Repl.Repl

/-!
The names of registers.

A name is read as a register of the list `RegName`, whose general-purpose and vector
registers are numbered. The number is left to `strtol`, which takes more spellings than the
plain one, and what it does with an empty text looks like a zero. So the names that are
accepted beside the proper ones are those with such a text behind the letter (`Sloppy`).
-/

namespace Cdbg

open CString

variable {σ : Type}

/-- The registers by name. -/
inductive RegName
  | pc
  | sp
  | fp
  | lr
  | cpsr
  | fpsr
  | fpcr
  | x (i : Fin 31)
  | v (i : Fin 32)

namespace RegName

/-- The name, numbers in plain decimal. -/
def text : RegName → Str
  | pc => "pc".toList
  | sp => "sp".toList
  | fp => "fp".toList
  | lr => "lr".toList
  | cpsr => "cpsr".toList
  | fpsr => "fpsr".toList
  | fpcr => "fpcr".toList
  | x i => 'x' :: Nat.toDigits 10 i
  | v i => 'v' :: Nat.toDigits 10 i

/-- What the register holds; `x29` and `x30` are the frame pointer and the link register. -/
def read (r : Regs) : RegName → BitVec 64
  | pc => r.native.pc
  | sp => r.native.sp
  | fp => r.native.fp
  | lr => r.native.lr
  | cpsr => r.native.cpsr.setWidth 64
  | fpsr => r.neon.fpsr.setWidth 64
  | fpcr => r.neon.fpcr.setWidth 64
  | x i =>
      if h : i.val < 29 then r.native.x ⟨i, h⟩
      else if i.val = 29 then r.native.fp
      else r.native.lr
  | v i => (r.neon.v i).setWidth 64

/-- The registers with this one changed. -/
def write (r : Regs) (value : BitVec 64) : RegName → Regs
  | pc => { r with native := { r.native with pc := value } }
  | sp => { r with native := { r.native with sp := value } }
  | fp => { r with native := { r.native with fp := value } }
  | lr => { r with native := { r.native with lr := value } }
  | cpsr => { r with native := { r.native with cpsr := value.setWidth 32 } }
  | fpsr => { r with neon := { r.neon with fpsr := value.setWidth 32 } }
  | fpcr => { r with neon := { r.neon with fpcr := value.setWidth 32 } }
  | x i =>
      if i.val < 29 then
        { r with native :=
          { r.native with x := fun j => if j.val = i.val then value else r.native.x j } }
      else if i.val = 29 then { r with native := { r.native with fp := value } }
      else { r with native := { r.native with lr := value } }
  | v i =>
      { r with neon :=
        { r.neon with v := fun j => if j = i then value.setWidth 128 else r.neon.v j } }

end RegName

/-- A text that is read as an index up to a bound, but not its plain decimal. -/
def LooseIndex (bound : ℕ) (t : Str) : Prop :=
  t = [] ∨ ∃ i ≤ bound, t ≠ Nat.toDigits 10 i ∧ ∃ sign, Spells sign i t ∧ (sign = some true → i = 0)

/-- A letter with such a text behind it. -/
def Sloppy (name : Str) : Prop :=
  ∃ t, name = 'x' :: t ∧ LooseIndex 28 t ∨ name = 'v' :: t ∧ LooseIndex 31 t

/-- A name is taken for the register it names, and for nothing if it names none. -/
structure World.Honours (w : World σ) (name : Str) : Prop where
  read : ∀ r : RegName, r.text = name →
    w.dbg.regs.getByName name = some (r.read w.dbg.regs)
  write : ∀ r : RegName, r.text = name → ∀ value : BitVec 64,
    (regsSetByName name value w).final.dbg.regs = r.write w.dbg.regs value
  unread : (∀ r : RegName, r.text ≠ name) → w.dbg.regs.getByName name = none
  unwritten : (∀ r : RegName, r.text ≠ name) → ∀ value : BitVec 64,
    regsSetByName name value w = ⟨some (-1), w, []⟩

/-! ### Indices -/

lemma registerIndex_of_spells {sign : Option Bool} {i : ℕ} {t : Str} (h : Spells sign i t)
    (hi : i < 2 ^ 63) : registerIndex t = some (if sign = some true then -(i : ℤ) else i) := by
  rw [registerIndex, strtoll, scanNumber_of_spells h]
  rcases sign with _ | _ | _
  · simp only [Option.getD_none, Bool.false_eq_true, if_false, reduceCtorEq]
    rw [min_eq_left (by omega)]
  · simp only [Option.getD_some, Bool.false_eq_true, if_false, Option.some.injEq]
    rw [min_eq_left (by omega)]
  · simp only [Option.getD_some, if_true]
    rw [max_eq_left (by omega)]

lemma registerIndex_toDigits {i : ℕ} (hi : i < 2 ^ 63) :
    registerIndex (Nat.toDigits 10 i) = some (i : ℤ) := by
  rw [registerIndex_of_spells (spells_toDigits i) hi]
  rfl

lemma registerIndex_of_loose {bound : ℕ} (hb : bound < 2 ^ 63) {t : Str} (h : LooseIndex bound t) :
    ∃ i ≤ bound, registerIndex t = some (i : ℤ) ∧ t ≠ Nat.toDigits 10 i := by
  rcases h with rfl | ⟨i, hi, hne, sign, hs, hminus⟩
  · exact ⟨0, Nat.zero_le _, rfl, Nat.toDigits_ne_nil.symm⟩
  · refine ⟨i, hi, ?_, hne⟩
    rw [registerIndex_of_spells hs (by omega)]
    split
    next hsign =>
      rw [hminus hsign]
      rfl
    next => rfl

/-- An index within the bound is spelled plainly or loosely. -/
lemma loose_of_registerIndex {bound : ℕ} (hb : bound < 2 ^ 63 - 1) {t : Str} {i : ℤ}
    (h : registerIndex t = some i) (h0 : 0 ≤ i) (hi : i ≤ bound) :
    LooseIndex bound t ∨ t = Nat.toDigits 10 i.toNat := by
  by_cases hnil : t = []
  · exact .inl (.inl hnil)
  rw [registerIndex, strtoll] at h
  cases hscan : scanNumber 10 t with
  | none => simp [hscan, hnil] at h
  | some r =>
      obtain ⟨neg, n, rest⟩ := r
      rw [hscan] at h
      cases rest with
      | cons c rest => simp at h
      | nil =>
          obtain ⟨sign, hs, hneg⟩ := spells_of_scanNumber hscan
          have hval : i = if neg then max (-(n : ℤ)) (-2 ^ 63) else min (n : ℤ) (2 ^ 63 - 1) :=
            (Option.some.inj h).symm
          have hn : i.toNat = n ∧ (neg = true → n = 0) := by
            cases neg with
            | false =>
                simp only [Bool.false_eq_true, if_false] at hval
                exact ⟨by omega, nofun⟩
            | true =>
                simp only [if_true] at hval
                exact ⟨by omega, fun _ => by omega⟩
          obtain ⟨rfl, hzero⟩ := hn
          by_cases hplain : t = Nat.toDigits 10 i.toNat
          · exact .inr hplain
          · refine .inl (.inr ⟨i.toNat, by omega, hplain, sign, hs, ?_⟩)
            rintro rfl
            exact hzero hneg.symm

/-! ### Names -/

namespace RegName

/-- The first letter of the numbered registers, and the texts of the others. -/
lemma text_cons {r : RegName} {c : Char} {t : Str} (h : r.text = c :: t) :
    (c = 'x' → ∃ i, r = x i ∧ t = Nat.toDigits 10 i.val) ∧
      (c = 'v' → ∃ i, r = v i ∧ t = Nat.toDigits 10 i.val) := by
  cases r with
  | x i =>
      obtain ⟨rfl, rfl⟩ := List.cons.inj h
      exact ⟨fun _ => ⟨i, rfl, rfl⟩, fun h => absurd h (by decide)⟩
  | v i =>
      obtain ⟨rfl, rfl⟩ := List.cons.inj h
      exact ⟨fun h => absurd h (by decide), fun _ => ⟨i, rfl, rfl⟩⟩
  | _ =>
      obtain ⟨rfl, -⟩ := List.cons.inj h
      exact ⟨fun h => absurd h (by decide), fun h => absurd h (by decide)⟩

end RegName

lemma toNat_lt_29 {i : ℤ} (h : 0 ≤ i ∧ i ≤ 28) : i.toNat < 29 := by omega

lemma getByName_x (r : Regs) (t : Str) : r.getByName ('x' :: t) =
    if t = Nat.toDigits 10 29 then some r.native.fp
    else if t = Nat.toDigits 10 30 then some r.native.lr
    else match registerIndex t with
      | some i => if h : 0 ≤ i ∧ i ≤ 28 then some (r.native.x ⟨i.toNat, toNat_lt_29 h⟩) else none
      | none => none := by
  have h29 : Nat.toDigits 10 29 = ['2', '9'] := by decide
  have h30 : Nat.toDigits 10 30 = ['3', '0'] := by decide
  cases h : registerIndex t <;> simp [Regs.getByName, h29, h30, h]

lemma toNat_lt_32 {i : ℤ} (h : 0 ≤ i ∧ i ≤ 31) : i.toNat < 32 := by omega

lemma getByName_v (r : Regs) (t : Str) : r.getByName ('v' :: t) =
    match registerIndex t with
      | some i =>
          if h : 0 ≤ i ∧ i ≤ 31 then
            some ((r.neon.v ⟨i.toNat, toNat_lt_32 h⟩).setWidth 64)
          else none
      | none => none := by
  cases h : registerIndex t <;> simp [Regs.getByName, h]

lemma setGprField_x (r : NativeRegs) (t : Str) (value : BitVec 64) :
    setGprField r ('x' :: t) value =
    if t = Nat.toDigits 10 29 then some { r with fp := value }
    else if t = Nat.toDigits 10 30 then some { r with lr := value }
    else match registerIndex t with
      | some i =>
          if 0 ≤ i ∧ i ≤ 28 then
            some { r with x := fun j => if (j.val : ℤ) = i then value else r.x j }
          else none
      | none => none := by
  have h29 : Nat.toDigits 10 29 = ['2', '9'] := by decide
  have h30 : Nat.toDigits 10 30 = ['3', '0'] := by decide
  cases h : registerIndex t <;> simp [setGprField, h29, h30, h]

lemma setGprField_v (r : NativeRegs) (t : Str) (value : BitVec 64) :
    setGprField r ('v' :: t) value = none := by
  simp [setGprField]

lemma setFpField_v (r : NeonRegs) (t : Str) (value : BitVec 64) :
    setFpField r ('v' :: t) value =
    match registerIndex t with
      | some i =>
          if 0 ≤ i ∧ i ≤ 31 then
            some { r with v := fun j => if (j.val : ℤ) = i then value.setWidth 128 else r.v j }
          else none
      | none => none := by
  cases h : registerIndex t <;> simp [setFpField, h]

lemma setFpField_x (r : NeonRegs) (t : Str) (value : BitVec 64) :
    setFpField r ('x' :: t) value = none := by
  simp [setFpField]

/-- The registers that `cdbg_regs_set_by_name` sends back to the thread. -/
def Regs.setByName (r : Regs) (name : Str) (value : BitVec 64) : Option Regs :=
  match setGprField r.native name value with
  | some native => some { r with native := native }
  | none => (setFpField r.neon name value).map fun neon => { r with neon := neon }

/-! ### The calls -/

lemma storeRegs_dbg (w : World σ) : (storeRegs w).final.dbg = w.dbg := by
  cases h : w.resolvePort w.dbg.pid w.dbg.currentTid with
  | none => simp [storeRegs, regsSet, h]
  | some t => simp [storeRegs, regsSet, h, updateThread, modifyProc]

lemma regsSetFp_dbg (pid : ℕ) (tid : Tid) (regs : Regs) (w : World σ) :
    (regsSetFp pid tid regs w).final.dbg = w.dbg := by
  cases h : w.resolvePort pid tid with
  | none => simp [regsSetFp, h]
  | some t => simp [regsSetFp, h, updateThread, modifyProc]

variable {w : World σ} {name t : Str} {value : BitVec 64} {regs : Regs}

/-- The registers of a name that is found are changed. -/
lemma regsSetByName_dbg (h : w.dbg.regs.setByName name value = some regs) :
    (regsSetByName name value w).final.dbg = { w.dbg with regs := regs } := by
  rw [Regs.setByName] at h
  rw [regsSetByName, Prog.get_bind]
  cases hg : setGprField w.dbg.regs.native name value with
  | some native =>
      rw [hg, Option.some.injEq] at h
      simp only [modifyDbg_bind]
      rw [storeRegs_dbg, ← h]
      rfl
  | none =>
      rw [hg] at h
      obtain ⟨neon, hf, rfl⟩ := Option.map_eq_some_iff.mp h
      simp only [hf, modifyDbg_bind, Prog.get_bind]
      rw [regsSetFp_dbg]
      rfl

lemma regsSetByName_none (h : w.dbg.regs.setByName name value = none) :
    regsSetByName name value w = ⟨some (-1), w, []⟩ := by
  rw [Regs.setByName] at h
  rw [regsSetByName, Prog.get_bind]
  cases hg : setGprField w.dbg.regs.native name value with
  | some native => simp [hg] at h
  | none =>
      rw [hg, Option.map_eq_none_iff] at h
      simp only [h, Prog.pure_apply]

namespace RegName

lemma getByName_x_of_index {i : Fin 31} (hi : i.val ≤ 28)
    (ht : registerIndex t = some (i.val : ℤ)) (regs : Regs) :
    regs.getByName ('x' :: t) = some ((x i).read regs) := by
  have hne : ∀ n < 2 ^ 63, 28 < n → t ≠ Nat.toDigits 10 n := by
    rintro n hn hlt rfl
    rw [registerIndex_toDigits hn, Option.some.injEq, Nat.cast_inj] at ht
    omega
  rw [getByName_x, if_neg (hne 29 (by decide) (by decide)), if_neg (hne 30 (by decide) (by decide)),
    read, dif_pos (show i.val < 29 by omega)]
  simp only [ht]
  rw [dif_pos (by omega)]
  rfl

lemma setByName_x_of_index {i : Fin 31} (hi : i.val ≤ 28)
    (ht : registerIndex t = some (i.val : ℤ)) (regs : Regs) :
    regs.setByName ('x' :: t) value = some ((x i).write regs value) := by
  have hne : ∀ n < 2 ^ 63, 28 < n → t ≠ Nat.toDigits 10 n := by
    rintro n hn hlt rfl
    rw [registerIndex_toDigits hn, Option.some.injEq, Nat.cast_inj] at ht
    omega
  rw [Regs.setByName, setGprField_x, if_neg (hne 29 (by decide) (by decide)),
    if_neg (hne 30 (by decide) (by decide)), write, if_pos (show i.val < 29 by omega)]
  simp only [ht]
  rw [if_pos (by omega)]
  simp only [Nat.cast_inj]

lemma getByName_v_of_index {i : Fin 32} (ht : registerIndex t = some (i.val : ℤ)) (regs : Regs) :
    regs.getByName ('v' :: t) = some ((v i).read regs) := by
  have hi := i.isLt
  rw [getByName_v, read]
  simp only [ht]
  rw [dif_pos (by omega)]
  rfl

lemma setByName_v_of_index {i : Fin 32} (ht : registerIndex t = some (i.val : ℤ)) (regs : Regs) :
    regs.setByName ('v' :: t) value = some ((v i).write regs value) := by
  have hi := i.isLt
  rw [Regs.setByName, setGprField_v, setFpField_v, write]
  simp only [ht]
  rw [if_pos (by omega)]
  simp only [Option.map_some, Nat.cast_inj, Fin.val_inj]

/-- A proper name is read. -/
lemma getByName_text (regs : Regs) (r : RegName) : regs.getByName r.text = some (r.read regs) := by
  cases r with
  | x i =>
      have hi := i.isLt
      by_cases h29 : i.val = 29
      · rw [text, getByName_x, read, h29, if_pos rfl, dif_neg (by decide), if_pos rfl]
      by_cases h30 : i.val = 30
      · rw [text, getByName_x, read, h30, if_neg (by decide), if_pos rfl, dif_neg (by decide),
          if_neg (by decide)]
      exact getByName_x_of_index (by omega) (registerIndex_toDigits (by omega)) regs
  | v i => exact getByName_v_of_index (registerIndex_toDigits (by have := i.isLt; omega)) regs
  | _ => rfl

/-- A proper name is written. -/
lemma setByName_text (regs : Regs) (r : RegName) :
    regs.setByName r.text value = some (r.write regs value) := by
  cases r with
  | x i =>
      have hi := i.isLt
      by_cases h29 : i.val = 29
      · rw [text, Regs.setByName, setGprField_x, write, h29, if_pos rfl, if_neg (by decide),
          if_pos rfl]
      by_cases h30 : i.val = 30
      · rw [text, Regs.setByName, setGprField_x, write, h30, if_neg (by decide), if_pos rfl,
          if_neg (by decide), if_neg (by decide)]
      exact setByName_x_of_index (by omega) (registerIndex_toDigits (by omega)) regs
  | v i => exact setByName_v_of_index (registerIndex_toDigits (by have := i.isLt; omega)) regs
  | _ => rfl

end RegName

/-- A text that spells no index within the bound, plainly or loosely, gives none. -/
lemma registerIndex_out (bound : ℕ) (hb : bound < 2 ^ 63 - 1) {t : Str}
    (hplain : ∀ i ≤ bound, t ≠ Nat.toDigits 10 i) (hloose : ¬ LooseIndex bound t) {i : ℤ}
    (hi : registerIndex t = some i) : ¬ (0 ≤ i ∧ i ≤ bound) := by
  rintro ⟨h0, hle⟩
  rcases loose_of_registerIndex hb hi h0 hle with h | h
  · exact hloose h
  · exact hplain i.toNat (by omega) h

/-- A name that is neither proper nor sloppy is found nowhere. -/
lemma not_found (regs : Regs) (value : BitVec 64) (hname : ∀ r : RegName, r.text ≠ name)
    (hs : ¬ Sloppy name) : regs.getByName name = none ∧ regs.setByName name value = none := by
  suffices h : regs.getByName name = none ∧
      setGprField regs.native name value = none ∧ setFpField regs.neon name value = none by
    refine ⟨h.1, ?_⟩
    rw [Regs.setByName, h.2.1, h.2.2]
    rfl
  -- a name with `x`: its digits are no number of a register
  by_cases hx : ∃ t, name = 'x' :: t
  · obtain ⟨t, rfl⟩ := hx
    have hplain : ∀ i < 31, t ≠ Nat.toDigits 10 i := by
      rintro i hi rfl
      exact hname (.x ⟨i, hi⟩) rfl
    have hout : ∀ i, registerIndex t = some i → ¬ (0 ≤ i ∧ i ≤ 28) := fun i hi =>
      registerIndex_out 28 (by decide) (fun i hi => hplain i (by omega))
        (fun h => hs ⟨t, .inl ⟨rfl, h⟩⟩) hi
    rw [getByName_x, setGprField_x, setFpField_x]
    simp only [if_neg (hplain 29 (by decide)), if_neg (hplain 30 (by decide)), and_true]
    cases hidx : registerIndex t with
    | none => exact ⟨rfl, rfl⟩
    | some i => exact ⟨dif_neg (hout i hidx), if_neg (hout i hidx)⟩
  -- the same for `v`
  by_cases hv : ∃ t, name = 'v' :: t
  · obtain ⟨t, rfl⟩ := hv
    have hplain : ∀ i ≤ 31, t ≠ Nat.toDigits 10 i := by
      rintro i hi rfl
      exact hname (.v ⟨i, by omega⟩) rfl
    have hout : ∀ i, registerIndex t = some i → ¬ (0 ≤ i ∧ i ≤ 31) := fun i hi =>
      registerIndex_out 31 (by decide) hplain (fun h => hs ⟨t, .inr ⟨rfl, h⟩⟩) hi
    rw [getByName_v, setGprField_v, setFpField_v]
    cases hidx : registerIndex t with
    | none => exact ⟨rfl, rfl, rfl⟩
    | some i => exact ⟨dif_neg (hout i hidx), rfl, by simp only [if_neg (hout i hidx)]⟩
  -- it is none of the other names either
  have hpc : name ≠ "pc".toList := (hname .pc).symm
  have hsp : name ≠ "sp".toList := (hname .sp).symm
  have hfp : name ≠ "fp".toList := (hname .fp).symm
  have hlr : name ≠ "lr".toList := (hname .lr).symm
  have hcpsr : name ≠ "cpsr".toList := (hname .cpsr).symm
  have hfpsr : name ≠ "fpsr".toList := (hname .fpsr).symm
  have hfpcr : name ≠ "fpcr".toList := (hname .fpcr).symm
  have h29 : name ≠ "x29".toList := fun h => hx ⟨_, h⟩
  have h30 : name ≠ "x30".toList := fun h => hx ⟨_, h⟩
  rw [Regs.getByName, setGprField, setFpField]
  simp only [if_neg hpc, if_neg hsp, if_neg (not_or.mpr ⟨hfp, h29⟩), if_neg (not_or.mpr ⟨hlr, h30⟩),
    if_neg hcpsr, if_neg hfpsr, if_neg hfpcr, and_self]
  all_goals
    intro digits h
    first | exact hx ⟨digits, h⟩ | exact hv ⟨digits, h⟩

/-- A sloppy name is proper for no register, and is found all the same. -/
lemma Sloppy.found (h : Sloppy name) (regs : Regs) :
    (∀ r : RegName, r.text ≠ name) ∧ regs.getByName name ≠ none := by
  obtain ⟨t, ⟨rfl, ht⟩ | ⟨rfl, ht⟩⟩ := h
  · obtain ⟨i, hi, hidx, hne⟩ := registerIndex_of_loose (by decide) ht
    refine ⟨fun r hr => ?_, ?_⟩
    · obtain ⟨j, -, rfl⟩ := (RegName.text_cons hr).1 rfl
      rw [registerIndex_toDigits (by omega), Option.some.injEq, Nat.cast_inj] at hidx
      exact hne (congrArg _ hidx)
    · rw [getByName_x]
      split_ifs
      · simp
      · simp
      · simp only [hidx]
        rw [dif_pos (by omega)]
        simp
  · obtain ⟨i, hi, hidx, hne⟩ := registerIndex_of_loose (by decide) ht
    refine ⟨fun r hr => ?_, ?_⟩
    · obtain ⟨j, -, rfl⟩ := (RegName.text_cons hr).2 rfl
      rw [registerIndex_toDigits (by omega), Option.some.injEq, Nat.cast_inj] at hidx
      exact hne (congrArg _ hidx)
    · rw [getByName_v]
      simp only [hidx]
      rw [dif_pos (by omega)]
      simp

/-- A name is read and written as the register it is the proper name of, and as none if it is
no such name, exactly if it is not sloppy. -/
theorem honours_iff (w : World σ) (name : Str) : w.Honours name ↔ ¬ Sloppy name := by
  constructor
  · intro h hs
    obtain ⟨hno, hget⟩ := hs.found w.dbg.regs
    exact hget (h.unread hno)
  · intro hs
    refine ⟨?_, ?_, fun hno => ?_, fun hno value => ?_⟩
    · rintro r rfl
      exact RegName.getByName_text _ r
    · rintro r rfl value
      rw [regsSetByName_dbg (RegName.setByName_text _ r)]
    · exact (not_found w.dbg.regs 0 hno hs).1
    · exact regsSetByName_none (not_found w.dbg.regs value hno hs).2

/-- The letter alone names no register, and `x0` is overwritten. -/
theorem honours_letter :
    (∀ r : RegName, r.text ≠ "x".toList) ∧
      ¬ (World.start () : World Unit).Honours "x".toList ∧
      (regsSetByName "x".toList 5 (World.start ())).final.dbg.regs.native.x 0 = 5 := by
  have hs : Sloppy "x".toList := ⟨[], .inl ⟨rfl, .inl rfl⟩⟩
  exact ⟨(hs.found .zero).1, fun h => (honours_iff _ _).mp h hs, by decide⟩

end Cdbg
