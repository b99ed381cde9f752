import Cdbg.Laws.RegisterNames
import Cdbg.Machine.Script

/-!
Registers as a lens.

Every name that is accepted denotes a register, in any spelling of its number (`NamesRegister`).
What is read and written under the name is this register, and the names of the same register
are those with the same `slot`: `x29` is another name of the frame pointer, and `x30` of the
link register.
-/

namespace Cdbg

open CString

variable {σ : Type}

namespace RegName

/-- The register under its own name. -/
def slot : RegName → RegName
  | x i => if i.val = 29 then fp else if i.val = 30 then lr else x i
  | r => r

/-- The bits a value is cut down to. -/
def width : RegName → ℕ
  | cpsr => 32
  | fpsr => 32
  | fpcr => 32
  | _ => 64

/-- A value as the register takes it. -/
def trim (r : RegName) (value : BitVec 64) : BitVec 64 := (value.setWidth r.width).setWidth 64

lemma slot_x_of_lt {i : Fin 31} (h : i.val < 29) : (x i).slot = x i := by
  rw [slot, if_neg (by omega), if_neg (by omega)]

lemma read_x {i : Fin 31} (h : i.val < 29) (regs : Regs) :
    (x i).read regs = regs.native.x ⟨i, h⟩ := by
  simp only [read, dif_pos h]

lemma write_x {i : Fin 31} (h : i.val < 29) (regs : Regs) (value : BitVec 64) :
    (x i).write regs value = { regs with native :=
      { regs.native with x := fun j => if j.val = i.val then value else regs.native.x j } } := by
  simp only [write, if_pos h]

/-- The numbered general-purpose registers are the frame pointer, the link register and the
others. -/
lemma slot_x_cases (i : Fin 31) :
    i.val < 29 ∨ (x i).slot = fp ∧ (∀ regs, (x i).read regs = fp.read regs) ∧
        (∀ regs value, (x i).write regs value = fp.write regs value) ∨
      (x i).slot = lr ∧ (∀ regs, (x i).read regs = lr.read regs) ∧
        ∀ regs value, (x i).write regs value = lr.write regs value := by
  by_cases h : i.val < 29
  · exact .inl h
  by_cases h29 : i.val = 29
  · exact .inr (.inl ⟨if_pos h29, fun regs => by simp [read, h29],
      fun regs value => by simp [write, h29]⟩)
  · have h30 : i.val = 30 := by omega
    exact .inr (.inr ⟨by simp [slot, h30], fun regs => by simp [read, h30],
      fun regs value => by simp [write, h30]⟩)

/-- A register is read under its own name. -/
lemma read_slot (r : RegName) (regs : Regs) : r.slot.read regs = r.read regs := by
  cases r with
  | x i =>
      rcases slot_x_cases i with h | ⟨h, hr, -⟩ | ⟨h, hr, -⟩
      · rw [slot_x_of_lt h]
      · rw [h, hr]
      · rw [h, hr]
  | _ => rfl

/-- A register is written under its own name. -/
lemma write_slot (r : RegName) (regs : Regs) (value : BitVec 64) :
    r.slot.write regs value = r.write regs value := by
  cases r with
  | x i =>
      rcases slot_x_cases i with h | ⟨h, -, hw⟩ | ⟨h, -, hw⟩
      · rw [slot_x_of_lt h]
      · rw [h, hw]
      · rw [h, hw]
  | _ => rfl

lemma slot_slot (r : RegName) : r.slot.slot = r.slot := by
  cases r with
  | x i =>
      rcases slot_x_cases i with h | ⟨h, -⟩ | ⟨h, -⟩
      · rw [slot_x_of_lt h, slot_x_of_lt h]
      · rw [h]
        rfl
      · rw [h]
        rfl
  | _ => rfl

/-- A register is numbered below 29 under its own name. -/
lemma lt_of_slot {i : Fin 31} (h : (x i).slot = x i) : i.val < 29 := by
  rcases slot_x_cases i with hlt | ⟨hs, -⟩ | ⟨hs, -⟩
  · exact hlt
  · cases hs.symm.trans h
  · cases hs.symm.trans h

lemma width_slot (r : RegName) : r.slot.width = r.width := by
  cases r with
  | x i =>
      rcases slot_x_cases i with h | ⟨h, -⟩ | ⟨h, -⟩
      · rw [slot_x_of_lt h]
      · rw [h]
        rfl
      · rw [h]
        rfl
  | _ => rfl

/-- What has been written is read. -/
lemma read_write_self (r : RegName) (regs : Regs) (value : BitVec 64) :
    r.read (r.write regs value) = r.trim value := by
  rw [← read_slot, ← write_slot r, trim, ← width_slot]
  have hself := slot_slot r
  cases hr : r.slot with
  | x i =>
      rw [hr] at hself
      rw [read_x (lt_of_slot hself), write_x (lt_of_slot hself)]
      simp [width]
  | v i => simp [read, write, width]
  | cpsr => rfl
  | fpsr => rfl
  | fpcr => rfl
  | _ => simp [read, write, width]

/-- A register of another name is left alone. -/
lemma read_write_of_ne {r s : RegName} (h : s.slot ≠ r.slot) (regs : Regs) (value : BitVec 64) :
    s.read (r.write regs value) = s.read regs := by
  rw [← read_slot s, ← read_slot s regs, ← write_slot r]
  have hrs := slot_slot r
  have hss := slot_slot s
  cases hr : r.slot with
  | x i =>
      rw [hr] at hrs
      rw [write_x (lt_of_slot hrs)]
      cases hs : s.slot with
      | x j =>
          rw [hs] at hss
          rw [read_x (lt_of_slot hss), read_x (lt_of_slot hss)]
          have hne : j.val ≠ i.val := fun hv => h (by rw [hs, hr, Fin.ext hv])
          exact if_neg hne
      | _ => rfl
  | v i =>
      cases hs : s.slot with
      | v j =>
          have hne : j ≠ i := fun hv => h (by rw [hs, hr, hv])
          rw [read, read, write]
          simp only [if_neg hne]
      | _ => rfl
  | _ =>
      cases hs : s.slot with
      | x j =>
          rw [hs] at hss
          rw [read_x (lt_of_slot hss), read_x (lt_of_slot hss)]
          rfl
      | _ => first | rfl | exact absurd (hs.trans hr.symm) h

end RegName

/-! ### What a name denotes -/

/-- A text is taken for a number: a spelling of it, or nothing for zero. -/
def TakenFor (t : Str) (i : ℕ) : Prop :=
  t = [] ∧ i = 0 ∨ ∃ sign, Spells sign i t ∧ (sign = some true → i = 0)

/-- A name denotes a register: it is the proper name, or it has the number of the register in
another spelling. The names `x29` and `x30` have only the proper one. -/
inductive NamesRegister : Str → RegName → Prop
  | proper (r : RegName) : NamesRegister r.text r
  | x {t : Str} {i : Fin 31} (hi : i.val ≤ 28) (h : TakenFor t i) :
      NamesRegister ('x' :: t) (.x i)
  | v {t : Str} {i : Fin 32} (h : TakenFor t i) : NamesRegister ('v' :: t) (.v i)

lemma TakenFor.registerIndex {t : Str} {i : ℕ} (hi : i < 2 ^ 63) (h : TakenFor t i) :
    registerIndex t = some (i : ℤ) := by
  rcases h with ⟨rfl, rfl⟩ | ⟨sign, hs, hminus⟩
  · rfl
  · rw [registerIndex_of_spells hs hi]
    split
    next hsign =>
      rw [hminus hsign]
      rfl
    next => rfl

namespace NamesRegister

variable {w : World σ} {name other : Str} {r s : RegName}

lemma getByName (h : NamesRegister name r) (regs : Regs) :
    regs.getByName name = some (r.read regs) := by
  cases h with
  | proper => exact RegName.getByName_text regs r
  | x hi ht => exact RegName.getByName_x_of_index hi (ht.registerIndex (by omega)) regs
  | @v t i ht =>
      exact RegName.getByName_v_of_index (ht.registerIndex (by have := i.isLt; omega)) regs

lemma setByName (h : NamesRegister name r) (regs : Regs) (value : BitVec 64) :
    regs.setByName name value = some (r.write regs value) := by
  cases h with
  | proper => exact RegName.setByName_text regs r
  | x hi ht => exact RegName.setByName_x_of_index hi (ht.registerIndex (by omega)) regs
  | @v t i ht =>
      exact RegName.setByName_v_of_index (ht.registerIndex (by have := i.isLt; omega)) regs

end NamesRegister

/-- A sloppy name denotes a register. -/
lemma Sloppy.denotes {name : Str} (h : Sloppy name) : ∃ r, NamesRegister name r := by
  obtain ⟨t, ⟨rfl, ht⟩ | ⟨rfl, ht⟩⟩ := h
  · rcases ht with rfl | ⟨i, hi, -, sign, hs, hminus⟩
    · exact ⟨.x 0, .x (by decide) (.inl ⟨rfl, rfl⟩)⟩
    · exact ⟨.x ⟨i, by omega⟩, .x hi (.inr ⟨sign, hs, hminus⟩)⟩
  · rcases ht with rfl | ⟨i, hi, -, sign, hs, hminus⟩
    · exact ⟨.v 0, .v (.inl ⟨rfl, rfl⟩)⟩
    · exact ⟨.v ⟨i, by omega⟩, .v (.inr ⟨sign, hs, hminus⟩)⟩

/-- A name that denotes no register is found nowhere. -/
lemma not_found_of_not_denotes {name : Str} (h : ¬ ∃ r, NamesRegister name r) (regs : Regs)
    (value : BitVec 64) : regs.getByName name = none ∧ regs.setByName name value = none := by
  refine not_found regs value ?_ fun hs => h hs.denotes
  rintro r rfl
  exact h ⟨r, .proper r⟩

lemma getByName_ne_none_iff {name : Str} (regs : Regs) :
    regs.getByName name ≠ none ↔ ∃ r, NamesRegister name r := by
  constructor
  · intro h
    by_contra hno
    exact h (not_found_of_not_denotes hno regs 0).1
  · rintro ⟨r, hr⟩
    rw [hr.getByName]
    exact Option.some_ne_none _

/-! ### Setting and reading -/

/-- What setting a register by name does, provided that the thread can be written to. -/
structure World.SetsRegister (w : World σ) (name : Str) (value : BitVec 64) : Prop where
  accepted : (regsSetByName name value w).value = some 0 ↔ w.dbg.regs.getByName name ≠ none
  rejected : (regsSetByName name value w).value ≠ some 0 →
    regsSetByName name value w = ⟨some (-1), w, []⟩
  denotes : w.dbg.regs.getByName name ≠ none ↔ ∃ r, NamesRegister name r
  get_set : ∀ r, NamesRegister name r →
    (regsSetByName name value w).final.dbg.regs.getByName name = some (r.trim value)
  cleared : ∀ i, NamesRegister name (.v i) →
    (regsSetByName name value w).final.dbg.regs.neon.v i = value.setWidth 128
  frame : ∀ r, NamesRegister name r → ∀ other, w.dbg.regs.getByName other ≠ none →
    (∀ s, NamesRegister other s → s.slot ≠ r.slot) →
    (regsSetByName name value w).final.dbg.regs.getByName other = w.dbg.regs.getByName other

lemma regsSet_value {w : World σ} {pid : ℕ} {tid : Tid} {regs : Regs}
    (h : (w.resolvePort pid tid).isSome) : (regsSet pid tid regs w).value = some 0 := by
  obtain ⟨t, ht⟩ := Option.isSome_iff_exists.mp h
  simp [regsSet, ht, updateThread, modifyProc]

lemma regsSetFp_value {w : World σ} {pid : ℕ} {tid : Tid} {regs : Regs}
    (h : (w.resolvePort pid tid).isSome) : (regsSetFp pid tid regs w).value = some 0 := by
  obtain ⟨t, ht⟩ := Option.isSome_iff_exists.mp h
  simp [regsSetFp, ht, updateThread, modifyProc]

/-- The thread's state is written once the registers are changed. -/
lemma regsSetByName_value {w : World σ} {name : Str} {value : BitVec 64} {regs : Regs}
    (h : w.dbg.regs.setByName name value = some regs)
    (hport : (w.resolvePort w.dbg.pid w.dbg.currentTid).isSome) :
    (regsSetByName name value w).value = some 0 := by
  rw [Regs.setByName] at h
  rw [regsSetByName, Prog.get_bind]
  cases hg : setGprField w.dbg.regs.native name value with
  | some native =>
      simp only [modifyDbg_bind, storeRegs, Prog.get_bind]
      exact regsSet_value hport
  | none =>
      rw [hg] at h
      obtain ⟨neon, hf, -⟩ := Option.map_eq_some_iff.mp h
      simp only [hf, modifyDbg_bind, Prog.get_bind]
      exact regsSetFp_value hport

/-- Setting a register by name is setting the register that the name denotes, and reading by
name is reading it. -/
theorem sets_register (w : World σ) (name : Str) (value : BitVec 64)
    (hport : (w.resolvePort w.dbg.pid w.dbg.currentTid).isSome) : w.SetsRegister name value := by
  have hset : ∀ r, NamesRegister name r →
      (regsSetByName name value w).final.dbg.regs = r.write w.dbg.regs value := by
    intro r hr
    rw [regsSetByName_dbg (hr.setByName _ _)]
  have hnone : (¬ ∃ r, NamesRegister name r) → regsSetByName name value w = ⟨some (-1), w, []⟩ :=
    fun hno => regsSetByName_none (not_found_of_not_denotes hno _ _).2
  have haccepted : (regsSetByName name value w).value = some 0 ↔ ∃ r, NamesRegister name r := by
    constructor
    · intro h
      by_contra hno
      simp [hnone hno] at h
    · rintro ⟨r, hr⟩
      exact regsSetByName_value (hr.setByName _ _) hport
  refine ⟨?_, fun h => hnone (mt haccepted.mpr h), getByName_ne_none_iff _, ?_, ?_, ?_⟩
  · rw [haccepted, getByName_ne_none_iff]
  · intro r hr
    rw [hset r hr, hr.getByName, RegName.read_write_self]
  · intro i hi
    rw [hset _ hi]
    exact if_pos rfl
  · intro r hr other hother hne
    obtain ⟨s, hs⟩ := (getByName_ne_none_iff _).mp hother
    rw [hset r hr, hs.getByName, hs.getByName, RegName.read_write_of_ne (hne s hs)]

/-- A debuggee stopped with all registers zero. -/
def stoppedAtZero : World Unit where
  dbg := { Dbg.init with
    pid := 7
    state := .stopped }
  proc := some (.resting (.numbered (.at 1 0) []) fun _ => 0)
  host := ()

/-- `x+5` is set, and read under the name `x5`. -/
theorem sets_register_plus : stoppedAtZero.SetsRegister "x+5".toList 7 ∧
    (regsSetByName "x+5".toList 7 stoppedAtZero).final.dbg.regs.getByName "x5".toList = some 7 :=
  ⟨sets_register stoppedAtZero _ 7 rfl, by decide⟩

end Cdbg
