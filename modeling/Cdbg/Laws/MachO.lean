import Cdbg.Source.MachO

/-!
What the readers of Mach-O files read.

The loops over load commands check that the eight bytes of a `load_command` are in the file,
and nothing of what a segment or symbol table command holds beyond them; the symbols are
checked as a whole, and of a name in the string table only its first byte. So a file is read
beyond its end exactly if one of the commands that are come to, of the sections in them or of
the names goes on behind it (`Closed`).
-/

namespace Cdbg

open Scan

namespace MachImage

variable {m : MachImage} {n off i j : ℕ} {s : List Byte}

/-- Only bytes of the file are read. -/
def Inside {α : Type} (m : MachImage) (p : MachScan α) : Prop := p.Within (· < m.size)

@[simp] lemma inside_pure {α : Type} (a : α) : m.Inside (pure a : MachScan α) := within_pure a

@[simp] lemma inside_bind {α β : Type} {p : MachScan α} {f : α → MachScan β} :
    m.Inside (p >>= f) ↔ m.Inside p ∧ m.Inside (f p.value) := within_bind

@[simp] lemma inside_map {α β : Type} {p : MachScan α} {f : α → β} :
    m.Inside (f <$> p) ↔ m.Inside p := within_map

@[simp] lemma inside_u8 : m.Inside (m.u8 off) ↔ off < m.size := by
  simp [Inside, Within, u8]

@[simp] lemma inside_u32 : m.Inside (m.u32 off) ↔ off + 4 ≤ m.size := by
  simp only [Inside, Within, u32, List.forall_mem_cons, List.not_mem_nil, false_implies,
    implies_true, and_true]
  omega

@[simp] lemma inside_u64 : m.Inside (m.u64 off) ↔ off + 8 ≤ m.size := by
  simp only [u64, inside_bind, inside_u32, inside_pure, and_true]
  omega

@[simp] lemma value_u8 : (m.u8 off).value = m.mem off := rfl

@[simp] lemma value_u32 : (m.u32 off).value = m.word off := rfl

/-! ### Names -/

/-- The first bytes of a name are those of a text. -/
def Agrees (m : MachImage) (off : ℕ) (s : List Byte) (k : ℕ) : Prop :=
  ∀ i < k, s[i]? = some (m.mem (off + i))

/-- As far as it agrees with a text, and one byte further, a name lies in the file. -/
def NameInside (m : MachImage) (n off : ℕ) (s : List Byte) : Prop :=
  ∀ k < n, m.Agrees off s k → off + k < m.size

/-- A name is a text: they agree, up to the NUL or to the length of the field. -/
def Named (m : MachImage) (n off : ℕ) (s : List Byte) : Prop :=
  ∀ k < n, m.Agrees off s k → s[k]? = some (m.mem (off + k)) ∨ k = s.length ∧ m.mem (off + k) = 0

lemma agrees_zero : m.Agrees off s 0 := fun i hi => absurd hi (Nat.not_lt_zero i)

lemma agrees_cons {d : Byte} {k : ℕ} :
    m.Agrees off (d :: s) (k + 1) ↔ m.mem off = d ∧ m.Agrees (off + 1) s k := by
  constructor
  · intro h
    refine ⟨?_, fun i hi => ?_⟩
    · simpa using (h 0 (by omega)).symm
    · have := h (i + 1) (by omega)
      rwa [List.getElem?_cons_succ, ← Nat.add_assoc, Nat.add_right_comm] at this
  · rintro ⟨hd, h⟩ i hi
    cases i with
    | zero => simp [hd]
    | succ i =>
        rw [List.getElem?_cons_succ, ← Nat.add_assoc, Nat.add_right_comm]
        exact h i (by omega)

lemma not_agrees_nil {k : ℕ} : ¬ m.Agrees off [] (k + 1) := fun h => by
  have := h 0 (by omega)
  cases this

lemma inside_strncmpEq : m.Inside (m.strncmpEq n off s) ↔ m.NameInside n off s := by
  induction n generalizing off s with
  | zero =>
      rw [strncmpEq]
      exact ⟨fun _ k hk => absurd hk (Nat.not_lt_zero k), fun _ => inside_pure true⟩
  | succ n ih =>
      rw [strncmpEq, inside_bind, inside_u8, value_u8]
      have hfirst : m.NameInside (n + 1) off s → off < m.size := fun h =>
        h 0 (Nat.succ_pos n) agrees_zero
      cases s with
      | nil =>
          simp only [inside_pure, and_true]
          refine ⟨fun hoff k hk hagree => ?_, hfirst⟩
          cases k with
          | zero => exact hoff
          | succ k => exact absurd hagree not_agrees_nil
      | cons d s =>
          by_cases hd : m.mem off = d
          · simp only [if_pos hd, ih]
            constructor
            · rintro ⟨hoff, h⟩ k hk hagree
              cases k with
              | zero => exact hoff
              | succ k =>
                  have := h k (by omega) (agrees_cons.mp hagree).2
                  omega
            · refine fun h => ⟨hfirst h, fun k hk hagree => ?_⟩
              have := h (k + 1) (by omega) (agrees_cons.mpr ⟨hd, hagree⟩)
              omega
          · simp only [if_neg hd, inside_pure, and_true]
            refine ⟨fun hoff k hk hagree => ?_, hfirst⟩
            cases k with
            | zero => exact hoff
            | succ k => exact absurd (agrees_cons.mp hagree).1 hd

lemma strncmpEq_iff : (m.strncmpEq n off s).value = true ↔ m.Named n off s := by
  induction n generalizing off s with
  | zero =>
      rw [strncmpEq]
      exact ⟨fun _ k hk => absurd hk (Nat.not_lt_zero k), fun _ => rfl⟩
  | succ n ih =>
      rw [strncmpEq, value_bind, value_u8]
      cases s with
      | nil =>
          simp only [value_pure, decide_eq_true_eq]
          constructor
          · intro hzero k hk hagree
            cases k with
            | zero => exact .inr ⟨rfl, hzero⟩
            | succ k => exact absurd hagree not_agrees_nil
          · intro h
            rcases h 0 (Nat.succ_pos n) agrees_zero with h | h
            · cases h
            · exact h.2
      | cons d s =>
          by_cases hd : m.mem off = d
          · simp only [if_pos hd, ih]
            constructor
            · intro h k hk hagree
              cases k with
              | zero => exact .inl (by simp [hd])
              | succ k =>
                  have := h k (by omega) (agrees_cons.mp hagree).2
                  simpa [Nat.add_assoc, Nat.add_comm 1 k] using this
            · intro h k hk hagree
              have := h (k + 1) (by omega) (agrees_cons.mpr ⟨hd, hagree⟩)
              simpa [Nat.add_assoc, Nat.add_comm 1 k] using this
          · simp only [if_neg hd, value_pure, Bool.false_eq_true, false_iff]
            intro h
            rcases h 0 (Nat.succ_pos n) agrees_zero with h | h
            · simp only [List.getElem?_cons_zero, Option.some.injEq, Nat.add_zero] at h
              exact hd h.symm
            · exact absurd h.1 (by simp)

/-! ### Load commands -/

/-- The offset of a load command: behind the one before it. -/
def commandAt (m : MachImage) : ℕ → ℕ
  | 0 => 32
  | i + 1 => m.commandAt i + (m.word (m.commandAt i + 4)).toNat

/-- The loop comes to a load command, if none before it has ended the loop. -/
def Visits (m : MachImage) (done : ℕ → Prop) (i : ℕ) : Prop :=
  i < (m.word 16).toNat ∧ (∀ j ≤ i, m.commandAt j + 8 ≤ m.size) ∧
    ∀ j < i, ¬ done (m.commandAt j)

lemma inside_eachCommand_succ {α : Type} {visit : ℕ → MachScan (Option α)} {cursor : ℕ} :
    m.Inside (m.eachCommand visit (n + 1) cursor) ↔ (cursor + 8 ≤ m.size →
      m.Inside (visit cursor) ∧ ((visit cursor).value = none →
        m.Inside (m.eachCommand visit n (cursor + (m.word (cursor + 4)).toNat)))) := by
  rw [eachCommand]
  by_cases hin : m.size < cursor + 8
  · rw [if_pos hin]
    exact ⟨fun _ h => absurd h (by omega), fun _ => inside_pure none⟩
  · rw [if_neg hin, inside_bind, imp_iff_right (by omega)]
    cases (visit cursor).value with
    | some a => simp
    | none =>
        simp only [inside_bind, inside_u32, value_u32, true_implies]
        exact ⟨fun h => ⟨h.1, h.2.2⟩, fun h => ⟨h.1, by omega, h.2⟩⟩

/-- The loop reads in the file exactly if its rounds do. -/
lemma inside_eachCommand {α : Type} {visit : ℕ → MachScan (Option α)} :
    m.Inside (m.eachCommand visit n (m.commandAt i)) ↔
      ∀ j, i ≤ j → j < i + n → (∀ k, i ≤ k → k ≤ j → m.commandAt k + 8 ≤ m.size) →
        (∀ k, i ≤ k → k < j → (visit (m.commandAt k)).value = none) →
          m.Inside (visit (m.commandAt j)) := by
  induction n generalizing i with
  | zero =>
      rw [eachCommand]
      exact ⟨fun _ j hij hj => absurd hj (by omega), fun _ => inside_pure none⟩
  | succ n ih =>
      rw [inside_eachCommand_succ, ← commandAt, ih]
      constructor
      · intro h j hij hj hall hnone
        obtain ⟨hvisit, hnext⟩ := h (hall i le_rfl hij)
        rcases Nat.eq_or_lt_of_le hij with rfl | hlt
        · exact hvisit
        · exact hnext (hnone i le_rfl hlt) j hlt (by omega) (fun k hk => hall k (by omega))
            fun k hk => hnone k (by omega)
      · intro h hin
        have hself : ∀ k, i ≤ k → k ≤ i → m.commandAt k + 8 ≤ m.size := by
          intro k h1 h2
          obtain rfl := Nat.le_antisymm h1 h2
          exact hin
        refine ⟨h i le_rfl (by omega) hself fun k h1 h2 => absurd h2 (by omega), ?_⟩
        intro hnone j hij hj hall hnones
        refine h j (by omega) (by omega) (fun k h1 h2 => ?_) fun k h1 h2 => ?_
        · rcases Nat.eq_or_lt_of_le h1 with rfl | hlt
          · exact hin
          · exact hall k hlt h2
        · rcases Nat.eq_or_lt_of_le h1 with rfl | hlt
          · exact hnone
          · exact hnones k hlt h2

/-- The file has the header of a Mach-O file. -/
def HasHeader (m : MachImage) : Prop := 32 ≤ m.size ∧ m.word 0 = mhMagic64

lemma inside_header : m.Inside m.header := by
  rw [header]
  split
  · exact inside_pure none
  · rw [inside_bind, inside_u32]
    refine ⟨by omega, ?_⟩
    split
    · exact inside_pure none
    · rw [inside_map, inside_u32]
      omega

lemma header_of_hasHeader (h : m.HasHeader) : m.header.value = some (m.word 16) := by
  rw [header, if_neg (by have := h.1; omega), value_bind, value_u32, if_neg (not_not.mpr h.2)]
  rfl

lemma header_of_not (h : ¬ m.HasHeader) : m.header.value = none := by
  rw [header]
  by_cases hsize : m.size < 32
  · rw [if_pos hsize]
    rfl
  · have hmagic : m.word 0 ≠ mhMagic64 := fun hm => h ⟨by omega, hm⟩
    rw [if_neg hsize, value_bind, value_u32, if_pos hmagic]
    rfl

/-- What a reader of commands reads beyond the header. -/
lemma inside_commands {α β : Type} {visit : ℕ → MachScan (Option α)} {b : β}
    {loop : BitVec 32 → MachScan β} {done : ℕ → Prop}
    (hloop : ∀ ncmds, m.Inside (loop ncmds) ↔ m.Inside (m.eachCommand visit ncmds.toNat 32))
    (hdone : ∀ off, (visit off).value = none ↔ ¬ done off) :
    m.Inside (m.header >>= fun
      | none => pure b
      | some ncmds => loop ncmds) ↔
      (m.HasHeader → ∀ i, m.Visits done i → m.Inside (visit (m.commandAt i))) := by
  rw [inside_bind, and_iff_right inside_header]
  by_cases h : m.HasHeader
  · rw [header_of_hasHeader h, imp_iff_right h, hloop]
    change m.Inside (m.eachCommand visit (m.word 16).toNat (m.commandAt 0)) ↔ _
    rw [inside_eachCommand]
    simp only [hdone, Nat.zero_le, true_implies, Nat.zero_add, Visits, and_imp]
  · rw [header_of_not h]
    simp [h]

/-! ### Segments -/

/-- A load command is a segment. -/
def IsSegment (m : MachImage) (off : ℕ) : Prop := m.word off = lcSegment64

/-- A load command is the segment `__TEXT`. -/
def IsText (m : MachImage) (off : ℕ) : Prop :=
  m.IsSegment off ∧ m.Named (textName.length + 1) (off + 8) textName

lemma textSegment_none : (m.textSegment off).value = none ↔ ¬ m.IsText off := by
  rw [textSegment, value_bind, value_u32]
  by_cases hseg : m.word off = lcSegment64
  · rw [if_pos hseg, value_bind]
    by_cases hname : m.Named (textName.length + 1) (off + 8) textName
    · have htext : m.IsText off := ⟨hseg, hname⟩
      rw [strncmpEq_iff.mpr hname, if_pos rfl, value_map]
      simp [htext]
    · have hfalse := Bool.eq_false_iff.mpr fun h => hname (strncmpEq_iff.mp h)
      have htext : ¬ m.IsText off := fun h => hname h.2
      rw [hfalse, if_neg Bool.false_ne_true]
      simp [htext]
  · have htext : ¬ m.IsText off := fun h => hseg h.1
    rw [if_neg hseg]
    simp [htext]

lemma inside_textSegment : m.Inside (m.textSegment off) ↔ off + 4 ≤ m.size ∧ (m.IsSegment off →
    m.NameInside (textName.length + 1) (off + 8) textName ∧
      (m.Named (textName.length + 1) (off + 8) textName → off + 32 ≤ m.size)) := by
  rw [textSegment, inside_bind, inside_u32, value_u32]
  refine and_congr_right fun _ => ?_
  by_cases hseg : m.IsSegment off
  · rw [imp_iff_right hseg]
    rw [IsSegment] at hseg
    rw [if_pos hseg, inside_bind, inside_strncmpEq]
    refine and_congr_right fun _ => ?_
    by_cases hname : m.Named (textName.length + 1) (off + 8) textName
    · rw [strncmpEq_iff.mpr hname, if_pos rfl, inside_map, inside_u64, imp_iff_right hname]
    · have hfalse := Bool.eq_false_iff.mpr fun h => hname (strncmpEq_iff.mp h)
      rw [hfalse, if_neg Bool.false_ne_true]
      simp [hname]
  · rw [IsSegment] at hseg
    rw [if_neg hseg]
    exact ⟨fun _ h => absurd h hseg, fun _ => inside_pure none⟩

section Sections

variable {segname sectname : List Byte} {sec : ℕ}

/-- A section has these two names. -/
def IsSection (m : MachImage) (segname sectname : List Byte) (sec : ℕ) : Prop :=
  m.Named 16 (sec + 16) segname ∧ m.Named 16 sec sectname

/-- What the search looks at in a section lies in the file. -/
def SectionInside (m : MachImage) (segname sectname : List Byte) (sec : ℕ) : Prop :=
  m.NameInside 16 (sec + 16) segname ∧ (m.Named 16 (sec + 16) segname →
    m.NameInside 16 sec sectname ∧ (m.Named 16 sec sectname → sec + 52 ≤ m.size))

/-- What is found in the first section, and else in the others. -/
lemma findInSegment_succ :
    (m.Inside (m.findInSegment segname sectname (n + 1) sec) ↔
      m.SectionInside segname sectname sec ∧ (¬ m.IsSection segname sectname sec →
        m.Inside (m.findInSegment segname sectname n (sec + 80)))) ∧
    ((m.findInSegment segname sectname (n + 1) sec).value = none ↔
      ¬ m.IsSection segname sectname sec ∧
        (m.findInSegment segname sectname n (sec + 80)).value = none) := by
  rw [findInSegment, inside_bind, inside_strncmpEq, value_bind, IsSection, SectionInside]
  by_cases hseg : m.Named 16 (sec + 16) segname
  · rw [strncmpEq_iff.mpr hseg, if_pos rfl, inside_bind, inside_strncmpEq, value_bind]
    by_cases hsect : m.Named 16 sec sectname
    · rw [strncmpEq_iff.mpr hsect, if_pos rfl]
      simp only [inside_bind, inside_u32, inside_u64, inside_pure, value_bind, value_pure, hseg,
        hsect, true_implies, and_true, not_true_eq_false, false_implies, false_and, reduceCtorEq,
        iff_self]
      refine and_congr_right fun _ => and_congr_right fun _ => ?_
      omega
    · have hfalse := Bool.eq_false_iff.mpr fun h => hsect (strncmpEq_iff.mp h)
      rw [hfalse, if_neg Bool.false_ne_true]
      simp only [hseg, hsect, true_implies, false_implies, and_true, and_false, not_false_eq_true,
        true_and, and_assoc]
  · have hfalse := Bool.eq_false_iff.mpr fun h => hseg (strncmpEq_iff.mp h)
    rw [hfalse, if_neg Bool.false_ne_true]
    simp only [hseg, false_implies, and_true, false_and, not_false_eq_true, true_implies, true_and]

lemma findInSegment_none : (m.findInSegment segname sectname n sec).value = none ↔
    ∀ j < n, ¬ m.IsSection segname sectname (sec + 80 * j) := by
  induction n generalizing sec with
  | zero =>
      rw [findInSegment]
      exact ⟨fun _ j hj => absurd hj (Nat.not_lt_zero j), fun _ => rfl⟩
  | succ n ih =>
      rw [findInSegment_succ.2, ih]
      constructor
      · rintro ⟨hfirst, hrest⟩ j hj
        cases j with
        | zero => exact hfirst
        | succ j =>
            have := hrest j (by omega)
            rwa [Nat.add_assoc, Nat.add_comm 80, ← Nat.mul_succ] at this
      · intro h
        refine ⟨h 0 (by omega), fun j hj => ?_⟩
        have := h (j + 1) (by omega)
        rwa [Nat.mul_succ, Nat.add_comm (80 * j), ← Nat.add_assoc] at this

lemma inside_findInSegment : m.Inside (m.findInSegment segname sectname n sec) ↔
    ∀ j < n, (∀ k < j, ¬ m.IsSection segname sectname (sec + 80 * k)) →
      m.SectionInside segname sectname (sec + 80 * j) := by
  induction n generalizing sec with
  | zero =>
      rw [findInSegment]
      exact ⟨fun _ j hj => absurd hj (Nat.not_lt_zero j), fun _ => inside_pure none⟩
  | succ n ih =>
      have hshift : ∀ j, sec + 80 + 80 * j = sec + 80 * (j + 1) := fun j => by omega
      rw [findInSegment_succ.1, ih]
      constructor
      · rintro ⟨hfirst, hrest⟩ j hj hnone
        cases j with
        | zero => exact hfirst
        | succ j =>
            have := hrest (hnone 0 (by omega)) j (by omega) fun k hk => by
              rw [hshift]
              exact hnone (k + 1) (by omega)
            rwa [hshift] at this
      · intro h
        refine ⟨h 0 (by omega) fun k hk => absurd hk (Nat.not_lt_zero k), ?_⟩
        intro hnot j hj hnone
        rw [hshift]
        refine h (j + 1) (by omega) fun k hk => ?_
        cases k with
        | zero => exact hnot
        | succ k =>
            have := hnone k (by omega)
            rwa [hshift] at this

/-- A segment holds a section of these names. -/
def HoldsSection (m : MachImage) (segname sectname : List Byte) (off : ℕ) : Prop :=
  m.IsSegment off ∧ ∃ j < (m.word (off + 64)).toNat,
    m.IsSection segname sectname (off + 72 + 80 * j)

lemma sectionSegment_none : (m.sectionSegment segname sectname off).value = none ↔
    ¬ m.HoldsSection segname sectname off := by
  rw [sectionSegment, value_bind, value_u32]
  by_cases hseg : m.word off = lcSegment64
  · have hholds : m.HoldsSection segname sectname off ↔ ∃ j < (m.word (off + 64)).toNat,
        m.IsSection segname sectname (off + 72 + 80 * j) := and_iff_right hseg
    rw [if_pos hseg, value_bind, value_u32, findInSegment_none, hholds]
    push Not
    rfl
  · have hholds : ¬ m.HoldsSection segname sectname off := fun h => hseg h.1
    rw [if_neg hseg]
    simp [hholds]

lemma inside_sectionSegment : m.Inside (m.sectionSegment segname sectname off) ↔
    off + 4 ≤ m.size ∧ (m.IsSegment off → off + 68 ≤ m.size ∧
      ∀ j < (m.word (off + 64)).toNat,
        (∀ k < j, ¬ m.IsSection segname sectname (off + 72 + 80 * k)) →
          m.SectionInside segname sectname (off + 72 + 80 * j)) := by
  rw [sectionSegment, inside_bind, inside_u32, value_u32]
  refine and_congr_right fun _ => ?_
  by_cases hseg : m.IsSegment off
  · rw [imp_iff_right hseg]
    rw [IsSegment] at hseg
    rw [if_pos hseg, inside_bind, inside_u32, value_u32, inside_findInSegment]
  · rw [IsSegment] at hseg
    rw [if_neg hseg]
    exact ⟨fun _ h => absurd h hseg, fun _ => inside_pure none⟩

end Sections

/-! ### The symbol table -/

/-- A load command is a symbol table. -/
def IsSymtab (m : MachImage) (off : ℕ) : Prop := m.word off = lcSymtab

/-- The loop that ends with no command comes to this one. -/
abbrev Passes (m : MachImage) (i : ℕ) : Prop := m.Visits (fun _ => False) i

/-- The last symbol table that the loop comes to. -/
def LastSymtab (m : MachImage) (symtab : ℕ) : Prop :=
  ∃ i, m.Passes i ∧ m.IsSymtab (m.commandAt i) ∧ symtab = m.commandAt i ∧
    ∀ j, m.Passes j → i < j → ¬ m.IsSymtab (m.commandAt j)

lemma inside_lastSymtab {cursor : ℕ} {symtab : Option ℕ} :
    m.Inside (m.lastSymtab n cursor symtab) := by
  induction n generalizing cursor symtab with
  | zero => exact inside_pure symtab
  | succ n ih =>
      rw [lastSymtab]
      by_cases hin : m.size < cursor + 8
      · rw [if_pos hin]
        exact inside_pure symtab
      · rw [if_neg hin, inside_bind, inside_bind, inside_u32, inside_u32]
        exact ⟨by omega, by omega, ih⟩

/-- The commands from one on that the loop comes to. -/
def PassesFrom (m : MachImage) (i n j : ℕ) : Prop :=
  i ≤ j ∧ j < i + n ∧ ∀ k, i ≤ k → k ≤ j → m.commandAt k + 8 ≤ m.size

lemma passesFrom_succ : m.PassesFrom i (n + 1) j ↔
    m.commandAt i + 8 ≤ m.size ∧ (j = i ∨ m.PassesFrom (i + 1) n j) := by
  constructor
  · rintro ⟨hij, hj, hall⟩
    refine ⟨hall i le_rfl hij, ?_⟩
    rcases Nat.eq_or_lt_of_le hij with rfl | hlt
    · exact .inl rfl
    · exact .inr ⟨hlt, by omega, fun k h1 h2 => hall k (by omega) h2⟩
  · rintro ⟨hin, rfl | ⟨hij, hj, hall⟩⟩
    · refine ⟨le_rfl, by omega, fun k h1 h2 => ?_⟩
      obtain rfl := Nat.le_antisymm h2 h1
      exact hin
    · refine ⟨by omega, by omega, fun k h1 h2 => ?_⟩
      rcases Nat.eq_or_lt_of_le h1 with rfl | hlt
      · exact hin
      · exact hall k hlt h2

lemma passesFrom_zero : m.PassesFrom 0 (m.word 16).toNat j ↔ m.Passes j := by
  simp [PassesFrom, Visits]

/-- The loop leaves the last symbol table it comes to, or what it had. -/
lemma lastSymtab_eq_some {symtab : Option ℕ} :
    (m.lastSymtab n (m.commandAt i) symtab).value = some off ↔
      (∃ j, m.PassesFrom i n j ∧ m.IsSymtab (m.commandAt j) ∧ off = m.commandAt j ∧
        ∀ k, m.PassesFrom i n k → j < k → ¬ m.IsSymtab (m.commandAt k)) ∨
      symtab = some off ∧ ∀ k, m.PassesFrom i n k → ¬ m.IsSymtab (m.commandAt k) := by
  induction n generalizing i symtab with
  | zero =>
      have hnone : ∀ k, ¬ m.PassesFrom i 0 k := fun k h => by
        have := h.1
        have := h.2.1
        omega
      simp [lastSymtab, hnone]
  | succ n ih =>
      rw [lastSymtab]
      -- the loop ends where no command fits any more
      by_cases hin : m.size < m.commandAt i + 8
      · have hnone : ∀ k, ¬ m.PassesFrom i (n + 1) k := fun k h => by
          have := (passesFrom_succ.mp h).1
          omega
        rw [if_pos hin]
        simp [hnone]
      rw [if_neg hin, value_bind, value_bind, value_u32, value_u32, ← commandAt, ih]
      have hin' : m.commandAt i + 8 ≤ m.size := by omega
      -- the commands passed from here on are this one and those passed from the next one on
      have hsucc : ∀ k, m.PassesFrom i (n + 1) k ↔ k = i ∨ m.PassesFrom (i + 1) n k := fun k => by
        rw [passesFrom_succ, and_iff_right hin']
      simp only [hsucc]
      have hlater : ∀ k, m.PassesFrom (i + 1) n k → i < k := fun k h => h.1
      constructor
      · rintro (⟨j, hj, hsym, rfl, hlast⟩ | ⟨hsym, hno⟩)
        · refine .inl ⟨j, .inr hj, hsym, rfl, fun k hk hjk => ?_⟩
          rcases hk with rfl | hk
          · have := hlater j hj
            omega
          · exact hlast k hk hjk
        · by_cases hcmd : m.IsSymtab (m.commandAt i)
          · rw [IsSymtab] at hcmd
            rw [if_pos hcmd, Option.some.injEq] at hsym
            refine .inl ⟨i, .inl rfl, hcmd, hsym.symm, fun k hk hik => ?_⟩
            rcases hk with rfl | hk
            · omega
            · exact hno k hk
          · refine .inr ⟨?_, fun k hk => ?_⟩
            · rw [IsSymtab] at hcmd
              rwa [if_neg hcmd] at hsym
            · rcases hk with rfl | hk
              · exact hcmd
              · exact hno k hk
      · rintro (⟨j, hj, hsym, rfl, hlast⟩ | ⟨rfl, hno⟩)
        · rcases hj with rfl | hj
          · rw [IsSymtab] at hsym
            rw [if_pos hsym]
            exact .inr ⟨rfl, fun k hk => hlast k (.inr hk) (hlater k hk)⟩
          · exact .inl ⟨j, hj, hsym, rfl, fun k hk hjk => hlast k (.inr hk) hjk⟩
        · have hcmd := hno i (.inl rfl)
          rw [IsSymtab] at hcmd
          rw [if_neg hcmd]
          exact .inr ⟨rfl, fun k hk => hno k (.inr hk)⟩

/-- A name is ended by a NUL in the file. -/
def Terminated (m : MachImage) (name : ℕ) : Prop :=
  ∃ k, name + k < m.size ∧ m.mem (name + k) = 0

lemma inside_cstr {a : ℕ} : m.Inside (m.cstr n a) ↔
    ∀ k < n, (∀ i < k, m.mem (a + i) ≠ 0) → a + k < m.size := by
  induction n generalizing a with
  | zero =>
      rw [cstr]
      exact ⟨fun _ k hk => absurd hk (Nat.not_lt_zero k), fun _ => inside_pure []⟩
  | succ n ih =>
      rw [cstr, inside_bind, inside_u8, value_u8]
      have hshift : ∀ k, a + 1 + k = a + (k + 1) := fun k => by omega
      by_cases hzero : m.mem a = 0
      · simp only [if_pos hzero, inside_pure, and_true]
        refine ⟨fun ha k hk hall => ?_, fun h => h 0 (Nat.succ_pos n) nofun⟩
        cases k with
        | zero => exact ha
        | succ k => exact absurd hzero (hall 0 (Nat.succ_pos k))
      · simp only [if_neg hzero, inside_map, ih]
        constructor
        · rintro ⟨ha, h⟩ k hk hall
          cases k with
          | zero => exact ha
          | succ k =>
              rw [← hshift]
              exact h k (by omega) fun i hi => by
                rw [hshift]
                exact hall (i + 1) (by omega)
        · intro h
          refine ⟨h 0 (Nat.succ_pos n) nofun, fun k hk hall => ?_⟩
          rw [hshift]
          refine h (k + 1) (by omega) fun i hi => ?_
          cases i with
          | zero => exact hzero
          | succ i =>
              rw [← hshift]
              exact hall i (by omega)

/-- A C string is copied from the file exactly if it ends there. -/
lemma inside_cstr_iff {name : ℕ} : m.Inside (m.cstr (2 ^ 64) name) ↔ m.Terminated name := by
  have hfits := m.fits
  rw [inside_cstr]
  constructor
  · intro h
    by_contra hno
    have hall : ∀ k, name + k < m.size → m.mem (name + k) ≠ 0 := fun k hk hz => hno ⟨k, hk, hz⟩
    have := h (m.size - name) (by omega) fun i hi => hall i (by omega)
    omega
  · rintro ⟨k₀, hk₀, hzero⟩ k - hall
    have : k ≤ k₀ := by
      by_contra hlt
      exact hall k₀ (by omega) hzero
    omega

/-- A symbol whose name is copied: it is no debugging symbol, its name begins in the string
table, and it is of interest. -/
def Taken (m : MachImage) (stroff strsize sym : ℕ) : Prop :=
  m.mem (sym + 4) &&& 0xe0 = 0 ∧ (m.word sym).toNat < strsize ∧
    symNameInteresting (m.mem (stroff + (m.word sym).toNat))
      (nlistTypeChar (m.mem (sym + 4))) = true

lemma inside_symsPush {entries : List SymEntry} {addr : Addr} {type : Char} {name : ℕ}
    (h : name < m.size) : m.Inside (m.symsPush entries addr type name) ↔
      (symNameInteresting (m.mem name) type = true → m.Terminated name) := by
  rw [symsPush, inside_bind, inside_u8, value_u8, and_iff_right h]
  by_cases hint : symNameInteresting (m.mem name) type = true
  · rw [if_pos hint, imp_iff_right hint, inside_bind, inside_cstr_iff]
    exact and_iff_left (inside_pure _)
  · rw [if_neg hint]
    exact ⟨fun _ h => absurd h hint, fun _ => inside_pure entries⟩

/-- Symbols that lie in the file are read in it exactly if the names of those taken end in it. -/
lemma inside_symbolLoop {stroff strsize sym : ℕ} {entries : List SymEntry}
    (hsyms : sym + n * 16 ≤ m.size) (hstr : stroff + strsize ≤ m.size) :
    m.Inside (m.symbolLoop stroff strsize n sym entries) ↔
      ∀ i < n, m.Taken stroff strsize (sym + 16 * i) →
        m.Terminated (stroff + (m.word (sym + 16 * i)).toNat) := by
  induction n generalizing sym entries with
  | zero =>
      rw [symbolLoop]
      exact ⟨fun _ i hi => absurd hi (Nat.not_lt_zero i), fun _ => inside_pure entries⟩
  | succ n ih =>
      have hnext : sym + 16 + n * 16 ≤ m.size := by omega
      -- what is asked of the symbols is asked of the first and of the others
      have hsplit : (∀ i < n + 1, m.Taken stroff strsize (sym + 16 * i) →
          m.Terminated (stroff + (m.word (sym + 16 * i)).toNat)) ↔
          (m.Taken stroff strsize sym → m.Terminated (stroff + (m.word sym).toNat)) ∧
            ∀ i < n, m.Taken stroff strsize (sym + 16 + 16 * i) →
              m.Terminated (stroff + (m.word (sym + 16 + 16 * i)).toNat) := by
        have hshift : ∀ i, sym + 16 + 16 * i = sym + 16 * (i + 1) := fun i => by omega
        simp only [hshift]
        constructor
        · exact fun h => ⟨h 0 (by omega), fun i hi => h (i + 1) (by omega)⟩
        · rintro ⟨h0, h⟩ i hi
          cases i with
          | zero => exact h0
          | succ i => exact h i (by omega)
      rw [symbolLoop, inside_bind, inside_u8, value_u8, hsplit, and_iff_right (by omega)]
      by_cases hstab : m.mem (sym + 4) &&& 0xe0 = 0
      · rw [if_neg (not_not.mpr hstab), inside_bind, inside_u32, value_u32,
          and_iff_right (by omega)]
        -- no stab: it is taken if its name lies in the string table and is of interest
        by_cases hstrx : strsize ≤ (m.word sym).toNat
        · have hnot : ¬ m.Taken stroff strsize sym := fun h => by
            have := h.2.1
            omega
          rw [if_pos hstrx, ih hnext]
          simp only [hnot, false_implies, true_and]
        · have htaken : m.Taken stroff strsize sym ↔
              symNameInteresting (m.mem (stroff + (m.word sym).toNat))
                (nlistTypeChar (m.mem (sym + 4))) = true := by
            rw [Taken, and_iff_right hstab, and_iff_right (by omega)]
          rw [if_neg hstrx, inside_bind, inside_u64, and_iff_right (by omega), inside_bind,
            inside_symsPush (by omega), ih hnext, htaken]
      · have hnot : ¬ m.Taken stroff strsize sym := fun h => hstab h.1
        rw [if_pos hstab, ih hnext]
        simp only [hnot, false_implies, true_and]

/-- What is read of a symbol table command, and of the names of the symbols taken, lies in the
file. -/
def SymtabInside (m : MachImage) (symtab : ℕ) : Prop :=
  symtab + 16 ≤ m.size ∧ (m.word (symtab + 12) ≠ 0 →
    (m.word (symtab + 8)).toNat + (m.word (symtab + 12)).toNat * 16 ≤ m.size →
      symtab + 24 ≤ m.size ∧
        ((m.word (symtab + 16)).toNat + (m.word (symtab + 20)).toNat ≤ m.size →
          ∀ i < (m.word (symtab + 12)).toNat,
            m.Taken (m.word (symtab + 16)).toNat (m.word (symtab + 20)).toNat
              ((m.word (symtab + 8)).toNat + 16 * i) →
            m.Terminated ((m.word (symtab + 16)).toNat +
              (m.word ((m.word (symtab + 8)).toNat + 16 * i)).toNat)))

lemma inside_loadSymtab {entries : List SymEntry} {symtab : ℕ} :
    m.Inside (m.loadSymtab entries symtab) ↔ m.SymtabInside symtab := by
  rw [loadSymtab, SymtabInside, inside_bind, inside_u32, value_u32]
  refine and_congr_right fun hin => ?_
  by_cases hzero : m.word (symtab + 12) = 0
  · rw [if_pos hzero]
    exact ⟨fun _ h => absurd hzero h, fun _ => inside_pure none⟩
  rw [if_neg hzero, imp_iff_right hzero, inside_bind, inside_u32, value_u32,
    and_iff_right (by omega)]
  by_cases hsyms : m.size < (m.word (symtab + 8)).toNat + (m.word (symtab + 12)).toNat * 16
  · rw [if_pos hsyms]
    exact ⟨fun _ h => absurd h (by omega), fun _ => inside_pure none⟩
  rw [if_neg hsyms, imp_iff_right (by omega), inside_bind, inside_u32, value_u32, inside_bind,
    inside_u32, value_u32]
  have hboth : ∀ {P : Prop}, symtab + 16 + 4 ≤ m.size ∧ symtab + 20 + 4 ≤ m.size ∧ P ↔
      symtab + 24 ≤ m.size ∧ P := fun {P} =>
    ⟨fun h => ⟨h.2.1, h.2.2⟩, fun h => ⟨by omega, h.1, h.2⟩⟩
  rw [hboth]
  refine and_congr_right fun _ => ?_
  by_cases hstr : m.size < (m.word (symtab + 16)).toNat + (m.word (symtab + 20)).toNat
  · rw [if_pos hstr]
    exact ⟨fun _ h => absurd h (by omega), fun _ => inside_pure none⟩
  rw [if_neg hstr, imp_iff_right (by omega), inside_bind, inside_symbolLoop (by omega) (by omega)]
  exact and_iff_left (inside_pure _)

lemma inside_symsLoadMacho {entries : List SymEntry} : m.Inside (m.symsLoadMacho entries) ↔
    (m.HasHeader → ∀ symtab, m.LastSymtab symtab → m.SymtabInside symtab) := by
  rw [symsLoadMacho, inside_bind, and_iff_right inside_header]
  by_cases h : m.HasHeader
  · rw [header_of_hasHeader h, imp_iff_right h]
    have hlast : ∀ off, (m.lastSymtab (m.word 16).toNat 32 none).value = some off ↔
        m.LastSymtab off := fun off => by
      have hvalue : (m.lastSymtab (m.word 16).toNat (m.commandAt 0) none).value = some off ↔ _ :=
        lastSymtab_eq_some
      simp only [passesFrom_zero, reduceCtorEq, false_and, or_false] at hvalue
      exact hvalue
    simp only [inside_bind, inside_lastSymtab, true_and]
    cases hvalue : (m.lastSymtab (m.word 16).toNat 32 none).value with
    | none =>
        refine ⟨fun _ symtab hs => ?_, fun _ => inside_pure none⟩
        rw [(hlast symtab).mpr hs] at hvalue
        cases hvalue
    | some symtab =>
        simp only [inside_loadSymtab]
        constructor
        · intro hin off hoff
          rw [(hlast off).mpr hoff, Option.some.injEq] at hvalue
          exact hvalue ▸ hin
        · exact fun hall => hall symtab ((hlast symtab).mp hvalue)
  · rw [header_of_not h]
    simp [h]

/-! ### Files that are closed -/

/-- The three readers read only bytes of the file. -/
structure ReadsInside (m : MachImage) (segname sectname : List Byte) (entries : List SymEntry) :
    Prop where
  text : m.Inside m.machoTextVmaddr
  section_ : m.Inside (m.machoFindSection segname sectname)
  symbols : m.Inside (m.symsLoadMacho entries)

/-- What the readers look at beyond the checks they make lies in the file: the name of every
segment up to `__TEXT`, as far as it is compared, and the address of that one; the number of
sections of every segment up to the one that holds the section looked for, the names of the
sections before it, as far as they are compared, and the place of the section; the symbol table
command, and the names of the symbols taken up to their NUL. -/
structure Closed (m : MachImage) (segname sectname : List Byte) : Prop where
  text : m.HasHeader → ∀ i, m.Visits m.IsText i → m.IsSegment (m.commandAt i) →
    m.NameInside (textName.length + 1) (m.commandAt i + 8) textName ∧
      (m.Named (textName.length + 1) (m.commandAt i + 8) textName →
        m.commandAt i + 32 ≤ m.size)
  section_ : m.HasHeader → ∀ i, m.Visits (m.HoldsSection segname sectname) i →
    m.IsSegment (m.commandAt i) → m.commandAt i + 68 ≤ m.size ∧
      ∀ j < (m.word (m.commandAt i + 64)).toNat,
        (∀ k < j, ¬ m.IsSection segname sectname (m.commandAt i + 72 + 80 * k)) →
          m.SectionInside segname sectname (m.commandAt i + 72 + 80 * j)
  symbols : m.HasHeader → ∀ symtab, m.LastSymtab symtab → m.SymtabInside symtab

lemma inside_machoTextVmaddr : m.Inside m.machoTextVmaddr ↔
    (m.HasHeader → ∀ i, m.Visits m.IsText i → m.Inside (m.textSegment (m.commandAt i))) :=
  inside_commands (fun _ => inside_map) fun _ => textSegment_none

lemma inside_machoFindSection {segname sectname : List Byte} :
    m.Inside (m.machoFindSection segname sectname) ↔
      (m.HasHeader → ∀ i, m.Visits (m.HoldsSection segname sectname) i →
        m.Inside (m.sectionSegment segname sectname (m.commandAt i))) :=
  inside_commands (fun _ => Iff.rfl) fun _ => sectionSegment_none

/-- **The readers of Mach-O files** stay in the file exactly if it is closed. -/
theorem readsInside_iff (m : MachImage) (segname sectname : List Byte)
    (entries : List SymEntry) :
    m.ReadsInside segname sectname entries ↔ m.Closed segname sectname := by
  have hin : ∀ {done : ℕ → Prop} {i}, m.Visits done i → m.commandAt i + 4 ≤ m.size :=
    fun {done i} h => by
      have := h.2.1 i le_rfl
      omega
  constructor
  · rintro ⟨htext, hsection, hsymbols⟩
    refine ⟨fun hh i hi => ?_, fun hh i hi => ?_, inside_symsLoadMacho.mp hsymbols⟩
    · exact (inside_textSegment.mp (inside_machoTextVmaddr.mp htext hh i hi)).2
    · exact (inside_sectionSegment.mp (inside_machoFindSection.mp hsection hh i hi)).2
  · rintro ⟨htext, hsection, hsymbols⟩
    refine ⟨inside_machoTextVmaddr.mpr fun hh i hi => ?_,
      inside_machoFindSection.mpr fun hh i hi => ?_, inside_symsLoadMacho.mpr hsymbols⟩
    · exact inside_textSegment.mpr ⟨hin hi, htext hh i hi⟩
    · exact inside_sectionSegment.mpr ⟨hin hi, hsection hh i hi⟩

/-- A file that ends with the eight bytes of the `load_command` of a segment. -/
def cutSegment : MachImage where
  mem := fun i => ([0xcf, 0xfa, 0xed, 0xfe, 0, 0, 0, 0, 0, 0, 0, 0, 0, 0, 0, 0, 1, 0, 0, 0, 0, 0, 0,
    0, 0, 0, 0, 0, 0, 0, 0, 0, 0x19, 0, 0, 0, 8, 0, 0, 0] : List Byte).getD i 0
  size := 40
  fits := by decide

/-- The name of the segment is read behind the file. -/
theorem cutSegment_outside : 40 ∈ cutSegment.machoTextVmaddr.reads ∧
    ¬ ∀ (m : MachImage) (segname sectname : List Byte) (entries : List SymEntry),
      m.ReadsInside segname sectname entries := by
  have hread : 40 ∈ cutSegment.machoTextVmaddr.reads := by decide +kernel
  refine ⟨hread, fun h => ?_⟩
  have hlt : 40 < cutSegment.size := (h cutSegment [] [] []).text 40 hread
  exact absurd hlt (by decide)

end MachImage

end Cdbg
