import Cdbg.Control.RunTarget
import Cdbg.Lib.Prog

/-!
Setting the run target.

The words are copied before their number is known and a word is cut down to its slot, so a
target is set exactly or not at all only where nothing is lost (`Fits`) or, of too many words,
where the slots already hold what they are overwritten with (`Prefilled`).
-/

namespace Cdbg

open CString

namespace RunTarget

variable {t : RunTarget} {argv : List Str}

/-- `run_argv` is `argv`, with its terminating null pointer, and `run_argc` its length. -/
def Holds (t : RunTarget) (argv : List Str) : Prop :=
  argv.map some ++ [none] <+: t.words ∧ t.runArgc.val = argv.length

/-- The target is set as asked, or it is the one before. -/
def SetExactly (t : RunTarget) (argv : List Str) : Prop :=
  (t.setRunTarget argv).1 = 0 ∧ (t.setRunTarget argv).2.Holds argv ∨
    (t.setRunTarget argv).1 = -1 ∧ (t.setRunTarget argv).2 = t

/-- There is a slot for every word, and a byte of it for every character. -/
def Fits (argv : List Str) : Prop := argv.length ≤ maxRunArgs ∧ ∀ s ∈ argv, s.length < maxPath

/-- There are too many words, and the first of them are in the slots as they are. -/
def Prefilled (t : RunTarget) (argv : List Str) : Prop :=
  maxRunArgs < argv.length ∧ ∀ i : Fin maxRunArgs, t.runArgv i.castSucc = some i ∧
    argv[i.val]?.map SlotText.cut = some (t.runArgvStorage i)

/-! ### The loop -/

lemma storeFrom_fst (t : RunTarget) (argc : Fin (maxRunArgs + 1)) (argv : List Str) :
    (t.storeFrom argc argv).1 = if argc + argv.length ≤ maxRunArgs then 0 else -1 := by
  fun_induction storeFrom t argc argv with
  | case1 t argc => rw [if_pos (by simpa using Nat.lt_succ_iff.mp argc.2)]
  | case2 t argc s argv h ih =>
      rw [ih, List.length_cons, Nat.add_right_comm, Nat.add_assoc]
  | case3 t argc s argv h =>
      rw [if_neg]
      rw [List.length_cons]
      omega

lemma storeFrom_runArgc (t : RunTarget) (argc : Fin (maxRunArgs + 1)) (argv : List Str) :
    (t.storeFrom argc argv).2.runArgc.val =
      if argc + argv.length ≤ maxRunArgs then argc + argv.length else t.runArgc.val := by
  fun_induction storeFrom t argc argv with
  | case1 t argc => rw [if_pos (by simpa using Nat.lt_succ_iff.mp argc.2)]; rfl
  | case2 t argc s argv h ih =>
      rw [ih, List.length_cons, Nat.add_right_comm, Nat.add_assoc]
  | case3 t argc s argv h =>
      rw [if_neg]
      rw [List.length_cons]
      omega

/-- A slot that the loop comes to takes the word of its pass. -/
lemma storeFrom_storage (t : RunTarget) (argc : Fin (maxRunArgs + 1)) (argv : List Str)
    (i : Fin maxRunArgs) :
    (t.storeFrom argc argv).2.runArgvStorage i =
      if i.val < argc then t.runArgvStorage i
      else argv[i.val - argc]?.elim (t.runArgvStorage i) SlotText.cut := by
  fun_induction storeFrom t argc argv with
  | case1 t argc => simp
  | case2 t argc s argv h ih =>
      rw [ih]
      rcases lt_trichotomy i.val argc.val with hlt | heq | hgt
      · have hne : i ≠ ⟨argc, h⟩ := Fin.ne_of_val_ne hlt.ne
        simp only [if_pos hlt, if_pos (Nat.lt_succ_of_lt hlt), Function.update_of_ne hne]
      · obtain rfl : i = ⟨argc, h⟩ := Fin.ext heq
        simp
      · have hne : i ≠ ⟨argc, h⟩ := Fin.ne_of_val_ne hgt.ne'
        have hstep : i.val - argc = i.val - (argc + 1) + 1 := by omega
        rw [if_neg (Nat.not_lt.mpr hgt), if_neg hgt.not_gt, hstep, List.getElem?_cons_succ]
        simp only [Function.update_of_ne hne]
  | case3 t argc s argv h => rw [if_pos (lt_of_lt_of_le i.2 (not_lt.mp h))]

/-- The entries that the loop comes to point to the slots, and the one behind the last word is
null. -/
lemma storeFrom_runArgv (t : RunTarget) (argc : Fin (maxRunArgs + 1)) (argv : List Str)
    (k : Fin (maxRunArgs + 1)) :
    (t.storeFrom argc argv).2.runArgv k =
      if k.val < argc then t.runArgv k
      else if h : k.val < maxRunArgs ∧ k.val < argc + argv.length then some ⟨k, h.1⟩
      else if k.val = argc + argv.length then none else t.runArgv k := by
  fun_induction storeFrom t argc argv with
  | case1 t argc =>
      rcases lt_trichotomy k argc with hlt | rfl | hgt
      · simp [hlt, hlt.ne]
      · simp
      · have hval : argc.val < k.val := hgt
        simp [hval.ne', hgt.ne', hval.not_gt]
  | case2 t argc s argv h ih =>
      rw [ih, List.length_cons, Nat.add_right_comm, Nat.add_assoc]
      rcases lt_trichotomy k argc with hlt | rfl | hgt
      · have hval : k.val < argc.val := hlt
        rw [if_pos (Nat.lt_succ_of_lt hval), if_pos hval]
        simp only [Function.update_of_ne hlt.ne]
      · simp [h]
      · have hval : argc.val < k.val := hgt
        rw [if_neg (Nat.not_lt.mpr hval), if_neg hval.not_gt]
        simp only [Function.update_of_ne hgt.ne']
  | case3 t argc s argv h =>
      rcases Nat.lt_or_ge k.val argc.val with hlt | hge
      · rw [if_pos hlt]
      · have hargc : maxRunArgs ≤ argc.val := not_lt.mp h
        rw [if_neg (not_lt.mpr hge), dif_neg fun hk => (hargc.trans hge).not_gt hk.1, if_neg]
        rw [List.length_cons]
        omega

/-! ### The two ends of it -/

lemma setRunTarget_of_ne_nil (h : argv ≠ []) : t.setRunTarget argv = t.storeFrom 0 argv := if_neg h

lemma getElem?_words {k : ℕ} (hk : k < maxRunArgs + 1) :
    t.words[k]? = some ((t.runArgv ⟨k, hk⟩).map fun i => (t.runArgvStorage i).text) := by
  rw [words, List.getElem?_ofFn, dif_pos hk]

lemma storeFrom_zero_fst (t : RunTarget) (argv : List Str) :
    (t.storeFrom 0 argv).1 = if argv.length ≤ maxRunArgs then 0 else -1 := by
  simpa using storeFrom_fst t 0 argv

lemma storeFrom_zero_runArgc (t : RunTarget) (argv : List Str) :
    (t.storeFrom 0 argv).2.runArgc.val =
      if argv.length ≤ maxRunArgs then argv.length else t.runArgc.val := by
  simpa using storeFrom_runArgc t 0 argv

lemma storeFrom_zero_storage (t : RunTarget) (argv : List Str) (i : Fin maxRunArgs) :
    (t.storeFrom 0 argv).2.runArgvStorage i =
      argv[i.val]?.elim (t.runArgvStorage i) SlotText.cut := by
  simpa using storeFrom_storage t 0 argv i

lemma storeFrom_zero_runArgv (t : RunTarget) (argv : List Str) (k : Fin (maxRunArgs + 1)) :
    (t.storeFrom 0 argv).2.runArgv k =
      if h : k.val < maxRunArgs ∧ k.val < argv.length then some ⟨k, h.1⟩
      else if k.val = argv.length then none else t.runArgv k := by
  simpa using storeFrom_runArgv t 0 argv k

lemma getElem?_words_storeFrom_of_lt {k : ℕ} (hk : k < maxRunArgs) (hlen : k < argv.length) :
    (t.storeFrom 0 argv).2.words[k]? = some (some (truncate maxPath argv[k])) := by
  rw [getElem?_words (Nat.lt_succ_of_lt hk), storeFrom_zero_runArgv, dif_pos ⟨hk, hlen⟩,
    Option.map_some, storeFrom_zero_storage, List.getElem?_eq_getElem hlen]
  rfl

lemma getElem?_words_storeFrom_length (hlen : argv.length ≤ maxRunArgs) :
    (t.storeFrom 0 argv).2.words[argv.length]? = some none := by
  rw [getElem?_words (Nat.lt_succ_of_le hlen), storeFrom_zero_runArgv,
    dif_neg fun h => lt_irrefl _ h.2, if_pos rfl, Option.map_none]

/-- If there are enough slots, the words are stored as they are cut. -/
lemma prefix_words_storeFrom (hlen : argv.length ≤ maxRunArgs) :
    argv.map (fun s => some (truncate maxPath s)) ++ [none] <+: (t.storeFrom 0 argv).2.words := by
  rw [List.prefix_iff_getElem?]
  intro k hk
  rw [List.length_append, List.length_map, List.length_singleton] at hk
  rcases Nat.lt_or_ge k argv.length with hlt | hge
  · rw [getElem?_words_storeFrom_of_lt (hlt.trans_le hlen) hlt, List.getElem_append_left (by simpa),
      List.getElem_map]
  · obtain rfl : k = argv.length := by omega
    rw [getElem?_words_storeFrom_length hlen]
    simp

lemma truncate_eq_self_iff {s : Str} : truncate maxPath s = s ↔ s.length < maxPath := by
  have hpos : 0 < maxPath := by decide
  rw [truncate, List.take_eq_self_iff, Nat.le_sub_one_iff_lt hpos]

/-- Where there are enough slots, the words are stored if none of them is cut. -/
lemma holds_storeFrom_iff (hlen : argv.length ≤ maxRunArgs) :
    (t.storeFrom 0 argv).2.Holds argv ↔ ∀ s ∈ argv, s.length < maxPath := by
  have hargc : (t.storeFrom 0 argv).2.runArgc.val = argv.length := by
    rw [storeFrom_zero_runArgc, if_pos hlen]
  have hcut := prefix_words_storeFrom (t := t) hlen
  calc (t.storeFrom 0 argv).2.Holds argv
      ↔ argv.map some ++ [none] <+: (t.storeFrom 0 argv).2.words := and_iff_left hargc
    _ ↔ argv.map some ++ [none] = argv.map (fun s => some (truncate maxPath s)) ++ [none] :=
        ⟨fun h => (List.prefix_of_prefix_length_le h hcut (by simp)).eq_of_length (by simp),
          fun h => h ▸ hcut⟩
    _ ↔ ∀ s ∈ argv, s.length < maxPath := by
        rw [List.append_cancel_right_eq, List.map_inj_left]
        simp only [Option.some.injEq, eq_comm (b := truncate maxPath _), truncate_eq_self_iff]

/-- Of too many words nothing is changed if the first of them are in the slots. -/
lemma storeFrom_snd_eq_iff (hlen : maxRunArgs < argv.length) :
    (t.storeFrom 0 argv).2 = t ↔ t.Prefilled argv := by
  have hword (i : Fin maxRunArgs) : (t.storeFrom 0 argv).2.runArgv i.castSucc = some i ∧
      argv[i.val]?.map SlotText.cut = some ((t.storeFrom 0 argv).2.runArgvStorage i) := by
    have hi : i.val < argv.length := i.2.trans hlen
    rw [storeFrom_zero_runArgv, storeFrom_zero_storage, List.getElem?_eq_getElem hi]
    exact ⟨dif_pos ⟨i.2, hi⟩, rfl⟩
  constructor
  · intro h
    rw [h] at hword
    exact ⟨hlen, hword⟩
  · rintro ⟨-, hsame⟩
    refine RunTarget.ext (funext fun i => ?_) (funext fun k => ?_) (Fin.ext ?_)
    · exact Option.some.inj ((hword i).2.symm.trans (hsame i).2)
    · rcases Fin.eq_castSucc_or_eq_last k with ⟨i, rfl⟩ | rfl
      · exact (hword i).1.trans (hsame i).1.symm
      · rw [storeFrom_zero_runArgv, dif_neg fun h => lt_irrefl _ h.1, Fin.val_last, if_neg hlen.ne]
    · rw [storeFrom_zero_runArgc, if_neg hlen.not_ge]

/-- A target is set as asked or is left alone if all words fit in their slots, or if the first
of too many words are in them as they are. -/
theorem setExactly_iff (t : RunTarget) (argv : List Str) :
    t.SetExactly argv ↔ Fits argv ∨ t.Prefilled argv := by
  rcases eq_or_ne argv [] with rfl | hne
  · exact iff_of_true (.inr ⟨rfl, rfl⟩) (.inl ⟨Nat.zero_le _, by simp⟩)
  rw [SetExactly, setRunTarget_of_ne_nil hne, storeFrom_zero_fst]
  rcases Nat.lt_or_ge maxRunArgs argv.length with hmany | hlen
  · have hfits : ¬ Fits argv := fun h => hmany.not_ge h.1
    rw [if_neg hmany.not_ge, storeFrom_snd_eq_iff hmany]
    simp [hfits]
  · have hpre : ¬ t.Prefilled argv := fun h => h.1.not_ge hlen
    rw [if_pos hlen, holds_storeFrom_iff hlen]
    simp [hpre, Fits, hlen]

/-- One word too many, and one character too many. -/
theorem not_setExactly_init :
    ¬ init.SetExactly (List.replicate 65 ['a']) ∧ ¬ init.SetExactly [List.replicate 1024 'a'] := by
  constructor
  · have hmany : maxRunArgs < (List.replicate 65 ['a']).length := by decide
    rintro (⟨h, -⟩ | ⟨-, h⟩)
    · rw [setRunTarget_of_ne_nil (by decide), storeFrom_zero_fst, if_neg hmany.not_ge] at h
      cases h
    · rw [setRunTarget_of_ne_nil (by decide), storeFrom_snd_eq_iff hmany] at h
      cases (h.2 ⟨0, by decide⟩).1
  · have hlen : [List.replicate 1024 'a'].length ≤ maxRunArgs := by decide
    rintro (⟨-, h⟩ | ⟨h, -⟩)
    · rw [setRunTarget_of_ne_nil (List.cons_ne_nil _ _), holds_storeFrom_iff hlen] at h
      have hlt := h _ List.mem_cons_self
      rw [List.length_replicate] at hlt
      exact lt_irrefl _ hlt
    · rw [setRunTarget_of_ne_nil (List.cons_ne_nil _ _), storeFrom_zero_fst, if_pos hlen] at h
      cases h

/-! ### The words alone -/

/-- The first `run_argc` entries are the words of the debugger. -/
def Represents (t : RunTarget) (d : Dbg) : Prop := t.words.take t.runArgc = d.runArgv.map some

lemma length_words : t.words.length = maxRunArgs + 1 := List.length_ofFn

lemma Represents.length_eq {d : Dbg} (h : t.Represents d) : d.runArgv.length = t.runArgc := by
  have hlen := congrArg List.length h
  rw [List.length_take, length_words, List.length_map] at hlen
  omega

lemma take_words_storeFrom {n : ℕ} (hn : n ≤ maxRunArgs) (hlen : n ≤ argv.length) :
    (t.storeFrom 0 argv).2.words.take n = ((argv.take n).map (truncate maxPath)).map some := by
  refine List.ext_getElem? fun k => ?_
  rw [List.getElem?_take, List.getElem?_map, List.getElem?_map, List.getElem?_take]
  rcases Nat.lt_or_ge k n with hk | hk
  · rw [if_pos hk, if_pos hk, getElem?_words_storeFrom_of_lt (hk.trans_le hn) (hk.trans_le hlen),
      List.getElem?_eq_getElem (hk.trans_le hlen)]
    rfl
  · rw [if_neg hk.not_gt, if_neg hk.not_gt]
    rfl

/-- `cdbg_set_run_target` does to the words what it does to the slots and the pointers. -/
theorem represents_setRunTarget {σ : Type} {w : World σ} (h : t.Represents w.dbg) :
    (Cdbg.setRunTarget argv w).value = some (t.setRunTarget argv).1 ∧
      (t.setRunTarget argv).2.Represents (Cdbg.setRunTarget argv w).final.dbg := by
  rcases eq_or_ne argv [] with rfl | hne
  · exact ⟨rfl, h⟩
  rw [setRunTarget_of_ne_nil hne, storeFrom_zero_fst, Cdbg.setRunTarget, if_neg hne, Represents,
    storeFrom_zero_runArgc]
  rcases Nat.lt_or_ge maxRunArgs argv.length with hmany | hlen
  · have hargc : t.runArgc.val ≤ maxRunArgs := Nat.lt_succ_iff.mp t.runArgc.2
    rw [if_pos hmany, if_neg hmany.not_ge, if_neg hmany.not_ge,
      take_words_storeFrom hargc (hargc.trans hmany.le), ← h.length_eq]
    exact ⟨rfl, rfl⟩
  · rw [if_neg hlen.not_gt, if_pos hlen, if_pos hlen, take_words_storeFrom hlen le_rfl,
      List.take_length]
    exact ⟨rfl, rfl⟩

end RunTarget

end Cdbg
