import Cdbg.Control.Start
import Mathlib.Logic.Function.Basic

/-!
The run target as `cdbg_t` stores it: fixed slots for the words, the vector of pointers to
them that is passed to `posix_spawn`, and their number.
-/

namespace Cdbg

open CString

lemma length_truncate_lt (s : Str) : (truncate maxPath s).length < maxPath := by
  rw [truncate, List.length_take]
  have : maxPath = 1024 := rfl
  omega

/-- What a slot of `run_argv_storage` holds. -/
@[ext] structure SlotText where
  text : Str
  fits : text.length < maxPath

/-- What `snprintf` leaves of a word in a slot. -/
def SlotText.cut (s : Str) : SlotText := ⟨truncate maxPath s, length_truncate_lt s⟩

/-- The fields `run_argv_storage`, `run_argv` and `run_argc`. A pointer is null or points to
one of the slots. -/
@[ext] structure RunTarget where
  runArgvStorage : Fin maxRunArgs → SlotText
  runArgv : Fin (maxRunArgs + 1) → Option (Fin maxRunArgs)
  runArgc : Fin (maxRunArgs + 1)

namespace RunTarget

/-- The zeroed fields. -/
def init : RunTarget where
  runArgvStorage _ := .cut []
  runArgv _ := none
  runArgc := 0

lemma succ_argc_lt {argc : Fin (maxRunArgs + 1)} (h : argc.val < maxRunArgs) :
    argc.val + 1 < maxRunArgs + 1 := Nat.succ_lt_succ h

/-- The loop of `cdbg_set_run_target` from its pass `argc` on, at the words that are left. -/
def storeFrom (t : RunTarget) (argc : Fin (maxRunArgs + 1)) : List Str → ℤ × RunTarget
  | [] => (0, { t with runArgv := Function.update t.runArgv argc none, runArgc := argc })
  | s :: argv =>
      if h : argc.val < maxRunArgs then
        storeFrom
          { t with
            runArgvStorage := Function.update t.runArgvStorage ⟨argc, h⟩ (.cut s)
            runArgv := Function.update t.runArgv argc (some ⟨argc, h⟩) }
          ⟨argc + 1, succ_argc_lt h⟩ argv
      else (-1, t)

/-- `cdbg_set_run_target`. The list of the words of `argv` is empty if `argv[0]` is null. -/
def setRunTarget (t : RunTarget) (argv : List Str) : ℤ × RunTarget :=
  if argv = [] then (-1, t) else t.storeFrom 0 argv

/-- The strings the entries of `run_argv` point to. -/
def words (t : RunTarget) : List (Option Str) :=
  List.ofFn fun k => (t.runArgv k).map fun i => (t.runArgvStorage i).text

end RunTarget

end Cdbg
