import Cdbg.Dwarf.Die

/-!
Where the variables of a program are declared: subprograms, their blocks, and the variables in
them that are visible at a program counter.

A subprogram lists its parameters and variables first and its blocks behind them, and so does
each block. A block has a range of its own.
-/

namespace Cdbg

open CString

namespace DieHead

/-- Whether the range of an entry covers a program counter. -/
def covers (pc : Addr) (h : DieHead) : Bool :=
  pcInRange pc ((h.get Attr.lowPc?).getD 0) ((h.get Attr.highPc?).getD 0)

/-- Whether an entry declares a variable or a parameter. -/
def isVariable (h : DieHead) : Bool := h.tag = .variable_ || h.tag = .formalParameter

/-- The variable that an entry declares, as far as it can be read. -/
def var (h : DieHead) : VarInfo :=
  let place := (h.get Attr.place?).bind Place.read
  { VarInfo.zero with
    name := truncate 128 ((h.get Attr.name?).getD [])
    type := truncate 128 ((h.get Attr.type?).getD [])
    base := (place.map Prod.fst).getD .fb
    fbregOffset := (place.map Prod.snd).getD 0
    hasLocation := place.isSome }

/-- The entry of a block with its range. -/
structure IsBlock (h : DieHead) : Prop where
  tag : h.tag = .lexicalBlock
  low : (h.get Attr.lowPc?).isSome = true
  high : (h.get Attr.highPc?).isSome = true

lemma IsBlock.isVariable {h : DieHead} (hh : h.IsBlock) : h.isVariable = false := by
  rw [DieHead.isVariable, hh.tag]
  rfl

/-- An entry that is no subprogram and no block, and has no range. -/
structure IsSimple (h : DieHead) : Prop where
  subprogram : h.tag ≠ .subprogram
  block : h.tag ≠ .lexicalBlock
  low : h.get Attr.lowPc? = none
  high : h.get Attr.highPc? = none

end DieHead

/-! ### Visible variables -/

mutual

/-- The variables that a tree in a subprogram declares where the program counter is visible:
in the blocks that cover it, and where none is entered, if the surrounding does. -/
def Die.locals (pc : Addr) (visible : Bool) : Die → List DieHead
  | .mk h none => if h.isVariable && visible then [h] else []
  | .mk h (some cs) =>
      (if h.isVariable && visible then [h] else []) ++
        Die.localsList pc (if h.tag = .lexicalBlock then h.covers pc else visible) cs

/-- The variables that a list of trees declares. -/
def Die.localsList (pc : Addr) (visible : Bool) : List Die → List DieHead
  | [] => []
  | d :: ds => d.locals pc visible ++ Die.localsList pc visible ds

end

mutual

/-- The variables that the subprograms of a tree declare where the program counter is
visible. -/
def Die.visibleLocals (pc : Addr) : Die → List DieHead
  | .mk _ none => []
  | .mk h (some cs) =>
      if h.tag = .subprogram then Die.localsList pc (h.covers pc) cs
      else Die.visibleLocalsList pc cs

/-- The variables that the subprograms of a list of trees declare. -/
def Die.visibleLocalsList (pc : Addr) : List Die → List DieHead
  | [] => []
  | d :: ds => d.visibleLocals pc ++ Die.visibleLocalsList pc ds

end

/-- The variables that are visible at a program counter. -/
def DumpUnit.visibleLocals (pc : Addr) (us : List DumpUnit) : List DieHead :=
  us.flatMap fun u => u.root.visibleLocals pc

/-! ### The order of declarations -/

mutual

/-- A tree of simple entries. -/
def Die.Simple : Die → Prop
  | .mk h none => h.IsSimple
  | .mk h (some cs) => h.IsSimple ∧ Die.SimpleList cs

/-- A list of such trees. -/
def Die.SimpleList : List Die → Prop
  | [] => True
  | d :: ds => d.Simple ∧ Die.SimpleList ds

end

mutual

/-- A block, in which declarations come before blocks. -/
def Die.Block : Die → Prop
  | .mk h none => h.IsBlock
  | .mk h (some cs) => h.IsBlock ∧ Die.Body cs

/-- Simple entries, and behind them blocks. -/
def Die.Body : List Die → Prop
  | [] => True
  | d :: ds => d.Simple ∧ Die.Body ds ∨ d.Block ∧ Die.Blocks ds

/-- A list of blocks. -/
def Die.Blocks : List Die → Prop
  | [] => True
  | d :: ds => d.Block ∧ Die.Blocks ds

end

mutual

/-- A tree whose subprograms declare their variables before their blocks. -/
def Die.Scoped : Die → Prop
  | .mk _ none => True
  | .mk h (some cs) => if h.tag = .subprogram then Die.Body cs else Die.ScopedList cs

/-- A list of such trees. -/
def Die.ScopedList : List Die → Prop
  | [] => True
  | d :: ds => d.Scoped ∧ Die.ScopedList ds

end

end Cdbg
