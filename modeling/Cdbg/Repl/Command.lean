import Cdbg.Lib.CString

/-!
`command.l`, `command.y` and `command_ast.h`: the commands of the debugger and how
a line of input is read as one.

The first word of the line selects the command. What follows it is taken whole
(`rawline`), cut into words (`tokens`) or ignored, depending on the command; words
beyond those a command takes are ignored too, because the grammar's action has run
before the parser meets them.
-/

namespace Cdbg

open CString

/-- `CDBG_MAX_CMD`. -/
def maxCmd : ℕ := 256

/-- `cdbg_watch_kind_t`. -/
inductive WatchKind
  | read
  | write
  | access
  deriving DecidableEq, Repr

/-- `cdbg_command_t`: the kind of a command with the arguments it carries. -/
inductive Command
  | unknown (text : Str)
  | empty
  | help (arg1 : Option Str)
  | run (arg1 : Option Str)
  | continue_
  | step
  | si
  | next
  | up
  | regs
  | print (fmt : Option Char) (arg1 : Option Str)
  | set (arg1 : Option Str)
  | show_ (arg1 : Option Str)
  | tb
  | leaks
  | break_ (arg1 : Option Str)
  | del (arg1 : Option Str)
  | watch (kind : WatchKind) (arg1 : Option Str)
  | delwatch (arg1 : Option Str)
  | dis (arg1 : Option Str)
  | list (arg1 : Option Str)
  | lines (arg1 : Option Str)
  | lists (arg1 : Option Str)
  | syms (arg1 : Option Str)
  | x (arg1 arg2 : Option Str)
  | kill
  | quit
  | thread (arg1 : Option Str)
  deriving DecidableEq, Repr

namespace Command

/-- The blanks between words. -/
def isBlank (c : Char) : Bool := c = ' ' || c = '\t'

/-- `opt_rawline`: the rest of the line, unless it is blank. -/
def rawline (rest : Str) : Option Str := if rest.all isBlank then none else some rest

/-- The words of the rest of the line. -/
def tokens (rest : Str) : List Str := strtok rest

/-- The rule of the `print/` and `p/` keywords: the character after the slash. -/
def printFmt (keyword word : Str) : Option (Option Char) :=
  if keyword.isPrefixOf word then some (word.drop keyword.length).head? else none

/-- The command a keyword selects, given the rest of the line. -/
def ofWord (word rest : Str) : Command :=
  match printFmt "print/".toList word with
  | some fmt => .print fmt (rawline rest)
  | none =>
  match printFmt "p/".toList word with
  | some fmt => .print fmt (rawline rest)
  | none =>
  if word = "print".toList ∨ word = "p".toList then .print none (rawline rest)
  else if word = "help".toList ∨ word = "h".toList then .help (rawline rest)
  else if word = "run".toList then .run (rawline rest)
  else if word = "set".toList then .set (rawline rest)
  else if word = "show".toList then .show_ (rawline rest)
  else if word = "del".toList ∨ word = "delete".toList then .del (rawline rest)
  else if word = "watch".toList then .watch .write (rawline rest)
  else if word = "rwatch".toList then .watch .read (rawline rest)
  else if word = "awatch".toList then .watch .access (rawline rest)
  else if word = "delwatch".toList ∨ word = "dw".toList then .delwatch (rawline rest)
  else if word = "dis".toList then .dis (rawline rest)
  else if word = "list".toList ∨ word = "l".toList then .list (rawline rest)
  else if word = "break".toList ∨ word = "b".toList then .break_ (tokens rest).head?
  else if word = "x".toList then .x (tokens rest)[0]? (tokens rest)[1]?
  else if word = "lines".toList then .lines (tokens rest).head?
  else if word = "lists".toList then .lists (tokens rest).head?
  else if word = "syms".toList ∨ word = "sym".toList then .syms (tokens rest).head?
  else if word = "thread".toList then .thread (tokens rest).head?
  else if word = "continue".toList ∨ word = "c".toList then .continue_
  else if word = "step".toList ∨ word = "s".toList then .step
  else if word = "si".toList then .si
  else if word = "next".toList ∨ word = "n".toList then .next
  else if word = "up".toList then .up
  else if word = "regs".toList ∨ word = "r".toList then .regs
  else if word = "tb".toList then .tb
  else if word = "leaks".toList then .leaks
  else if word = "kill".toList then .kill
  else if word = "quit".toList ∨ word = "q".toList then .quit
  else .unknown word

/-- `cdbg_command_parse`. -/
def parse (line : Str) : Command :=
  let s := line.dropWhile isBlank
  let word := s.takeWhile fun c => ! isBlank c
  if word = [] then .empty else ofWord word (s.drop word.length)

end Command

end Cdbg
