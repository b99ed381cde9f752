import Cdbg.Control.Coherent
import Cdbg.Control.RunTarget
import Cdbg.Control.Walk
import Cdbg.Dwarf.LineUnit
import Cdbg.Dwarf.Sequence
import Cdbg.Dwarf.Show
import Cdbg.Laws.Address
import Cdbg.Laws.Announced
import Cdbg.Laws.ArmAll
import Cdbg.Laws.Assignment
import Cdbg.Laws.Attribution
import Cdbg.Laws.CodeImage
import Cdbg.Laws.DecoderRefines
import Cdbg.Laws.Deletion
import Cdbg.Laws.Exit
import Cdbg.Laws.ExitReport
import Cdbg.Laws.FileLine
import Cdbg.Laws.Frames
import Cdbg.Laws.Frozen
import Cdbg.Laws.FunctionBreak
import Cdbg.Laws.Grammar
import Cdbg.Laws.HitLocation
import Cdbg.Laws.Identifiers
import Cdbg.Laws.Indirection
import Cdbg.Laws.Interrupt
import Cdbg.Laws.Leb128
import Cdbg.Laws.LineLoad
import Cdbg.Laws.LineLookup
import Cdbg.Laws.LineNumbers
import Cdbg.Laws.LineProgram
import Cdbg.Laws.LineUnit4
import Cdbg.Laws.LineUnit5
import Cdbg.Laws.LocalDump
import Cdbg.Laws.MachO
import Cdbg.Laws.OpcodeRows
import Cdbg.Laws.Operators
import Cdbg.Laws.Parentheses
import Cdbg.Laws.Progress
import Cdbg.Laws.Prompt
import Cdbg.Laws.RegisterLens
import Cdbg.Laws.RegisterNames
import Cdbg.Laws.Restart
import Cdbg.Laws.Resume
import Cdbg.Laws.RoundTrip
import Cdbg.Laws.RunTarget
import Cdbg.Laws.Selected
import Cdbg.Laws.SequenceLookup
import Cdbg.Laws.SetWidth
import Cdbg.Laws.ShowGlobals
import Cdbg.Laws.SignedExpr
import Cdbg.Laws.StepLine
import Cdbg.Laws.StructDump
import Cdbg.Laws.StructNames
import Cdbg.Laws.Subscript
import Cdbg.Laws.Survival
import Cdbg.Laws.SymbolLoad
import Cdbg.Laws.Thaw
import Cdbg.Laws.Watch
import Cdbg.Laws.WatchBytes
import Cdbg.Lib.ByteNumber
import Cdbg.Lib.CInt
import Cdbg.Lib.CString
import Cdbg.Lib.Extremum
import Cdbg.Lib.Firsts
import Cdbg.Lib.Memory
import Cdbg.Lib.Numeral
import Cdbg.Lib.Overlay
import Cdbg.Lib.Prog
import Cdbg.Lib.Reader
import Cdbg.Lib.Removal
import Cdbg.Lib.Table
import Cdbg.Machine.Execution
import Cdbg.Machine.World
import Cdbg.Repl.Listing
import Cdbg.Repl.Print
import Cdbg.Source.LineUnit
import Cdbg.Source.MachO
