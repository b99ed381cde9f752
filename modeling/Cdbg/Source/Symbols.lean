import Cdbg.Lib.Memory
import Cdbg.Lib.CString

/-!
`syms.c`, the symbol table of the program and its search by name.
-/

namespace Cdbg

open CString

/-- `CDBG_SYM_MAX_NAME`. -/
def symMaxName : ℕ := 256

/-- `cdbg_sym_entry_t`. -/
structure SymEntry where
  address : Addr
  type : Char
  name : Str
  deriving DecidableEq, Repr

/-- Whether a symbol has a definition with an address. -/
def SymEntry.isDefined (e : SymEntry) : Bool :=
  e.address ≠ 0 && e.type ≠ 'U' && e.type ≠ 'u'

/-- `cdbg_syms_t`. -/
structure SymTable where
  entries : List SymEntry
  linkBase : Addr
  slide : Addr
  deriving DecidableEq, Repr

namespace SymTable

/-- The table after `cdbg_syms_free`. -/
def empty : SymTable := ⟨[], 0, 0⟩

/-- `cdbg_syms_runtime_addr`. -/
def runtimeAddr (syms : SymTable) (linkAddr : Addr) : Addr := linkAddr + syms.slide

/-- `cdbg_syms_lookup_name`: the first symbol of the name, a leading `_` added
unless the name has one. -/
def lookupName (syms : SymTable) (name : Str) : Option SymEntry :=
  let lookup := if name.head? = some '_' then name else truncate symMaxName ('_' :: name)
  syms.entries.find? fun e => e.name = lookup

end SymTable

end Cdbg
