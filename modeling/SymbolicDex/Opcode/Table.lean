import SymbolicDex.Opcode.Info

/- The opcodes of one runtime version, by value. -/
namespace SymbolicDex

/-- ART version shipped with an API level; `noArt` for the Dalvik releases. -/
def artOfApi (api : Int) : Int :=
  if 29 ≤ api then 170
  else if api = 28 then 138
  else if api = 27 then 131
  else if api = 26 then 124
  else if api = 25 then 88
  else if api = 24 then 79
  else if api = 23 then 64
  else if api = 22 then 45
  else if api = 21 then 39
  else noArt

/-- The version pair that decides which opcodes exist and how they are
    encoded. -/
structure OpcodeTable where
  api : Int
  art : Int
deriving DecidableEq

namespace OpcodeTable

/-- An absent ART version is the one shipped with the API level. -/
def ofVersions (api art : Int) : OpcodeTable :=
  ⟨api, if art = noArt then artOfApi api else art⟩

def ofApi (api : Int) : OpcodeTable :=
  ofVersions api noArt

def isArt (t : OpcodeTable) : Bool :=
  t.art ≠ noArt

/-- Value that encodes the opcode on this runtime. -/
def value? (t : OpcodeTable) (o : Opcode) : Option Nat :=
  o.info.encoding.value? t.api t.art

/-- Opcode that a value encodes on this runtime: of several opcodes with the
    value, the last one. -/
def opcode? (t : OpcodeTable) (value : Nat) : Option Opcode :=
  Opcode.all.reverse.find? fun o => t.value? o == some value

end OpcodeTable

end SymbolicDex
