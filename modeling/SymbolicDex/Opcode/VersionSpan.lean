/- Runtime versions over which an opcode has a value. Dalvik runtimes are told
   apart by API level, ART runtimes by the version of their compiled code;
   an opcode has at most one span of each kind. -/
namespace SymbolicDex

/-- Version number of a runtime that is not ART. -/
def noArt : Int := -1

/-- Versions from `least` to `greatest`, open where absent, that encode an
    opcode as `value`. -/
structure VersionSpan where
  least : Option Int
  greatest : Option Int
  value : Nat
deriving DecidableEq

namespace VersionSpan

def always (value : Nat) : VersionSpan := ⟨none, none, value⟩
def since (v : Int) (value : Nat) : VersionSpan := ⟨some v, none, value⟩
def upTo (v : Int) (value : Nat) : VersionSpan := ⟨none, some v, value⟩
def between (v w : Int) (value : Nat) : VersionSpan := ⟨some v, some w, value⟩

def contains (s : VersionSpan) (v : Int) : Bool :=
  s.least.all (· ≤ v) && s.greatest.all (v ≤ ·)

end VersionSpan

/-- Values of an opcode by API level and by ART version. -/
structure Encoding where
  api : Option VersionSpan
  art : Option VersionSpan
deriving DecidableEq

namespace Encoding

/-- One value on every runtime. -/
def everywhere (value : Nat) : Encoding :=
  ⟨some (VersionSpan.always value), some (VersionSpan.always value)⟩

/-- The ART span decides on an ART runtime, the API span elsewhere. -/
def value? (e : Encoding) (api art : Int) : Option Nat :=
  if art ≠ noArt then (e.art.filter (·.contains art)).map (·.value)
  else (e.api.filter (·.contains api)).map (·.value)

end Encoding

end SymbolicDex
