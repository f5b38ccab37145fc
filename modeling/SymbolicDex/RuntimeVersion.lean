import SymbolicDex.Opcode.Table

/- Runtime versions and what they decide: how instance fields are laid out,
   how vtables are built, and which table execute-inline indexes. -/
namespace SymbolicDex

/-- API level and ART version of a runtime; `noArt` leaves the ART version to
    the API level. -/
structure RuntimeVersion where
  api : Int
  art : Int
deriving DecidableEq

/-- Generations of the ART field order. -/
inductive ArtLayout where
  /-- By group, then name; the smallest gap is filled first. -/
  | legacy
  /-- References, then decreasing size; the largest gap is filled first. -/
  | current
deriving DecidableEq

inductive LayoutStrategy where
  | dalvik
  | art (generation : ArtLayout)
deriving DecidableEq

namespace LayoutStrategy

/-- Display name of the strategy. -/
def name : LayoutStrategy → String
  | dalvik => "Dalvik"
  | art .legacy => "Art(Legacy)"
  | art .current => "Art(Current)"

end LayoutStrategy

inductive VtableStrategy where
  | legacy
  /-- Interfaces may carry default methods. -/
  | defaultMethods
deriving DecidableEq

namespace VtableStrategy

/-- Display name of the strategy. -/
def name : VtableStrategy → String
  | legacy => "Legacy"
  | defaultMethods => "DefaultMethods"

end VtableStrategy

namespace RuntimeVersion

/-- The given ART version, or the one shipped with the API level. -/
def artVersion (r : RuntimeVersion) : Int :=
  if r.art ≠ noArt then r.art else artOfApi r.api

def isArt (r : RuntimeVersion) : Bool :=
  r.artVersion ≠ noArt

/-- First ART version that orders fields by size. -/
def firstCurrentLayout : Int := 67

def layoutStrategy (r : RuntimeVersion) : LayoutStrategy :=
  if !r.isArt then .dalvik
  else if firstCurrentLayout ≤ r.artVersion then .art .current
  else .art .legacy

def vtableStrategy (r : RuntimeVersion) : VtableStrategy :=
  if 24 ≤ r.api then .defaultMethods else .legacy

/-- Whether a package-private method can be overridden only from its own
    package. -/
def checksPackagePrivate (r : RuntimeVersion) : Bool :=
  17 ≤ r.api || r.isArt

/-- Version of the table that execute-inline indexes. -/
def inlineVersion (r : RuntimeVersion) : Nat :=
  if r.api < 11 then 35 else 36

def opcodes (r : RuntimeVersion) : OpcodeTable :=
  OpcodeTable.ofVersions r.api r.art

end RuntimeVersion

end SymbolicDex
