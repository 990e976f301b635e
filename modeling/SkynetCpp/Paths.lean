import SkynetCpp.Lib.Places
import SkynetCpp.Message

/-!
# Paths

`collapse_path` and `resolve_path` of `skynet.lua`, and what a path means: a root, if it has one, and
the place that its names lead to from there. A drive letter is a root, as it is for
`is_absolute_path`, with or without a separator behind it.
-/

namespace SkynetCpp

open Lib

namespace Paths

section Code

/-- `path:gsub("/+", "/")` -/
def squeeze : Bytes → Bytes
  | [] => []
  | b :: s => if b = 47 ∧ s.head? = some 47 then squeeze s else b :: squeeze s

/-- `path:gsub("/$", "")` -/
def stripTrailing (path : Bytes) : Bytes :=
  if path.getLast? = some 47 then path.dropLast else path

def normalizeSeparators (path : Bytes) : Bytes :=
  stripTrailing (squeeze (path.map fun b => if b = 92 then 47 else b))

/-- `%a` -/
def isAlpha (b : UInt8) : Bool := (65 ≤ b && b ≤ 90) || (97 ≤ b && b ≤ 122)

/-- `path:match("^%a:")` -/
def hasDrive : Bytes → Bool
  | a :: b :: _ => isAlpha a && b == 58
  | _ => false

def isAbsolutePath (path : Bytes) : Bool := path.head? == some 47 || hasDrive path

/-- A round of the loop over the parts. -/
def addPart (pre : Bytes) (parts : List Bytes) (part : Bytes) : List Bytes :=
  if part = ascii "." then parts
  else if part = ascii ".." then
    if 0 < parts.length ∧ parts.getLast? ≠ some (ascii "..") then parts.dropLast
    else if pre = [] then parts ++ [part]
    else parts
  else parts ++ [part]

/-- `prefix`, and `path` behind it. -/
def splitPrefix (path : Bytes) : Bytes × Bytes :=
  if hasDrive path then
    let pre := path.take 2
    let path := path.drop 2
    if path.head? = some 47 then (pre ++ ascii "/", path.drop 1) else (pre, path)
  else if path.head? = some 47 then (ascii "/", path.drop 1)
  else ([], path)

/-- The path of these parts behind a prefix. -/
def joinParts (pre : Bytes) (parts : List Bytes) : Bytes :=
  let body := (ascii "/").intercalate parts
  if pre = [] then (if body ≠ [] then body else ascii ".")
  else if body = [] then pre
  else if pre.getLast? = some 47 then pre ++ body
  else pre ++ ascii "/" ++ body

def collapsePath (path : Bytes) : Bytes :=
  let (pre, path) := splitPrefix (normalizeSeparators path)
  joinParts pre ((pieces (· == 47) path).foldl (addPart pre) [])

/-- `resolve_path`, unless its assertion fails. -/
def resolvePath (base path : Bytes) : Option Bytes :=
  if path = [] then none
  else
    let path := normalizeSeparators path
    if isAbsolutePath path then some (collapsePath path)
    else some (collapsePath (normalizeSeparators base ++ ascii "/" ++ path))

end Code

section Meaning

def isSep (b : UInt8) : Bool := b == 47 || b == 92

inductive Root
  | slash
  | drive (letter : UInt8)
  deriving DecidableEq

/-- What follows the drive letter. -/
def behindDrive (path : Bytes) : Bytes := if hasDrive path then path.drop 2 else path

def rootOf (path : Bytes) : Option Root :=
  if hasDrive path then path.head?.map .drive
  else if path.head?.any isSep then some .slash
  else none

/-- There is a separator behind the drive letter, or at the front. -/
def Absolute (path : Bytes) : Prop := (behindDrive path).head?.any isSep = true

instance (path : Bytes) : Decidable (Absolute path) :=
  inferInstanceAs (Decidable (_ = true))

/-- A name of a path, unless it stays where it is. -/
def moveOf (name : Bytes) : Option (Move Bytes) :=
  if name = ascii "." then none
  else if name = ascii ".." then some .up
  else some (.name name)

def movesOf (path : Bytes) : List (Move Bytes) :=
  (pieces isSep (behindDrive path)).filterMap moveOf

/-- Where a path is: the root, and the place behind it. -/
structure Location where
  root : Option Root
  place : Place Bytes

/-- Where moves lead. -/
def Location.walk (loc : Location) (moves : List (Move Bytes)) : Location :=
  ⟨loc.root, loc.place.walk loc.root.isSome moves⟩

def locate (path : Bytes) : Location := Location.walk ⟨rootOf path, .here⟩ (movesOf path)

/-- Where a path is, taken relative to a base. -/
def locateFrom (base path : Bytes) : Location :=
  if (rootOf path).isSome then locate path else (locate base).walk (movesOf path)

/-- The components of a path: what lies between the separators, behind the root. -/
def componentsOf (path : Bytes) : List Bytes :=
  let path := behindDrive path
  let path := if path.head?.any isSep then path.drop 1 else path
  if path = [] then [] else path.splitOnP isSep

/-- No component is empty or `.`, and `..` is only at the front, and not behind a root. -/
def Clean (path : Bytes) : Prop :=
  (∀ c ∈ componentsOf path, c ≠ [] ∧ c ≠ ascii ".")
    ∧ ∃ n names, componentsOf path = List.replicate n (ascii "..") ++ names
      ∧ ascii ".." ∉ names ∧ ((rootOf path).isSome → n = 0)

/-- What `collapse_path` is to return. -/
structure CollapseSound (path : Bytes) : Prop where
  located : locate (collapsePath path) = locate path
  absolute : Absolute path → Absolute (collapsePath path)
  clean : Clean (collapsePath path)
  idempotent : collapsePath (collapsePath path) = collapsePath path

/-- What `resolve_path` is to return. -/
structure ResolveSound (base path result : Bytes) : Prop where
  located : locate result = locateFrom base path
  absolute : Absolute path ∨ rootOf path = none ∧ Absolute base → Absolute result
  clean : Clean result
  idempotent : collapsePath result = result

/-- A drive letter without a separator behind it. -/
def OnDrive (path : Bytes) : Prop := hasDrive path = true ∧ ¬ Absolute path

/-- The path begins with such a letter, or the base does, with a name behind it. -/
def OnDriveFrom (base path : Bytes) : Prop :=
  OnDrive path ∨ rootOf path = none ∧ OnDrive base ∧ behindDrive base ≠ []

namespace Location

variable (loc : Location)

/-- It is neither a root nor here. -/
def Inside : Prop := loc.place.ups ≠ 0 ∨ loc.place.names ≠ []

/-- It is relative, and its first name begins with a letter and a colon. -/
def DriveLike : Prop :=
  loc.root = none ∧ loc.place.ups = 0 ∧ loc.place.names.head?.any hasDrive = true

end Location

end Meaning

end Paths

end SkynetCpp
