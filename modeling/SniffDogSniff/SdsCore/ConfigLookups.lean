import SniffDogSniff.Common.Decimal
import SniffDogSniff.Net.TorReply
import SniffDogSniff.SdsCore.SdsConfigFile

/-!
# Looking up settings

A setting is the first entry of a section that has its key, and a section is found by the
first one of its name.

## Main definitions

* `SdsConfigFile.Section.lookupString`, `lookupBool`, `lookupInt`.
* `SdsConfigFile.lookupSection`.
-/

namespace SniffDogSniff

/-- `std::stoi`. -/
def stoi (s : Bytes) : Except String ℤ :=
  match scanInt s with
  | some n => if -2 ^ 31 ≤ n ∧ n < 2 ^ 31 then .ok n else .error "stoi"
  | none => .error "stoi"

namespace SdsConfigFile

namespace Section

/-- `lookupValue`. -/
def lookupValue (s : Section) (key : Bytes) : Option Bytes :=
  (s.valuesList.find? fun p => p.1 = key).map (·.2)

def lookupString (s : Section) (key : Bytes) (defaultValue : Bytes) : Bytes :=
  (s.lookupValue key).getD defaultValue

def lookupBool (s : Section) (key : Bytes) (defaultValue : Bool) : Bool :=
  match s.lookupValue key with
  | some val => val = ascii "true" || val = ascii "yes"
  | none => defaultValue

/-- `lookupInt`, with what it throws. -/
def lookupInt (s : Section) (key : Bytes) (defaultValue : ℤ) : Except String ℤ :=
  match s.lookupValue key with
  | some val => stoi val
  | none => .ok defaultValue

end Section

/-- `lookupSection`, `none` for a null pointer. -/
def lookupSection (file : SdsConfigFile) (name : Bytes) : Option Section :=
  file.sections.find? fun s => s.name = name

end SdsConfigFile

end SniffDogSniff
