import CgminerT4.Library.ByteString
import Mathlib.Order.WithBot
import Mathlib.Data.Rat.Defs

/-!
# JSON values and the jansson accessors the miner calls

A `json_t *` is an `Option Json`: every accessor of jansson accepts NULL and
values of the wrong type, and answers NULL, zero or an empty size for them.
Strings are their NUL-free bytes. Parsing text into values is not modelled.
A C `double` that the miner only copies, adds, compares or divides once is an
exact rational, with `⊤` for the infinity that a division by zero gives.
-/
namespace CgminerT4.Source.Jansson
open Library.ByteString

abbrev Double := WithTop ℚ

inductive Json where
  | null
  | bool (value : Bool)
  | integer (value : Int)
  | real (value : ℚ)
  | string (value : Bytes)
  | array (items : List Json)
  | object (members : List (String × Json))

def jsonObjectGet (json : Option Json) (key : String) : Option Json :=
  match json with
  | some (.object members) => (members.find? (·.1 == key)).map (·.2)
  | _ => none

def jsonArrayGet (json : Option Json) (index : Nat) : Option Json :=
  match json with
  | some (.array items) => items[index]?
  | _ => none

def jsonArraySize (json : Option Json) : Nat :=
  match json with
  | some (.array items) => items.length
  | _ => 0

def jsonStringValue (json : Option Json) : Option Bytes :=
  match json with
  | some (.string value) => some value
  | _ => none

def jsonIntegerValue (json : Option Json) : Int :=
  match json with
  | some (.integer value) => value
  | _ => 0

def jsonNumberValue (json : Option Json) : ℚ :=
  match json with
  | some (.integer value) => value
  | some (.real value) => value
  | _ => 0

def jsonIsArray (json : Option Json) : Bool :=
  match json with
  | some (.array _) => true
  | _ => false

def jsonIsTrue (json : Option Json) : Bool :=
  match json with
  | some (.bool true) => true
  | _ => false

def jsonIsNull (json : Option Json) : Bool :=
  match json with
  | some .null => true
  | _ => false

/-- Conversion of a `json_int_t` to the C type `int`. -/
def toInt (n : Int) : Int := n.bmod (2 ^ 32)

/-- Integers that an `int` can hold are converted without change. -/
theorem toInt_of_lt (n : Nat) (bound : n < 2 ^ 31) : toInt n = n := by
  have low : (n : Int) % ((2 ^ 32 : Nat) : Int) = n := Int.emod_eq_of_lt (by omega) (by omega)
  rw [toInt, Int.bmod, low, if_pos (by omega)]

end CgminerT4.Source.Jansson
