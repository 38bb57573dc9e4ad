import Multiway.Json.Number
import Multiway.Text.Decimal
import Multiway.Text.Quoted

/-!
# JSON values already read

* `Document`: a JSON value;
* `Misfit`: why a value is not of the type asked for;
* `Misfit.message`: the text of each.
-/

namespace Multiway.Json

/-- A JSON value. The members of an object are in the order of their names. -/
inductive Document where
  | null
  | bool (value : Bool)
  | integer (value : Int)
  | float (value : Float)
  | text (value : String)
  | sequence (items : List Document)
  | object (members : List (String × Document))
deriving Inhabited

/-- A number as a value. -/
def Document.ofNumber : Number → Document
  | .integer n => .integer n
  | .float x => .float x

/-- Floating-point numbers in JSON: positional from a hundred-thousandth on. JSON has no infinite
numbers. -/
def floatLayout : Text.Layout where
  leastPosition := -4
  tie := .toEven
  exponentSign := "+"
  nan := "null"
  infinity := "null"
  negativeInfinity := "null"

/-- A value in words. -/
def Document.describe : Document → String
  | null => "null"
  | bool value => "boolean `" ++ (if value then "true" else "false") ++ "`"
  | integer value => "integer `" ++ toString value ++ "`"
  | float value => "floating point `" ++ Text.renderFloat floatLayout value ++ "`"
  | text value => "string " ++ Text.quote value
  | sequence _ => "sequence"
  | object _ => "map"

/-- Why a value is not of the type asked for. -/
inductive Misfit where
  /-- The value is of another type. -/
  | type (found : Document) (expected : String)
  /-- The value is of a type close to the one asked for, and out of its range. -/
  | range (found : Document) (expected : String)
  /-- The name of a member is not a number. -/
  | name
  /-- The name of a member begins like a number, and has a flaw. -/
  | number (flaw : NumberFlaw)
  /-- The number that a name stands for does not fit; the place is where in the name that shows. -/
  | within (place : Position) (misfit : Misfit)

/-- The text of a misfit. -/
def Misfit.message : Misfit → String
  | type found expected => "invalid type: " ++ found.describe ++ ", expected " ++ expected
  | range found expected => "invalid value: " ++ found.describe ++ ", expected " ++ expected
  | name => "invalid value: expected key to be a number in quotes"
  | number flaw => flaw.message
  | within place misfit =>
    misfit.message ++ " at line " ++ toString place.line ++ " column " ++ toString place.column

end Multiway.Json
