import Omkit.Lib.Json.Loads

/-!
# Values as a program handles them

What an untyped program does with a value that it has read: it tests its truth, looks a key up in
it, takes it for an integer.
-/

namespace Omkit.Lib

/-- The numbers of the interpreter: `float.__bool__`, `int(x)` of a finite float, and `int(s)` of a
string, where `none` is a `ValueError`. -/
class PyNumbers (F : Type) where
  floatTrue : F → Bool
  trunc : F → ℤ
  intOf : PyStr → Option ℤ

/-- The numbers of a program without floats that reads no integer from a string. -/
instance : PyNumbers Empty where
  floatTrue := Empty.elim
  trunc := Empty.elim
  intOf _ := none

namespace Json

variable {F : Type}

section Numbers

variable [PyNumbers F]

/-- `bool(v)`. -/
def truthy : Json F → Bool
  | null => false
  | bool b => b
  | int n => n ≠ 0
  | float x => PyNumbers.floatTrue x
  | nonFinite _ => true
  | str s => s ≠ []
  | arr l => !l.isEmpty
  | obj l => !l.isEmpty

/-- `v or w`. -/
def orElse (v w : Json F) : Json F := if v.truthy then v else w

/-- `int(v)`. -/
def toInt : Json F → Except StdExc ℤ
  | bool b => .ok (if b then 1 else 0)
  | int n => .ok n
  | float x => .ok (PyNumbers.trunc x)
  | nonFinite .nan => .error .valueError
  | nonFinite _ => .error .overflowError
  | str s => match PyNumbers.intOf (F := F) s with
    | some n => .ok n
    | none => .error .valueError
  | _ => .error .typeError

end Numbers

/-- `v.get(name)`. -/
def get (v : Json F) (name : PyStr) : Except StdExc (Json F) :=
  match v with
  | obj l => .ok ((l.lookup name).getD null)
  | _ => .error .attributeError

/-- Is the value an instance of `int`?  Then its text. -/
def instanceInt : Json F → Option PyStr
  | int n => some (intText n)
  | bool b => some (text (if b then "True" else "False"))
  | _ => none

end Json

end Omkit.Lib
