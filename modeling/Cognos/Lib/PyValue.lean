/-
# `Cognos.Lib.PyValue` — Python values, as far as a program looks into them

What a Python program gets from a call and tests: the truth of a value (`truthy`), a member of
a dictionary with a default (`get`), `or`.  Keys of dictionaries are strings.  A value of a
class the program knows nothing of is either true or false (`other`).  Exceptions of Python
itself are given by their class.

    get_true_iff    when a member that counts as true by default is false
-/
import Mathlib

namespace Py

inductive Value
  | none
  | bool (b : Bool)
  | int (n : Int)
  | float (x : Float)
  | str (s : String)
  | list (vs : List Value)
  | dict (fields : List (String × Value))
  | record (fields : List (String × Value))
  | other (truthy : Bool)

/-- The members of a dictionary. -/
abbrev Fields := List (String × Value)

/-- An exception: an `OSError` (of some class), or another one. -/
inductive Exc
  | os (name text : String)
  | other (name text : String)

namespace Value

/-- `bool(v)`. -/
def truthy : Value → Bool
  | .none => false
  | .bool b => b
  | .int n => n != 0
  | .float x => x != 0
  | .str s => s != ""
  | .list vs => !vs.isEmpty
  | .dict fields => !fields.isEmpty
  | .record _ => true
  | .other truthy => truthy

/-- `v or w`. -/
def orElse (v w : Value) : Value := if v.truthy then v else w

mutual

/-- `dataclasses.asdict`, as far down as it goes. -/
def asdict : Value → Value
  | .record fields => .dict (asdictFields fields)
  | .dict fields => .dict (asdictFields fields)
  | .list vs => .list (asdictList vs)
  | v => v

def asdictList : List Value → List Value
  | [] => []
  | v :: vs => asdict v :: asdictList vs

def asdictFields : List (String × Value) → List (String × Value)
  | [] => []
  | (key, v) :: fields => (key, asdict v) :: asdictFields fields

end

mutual

/-- `json.dumps` writes the value; of objects it knows no text. -/
def jsonable : Value → Bool
  | .list vs => jsonableList vs
  | .dict fields => jsonableFields fields
  | .record _ => false
  | .other _ => false
  | _ => true

def jsonableList : List Value → Bool
  | [] => true
  | v :: vs => jsonable v && jsonableList vs

def jsonableFields : List (String × Value) → Bool
  | [] => true
  | (_, v) :: fields => jsonable v && jsonableFields fields

end

end Value

/-- `d.get(key, default)`. -/
def get (fields : Fields) (key : String) (default : Value) : Value :=
  (fields.lookup key).getD default

/-- The member is there, and it is false. -/
def Denies (fields : Fields) (key : String) : Prop :=
  ∃ v, fields.lookup key = some v ∧ v.truthy = false

/-- A member that counts as true when it is not there is false only where it is there. -/
theorem get_true_iff (fields : Fields) (key : String) :
    (get fields key (.bool true)).truthy = false ↔ Denies fields key := by
  unfold get Denies
  cases hlookup : fields.lookup key with
  | none => exact iff_of_false (by simp [Value.truthy]) (by simp)
  | some v => simp

/-! ## Strings and lists -/

def typeError : Exc := .other "TypeError" ""

def keyError (key : String) : Exc := .other "KeyError" key

def attributeError : Exc := .other "AttributeError" ""

/-- `s[:n]`. -/
def slice (s : String) (n : Nat) : String := String.ofList (s.toList.take n)

/-- What a `for` runs over. -/
def iterate : Value → Except Exc (List Value)
  | .list vs => .ok vs
  | .dict fields => .ok (fields.map fun f => .str f.1)
  | .str s => .ok (s.toList.map fun c => .str (String.singleton c))
  | _ => .error typeError

/-- `sep.join(v)`. -/
def join (sep : String) (v : Value) : Except Exc String :=
  match iterate v with
  | .error e => .error e
  | .ok vs =>
      match vs.mapM fun v => match v with | .str s => some s | _ => none with
      | some strs => .ok (sep.intercalate strs)
      | none => .error typeError

/-- `v[:n]`. -/
def sliceValue (v : Value) (n : Nat) : Except Exc Value :=
  match v with
  | .list vs => .ok (.list (vs.take n))
  | .str s => .ok (.str (slice s n))
  | _ => .error typeError

/-! ## Paths -/

/-- The parts of a path, as `pathlib` takes it apart. -/
def pathParts (path : String) : List String :=
  ((path.toList.splitOn '/').map String.ofList).filter fun part => part ≠ "" ∧ part ≠ "."

/-- `Path(path).name`. -/
def pathName (path : String) : String := ((pathParts path).getLast?).getD ""

/-- `Path(path).parent`, of an absolute path. -/
def pathParent (path : String) : String :=
  "/" ++ String.intercalate "/" (pathParts path).dropLast

end Py
