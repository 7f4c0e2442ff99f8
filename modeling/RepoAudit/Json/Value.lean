import RepoAudit.Decimal

/-!
# JSON values

* `Value` — a JSON value; integers are unbounded, other numbers keep the decimal they were written
  as, and the two infinities and the non-number are allowed.
* `Fields.set` — the fields of an object with one more: the last value of a key wins and stands
  where the key first stood.
* `Value.field`, `Value.items`, `Value.objects`, `Value.text`, `Value.line?` — lenient reading: a
  value of another kind counts as empty.
-/

namespace RepoAudit.Json

/-- A number that is no integer by its spelling. -/
inductive Real where
  | finite (d : Decimal)
  | infinity (negative : Bool)
  | notANumber
  deriving Repr, DecidableEq, Inhabited

/-- A JSON value. -/
inductive Value where
  | null
  | bool (b : Bool)
  | int (n : Int)
  | real (x : Real)
  | string (s : String)
  | array (items : List Value)
  | object (fields : List (String × Value))
  deriving Repr, Inhabited

/-- The fields of an object in the order in which their keys first stood. -/
abbrev Fields := List (String × Value)

/-- The fields with `key` bound to `value`: at its place when the key is there, else at the end. -/
def Fields.set (key : String) (value : Value) : Fields → Fields
  | [] => [(key, value)]
  | (k, v) :: rest => if k = key then (k, value) :: rest else (k, v) :: Fields.set key value rest

/-- The value of a key. -/
def Fields.get? (key : String) : Fields → Option Value
  | [] => none
  | (k, v) :: rest => if k = key then some v else Fields.get? key rest

namespace Value

/-- The fields of an object; nothing else has fields. -/
def fields : Value → Fields
  | .object fs => fs
  | _ => []

/-- The value of a field; null when there is none. -/
def field (v : Value) (key : String) : Value := (Fields.get? key v.fields).getD .null

/-- The items of an array; nothing else has items. -/
def items : Value → List Value
  | .array vs => vs
  | _ => []

/-- Whether a value is an object. -/
def isObject : Value → Bool
  | .object _ => true
  | _ => false

/-- The items of an array that are objects. -/
def objects (v : Value) : List Value := v.items.filter isObject

/-- The text of a string; nothing else has text. -/
def text : Value → String
  | .string s => s
  | _ => ""

/-- The text of a non-empty string. -/
def text? (v : Value) : Option String := if v.text = "" then none else some v.text

/-- A positive integer, as a line number. -/
def line? : Value → Option Int
  | .int n => if 0 < n then some n else none
  | _ => none

end Value

@[simp] theorem Fields.get?_set_self (key : String) (value : Value) (fs : Fields) :
    Fields.get? key (Fields.set key value fs) = some value := by
  induction fs with
  | nil => simp [Fields.set, Fields.get?]
  | cons f fs ih =>
    obtain ⟨k, v⟩ := f
    by_cases h : k = key <;> simp [Fields.set, Fields.get?, h, ih]

end RepoAudit.Json
