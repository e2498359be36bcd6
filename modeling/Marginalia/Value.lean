import Marginalia.Text.Fractional
import Marginalia.Text.Quoted

/-!
# Values of any kind

What an operation may be handed in place of a text, a line or a span. Such a value is never used,
only reported: by the name of its kind, or written out in full.
-/

namespace Marginalia

/-- A value of any kind. -/
inductive Value where
  | null
  | bool (b : Bool)
  | int (n : Int)
  | number (x : Fractional)
  | text (t : Text)
  | list (items : List Value)
  | record (fields : List (Text × Value))
  deriving Repr

/-- The kinds of value that messages tell apart; lines are a kind of their own. -/
inductive Kind where
  | null
  | bool
  | int
  | number
  | text
  | list
  | record
  | line
  deriving DecidableEq, Repr

namespace Kind

/-- The name of a kind in messages. -/
def name : Kind → String
  | null => "NoneType"
  | bool => "bool"
  | int => "int"
  | number => "float"
  | text => "str"
  | list => "list"
  | record => "dict"
  | line => "AnnotatedLine"

end Kind

namespace Value

/-- The kind of a value. -/
def kind : Value → Kind
  | null => .null
  | bool _ => .bool
  | int _ => .int
  | number _ => .number
  | text _ => .text
  | list _ => .list
  | record _ => .record

mutual

/-- A value written out in full. -/
def written : Value → Text
  | null => "None".toList
  | bool true => "True".toList
  | bool false => "False".toList
  | int n => Text.decimal n
  | number x => x.written
  | text t => Text.quoted t
  | list items => ['['] ++ writtenItems items ++ [']']
  | record fields => ['\x7b'] ++ writtenFields fields ++ ['\x7d']

/-- Values in a row, set apart by commas. -/
def writtenItems : List Value → Text
  | [] => []
  | [v] => written v
  | v :: rest => written v ++ [',', ' '] ++ writtenItems rest

/-- Named values in a row, set apart by commas. -/
def writtenFields : List (Text × Value) → Text
  | [] => []
  | [(name, v)] => Text.quoted name ++ [':', ' '] ++ written v
  | (name, v) :: rest =>
    Text.quoted name ++ [':', ' '] ++ written v ++ [',', ' '] ++ writtenFields rest

end

mutual

/-- The whole numbers that stand in a value that is written out. -/
def numbers : Value → List Int
  | int n => [n]
  | list items => numbersOfItems items
  | record fields => numbersOfFields fields
  | _ => []

/-- The whole numbers that stand in values in a row. -/
def numbersOfItems : List Value → List Int
  | [] => []
  | v :: rest => numbers v ++ numbersOfItems rest

/-- The whole numbers that stand in named values in a row. -/
def numbersOfFields : List (Text × Value) → List Int
  | [] => []
  | (_, v) :: rest => numbers v ++ numbersOfFields rest

end

end Value

end Marginalia
