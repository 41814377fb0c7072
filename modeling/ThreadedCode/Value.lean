import ThreadedCode.Text.Numeral
import ThreadedCode.Text.Quoted

/-!
The values that a task computes with, and the operands that instructions carry. An operand is a
value or, for words that the embedding program supplies, a list of operands.
-/

namespace ThreadedCode

inductive Value where
  | int (i : Int)
  | text (t : Text)
  | flag (b : Bool)
  | null
deriving DecidableEq, Inhabited

namespace Value

/-- The value as a program prints it; a true flag is minus one, a false one zero. -/
def display : Value → Text
  | int i => Text.ofInt i
  | text t => t
  | flag b => if b then "-1" else "0"
  | null => "None"

def quoted : Value → Text
  | int i => Text.ofInt i
  | text t => t.quoted
  | flag b => if b then "True" else "False"
  | null => "None"

/-- Whether the value has a written form: all have but the integers with too many digits. -/
def isWritable : Value → Bool
  | int i => Text.hasNumeral i
  | _ => true

def isZero : Value → Bool
  | int i => i == 0
  | flag b => !b
  | _ => false

end Value

inductive Operand where
  | value (v : Value)
  | list (items : List Operand)
deriving Inhabited

namespace Operand

def absent : Operand := value .null

mutual

def quoted : Operand → Text
  | value v => v.quoted
  | list items => Text.concat ["[", quotedItems items, "]"]

def quotedItems : List Operand → Text
  | [] => []
  | [item] => quoted item
  | item :: rest => quoted item ++ ", " ++ quotedItems rest

end

mutual

/-- Whether every value in the operand has a written form. -/
def isWritable : Operand → Bool
  | value v => v.isWritable
  | list items => areWritable items

def areWritable : List Operand → Bool
  | [] => true
  | item :: rest => isWritable item && areWritable rest

end

mutual

def decEq : (a b : Operand) → Decidable (a = b)
  | value v, value w => if h : v = w then isTrue (by rw [h]) else isFalse (by simp [h])
  | list s, list t =>
    match decEqItems s t with
    | isTrue h => isTrue (by rw [h])
    | isFalse h => isFalse (by simp [h])
  | value _, list _ => isFalse (by simp)
  | list _, value _ => isFalse (by simp)

def decEqItems : (s t : List Operand) → Decidable (s = t)
  | [], [] => isTrue rfl
  | a :: s, b :: t =>
    match decEq a b, decEqItems s t with
    | isTrue h, isTrue k => isTrue (by rw [h, k])
    | isFalse h, _ => isFalse (by simp [h])
    | _, isFalse k => isFalse (by simp [k])
  | [], _ :: _ => isFalse (by simp)
  | _ :: _, [] => isFalse (by simp)

end

instance : DecidableEq Operand := decEq

end Operand

end ThreadedCode
