import ThreadedCode.Dictionary.Basic

/-!
A task: the state of one run of an entry word. It has a data stack, a second stack that never steers
the run, variables of its own, and the value of its last instruction. While composite words are in
progress, each of their levels has a position, which counts from one.
-/

namespace ThreadedCode

structure Task where
  name : Text
  entry : Word
  /-- The data stack, top first. -/
  stack : List Value := []
  /-- The second stack, top first. -/
  returns : List Value := []
  status : Value := .null
  locals : Table Text Value := ∅
  positions : Table Int Int := ∅
  level : Int := 0
  /-- How many atomic words are in progress at the current level. -/
  atomicDepth : Int := 0
deriving DecidableEq

namespace Task

def depth (t : Task) : Nat := t.stack.length

def push (t : Task) (v : Value) : Task := { t with stack := v :: t.stack }

def pop (t : Task) : Except Fault (Value × Task) :=
  match t.stack with
  | [] => .error .stackUnderflow
  | v :: rest => .ok (v, { t with stack := rest })

def peek (t : Task) : Except Fault Value :=
  match t.stack with
  | [] => .error .stackUnderflow
  | v :: _ => .ok v

def pushReturn (t : Task) (v : Value) : Task := { t with returns := v :: t.returns }

def popReturn (t : Task) : Except Fault (Value × Task) :=
  match t.returns with
  | [] => .error .returnStackUnderflow
  | v :: rest => .ok (v, { t with returns := rest })

def display (t : Task) : Text :=
  Text.concat ["<Context ", t.name, " entry=", t.entry.name, " depth=", Text.ofNat t.depth, ">"]

end Task

end ThreadedCode
