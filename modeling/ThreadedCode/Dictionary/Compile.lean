import ThreadedCode.Dictionary.Define

/-!
Definitions from names. Each name is bound, once and for all, to the word that it denotes when the
definition is made, so a word may use an older word of its own name.
-/

namespace ThreadedCode

namespace Dictionary

def jumpNames : List Text := ["branch", "0branch"]

/-- Whether a body with this word in it has to keep its position: the word has a body itself, or it
jumps. -/
def needsPosition (w : Word) : Bool := w.isSecondary || jumpNames.contains w.name

def resolve (d : Dictionary) : List (Text × Operand) → Except Fault (List (Word × Operand))
  | [] => .ok []
  | (name, arg) :: items => do
    let w ← d.find name
    let rest ← d.resolve items
    .ok ((w, arg) :: rest)

/-- Defines a word by the names in its body. Its class is given, or else composite if some word in
the body needs a position and atomic if none does. -/
def compile (d : Dictionary) (name : Text) (items : List (Text × Operand))
    (composite : Option Bool) : Except Fault (Word × Dictionary) := do
  let parts ← d.resolve items
  let composite := composite.getD (parts.any fun part => needsPosition part.1)
  d.define
    { name
      kind := if composite then .composite else .atomic
      body := parts.map fun part => { token := part.1.token, arg := part.2 } }

def builtins : List (Text × Builtin × Text) :=
  [(".", .print, "( x -- ) affiche x"),
    ("cr", .newline, "( -- ) retour à la ligne"),
    ("=:", .fetch, "( name -- x ) lit une variable"),
    (":=", .store, "( x name -- ) écrit une variable"),
    ("branch", .branch, "( -- ) saut relatif"),
    ("0branch", .zeroBranch, "( flag -- ) saut relatif si zéro"),
    (">r", .toReturn, "( x -- ) R: ( -- x )"),
    ("r>", .fromReturn, "( -- x ) R: ( x -- )")]

def initial : Dictionary :=
  builtins.foldl
    (fun d (name, b, doc) =>
      match d.definePrimitive name (.builtin b) doc with
      | .ok (_, d) => d
      | .error _ => d)
    (empty 1)

end Dictionary

end ThreadedCode
