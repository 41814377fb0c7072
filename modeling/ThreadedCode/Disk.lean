import ThreadedCode.Fault

/-!
Files as the library sees them: a disk answers a path, given as bytes, with the bytes of the file
there or with the reason why there is none to open. A directory tree is one such disk.
-/

namespace ThreadedCode

abbrev Bytes := List UInt8

abbrev Disk := Bytes → Except OpenFailure Bytes

namespace Disk

def byteOfSurrogate? (c : CodePoint) : Option UInt8 :=
  if 0xDC80 ≤ c.val && c.val ≤ 0xDCFF then some (.ofNat (c.val - 0xDC00)) else none

/-- The first surrogate from `position` on that stands for no byte, with the surrogates after it. -/
def unnameable? (position : Nat) : Text → Option EncodeFailure
  | [] => none
  | c :: rest =>
    if c.isSurrogate && (byteOfSurrogate? c).isNone then
      some ⟨Utf8.encoding, c, position, 1 + (rest.takeWhile CodePoint.isSurrogate).length⟩
    else unnameable? (position + 1) rest

def pathBytes (path : Text) : Except Fault Bytes :=
  match unnameable? 0 path with
  | some failure => .error (.unencodable failure)
  | none =>
    let bytes := path.flatMap fun c =>
      match byteOfSurrogate? c with
      | some b => [b]
      | none => Utf8.encodeOne c
    if bytes.contains 0 then .error .embeddedNull else .ok bytes

def read (disk : Disk) (path : Text) : Except Fault Bytes := do
  match disk (← pathBytes path) with
  | .ok bytes => .ok bytes
  | .error failure => .error (.cannotOpen failure path)

/-- The longest path and the longest name in it, in bytes. -/
def pathLimit : Nat := 4095

def nameLimit : Nat := 255

inductive Node where
  | file (bytes : Bytes)
  | directory
deriving DecidableEq

/-- The nodes of a directory tree by their names from its root on. The directories on the way to a
node need no entry of their own. -/
abbrev Tree := List (List Bytes × Node)

def nodeAt (tree : Tree) (names : List Bytes) : Option Node :=
  match tree.find? fun e => e.1 = names with
  | some e => some e.2
  | none =>
    if names = [] || tree.any (fun e => names.isPrefixOf e.1) then some .directory else none

def pieces (path : Bytes) : List Bytes :=
  path.foldr
    (fun b pieces =>
      if b = 0x2F then [] :: pieces
      else match pieces with
        | [] => [[b]]
        | piece :: pieces => (b :: piece) :: pieces)
    [[]]

def dot : Bytes := [0x2E]

def dotDot : Bytes := [0x2E, 0x2E]

/-- Follows the pieces of a path from the directory or file that `names` leads to; above the root of
the tree there are directories only. -/
def walk (tree : Tree) : Option (List Bytes) → Node → List Bytes → Except OpenFailure Node
  | _, node, [] => .ok node
  | _, .file _, _ :: _ => .error .notDirectory
  | here, .directory, piece :: rest =>
    if piece = [] || piece = dot then walk tree here .directory rest
    else if piece = dotDot then
      walk tree (here.bind fun names => if names = [] then none else some names.dropLast)
        .directory rest
    else if nameLimit < piece.length then .error .nameTooLong
    else
      match here with
      | none => .error .missing
      | some names =>
        match nodeAt tree (names ++ [piece]) with
        | none => .error .missing
        | some node => walk tree (some (names ++ [piece])) node rest

def ofTree (tree : Tree) : Disk := fun path =>
  if pathLimit < path.length then .error .nameTooLong
  else if path = [] then .error .missing
  else
    match walk tree (if path.head? = some 0x2F then none else some []) .directory (pieces path) with
    | .error failure => .error failure
    | .ok .directory => .error .isDirectory
    | .ok (.file bytes) => .ok bytes

end Disk

end ThreadedCode
