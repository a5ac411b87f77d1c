import Praxec.Mapping

namespace Praxec

open Json Text

-- doubles by their bits, in an order that no NaN has a place in
namespace F64

def magnitude (bits : Nat) : Nat :=
  bits % 2 ^ 63

def isNaN (bits : Nat) : Bool :=
  0x7FF0000000000000 < magnitude bits

def key (bits : Nat) : Int :=
  if bits < 2 ^ 63 then magnitude bits else -magnitude bits

def lt (x y : Nat) : Bool :=
  !isNaN x && !isNaN y && key x < key y

def le (x y : Nat) : Bool :=
  !isNaN x && !isNaN y && key x ≤ key y

def epsilon : Nat := 0x3CB0000000000000

end F64

inductive CompareOp where
  | startsWith | contains | le | ge | eq | ne | lt | gt
deriving DecidableEq

namespace CompareOp

/-- In the order in which a splitter looks for them: no operator before a longer one that starts with it. -/
def all : List CompareOp :=
  [startsWith, contains, le, ge, eq, ne, lt, gt]

def token : CompareOp → String
  | startsWith => "starts_with"
  | contains => "contains"
  | le => "<="
  | ge => ">="
  | eq => "=="
  | ne => "!="
  | lt => "<"
  | gt => ">"

end CompareOp

def splitOutsideQuotes (op : List Char) (inSingle inDouble : Bool) : List Char → Option (List Char × List Char)
  | [] => none
  | c :: rest =>
      let keep (parts : List Char × List Char) := (c :: parts.1, parts.2)
      if !inSingle && c = '\x22' then (splitOutsideQuotes op inSingle (!inDouble) rest).map keep
      else if !inDouble && c = '\x27' then (splitOutsideQuotes op (!inSingle) inDouble rest).map keep
      else if !inSingle && !inDouble && op.isPrefixOf (c :: rest) then some ([], (c :: rest).drop op.length)
      else (splitOutsideQuotes op inSingle inDouble rest).map keep

structure BinaryExpr where
  left : String
  op : CompareOp
  right : String
deriving DecidableEq

def parseBinaryExpr (expr : String) : Option BinaryExpr :=
  CompareOp.all.findSome? fun op =>
    (splitOutsideQuotes op.token.toList false false expr.toList).map fun parts =>
      ⟨trim (String.ofList parts.1), op, trim (String.ofList parts.2)⟩

example : parseBinaryExpr "$.context.mode != 'a <= b'" = some ⟨"$.context.mode", .ne, "'a <= b'"⟩ := by decide +kernel

def exprParses (expr : String) : Bool :=
  (parseBinaryExpr expr).isSome

def exprOperands (expr : String) : Option (String × String) :=
  (parseBinaryExpr expr).map fun e => (e.left, e.right)

def quotedBy (quote : Char) (s : List Char) : Bool :=
  s.head? = some quote && s.getLast? = some quote && 2 ≤ s.length

variable (lib : Libraries) (parseF64 : String → Option Nat)

def literalOperand (s : String) : Option Value :=
  if quotedBy '\x22' s.toList || quotedBy '\x27' s.toList then
    some (.string (String.ofList (s.toList.drop 1).dropLast))
  else if s = "true" then some (.bool true)
  else if s = "false" then some (.bool false)
  else if s = "null" then some .null
  else (parseF64 s).map lib.jsonNumber

/-- Numbers compare as doubles, equality of anything else is equality of documents, and the string operators take what
is not a string for the empty one. -/
def compareValues (a : Value) (op : CompareOp) (b : Value) : Bool :=
  match a, b with
  | .number a, .number b =>
      let x := lib.asF64 a
      let y := lib.asF64 b
      let distance := F64.magnitude (lib.subF64 x y)
      match op with
      | .eq => F64.lt distance F64.epsilon
      | .ne => F64.le F64.epsilon distance
      | .lt => F64.lt x y
      | .le => F64.le x y
      | .gt => F64.lt y x
      | .ge => F64.le y x
      | .startsWith | .contains => false
  | a, b =>
      match op with
      | .startsWith => startsWith (a.asStr.getD "") (b.asStr.getD "")
      | .contains => contains (a.asStr.getD "") (b.asStr.getD "")
      | .eq => a.same b
      | .ne => !a.same b
      | _ => false

def isTruthy : Value → Bool
  | .null => false
  | .bool b => b
  | .number n => !lib.isZeroF64 (lib.asF64 n)
  | .string s => s ≠ ""
  | .array xs => !xs.isEmpty
  | .object fields => !fields.isEmpty

def readOutput (output : Value) (s : String) : Option Value :=
  (stripStart "$.".toList s.toList).map fun path =>
    (output.pointer (pathToPointer (String.ofList path))).getD .null

def resolveOutputOperand (s : String) (output : Value) : Value :=
  let s := trim s
  ((literalOperand lib parseF64 s).or (readOutput output s)).getD .null

def evaluateJoinExpression (expr : String) (output : Value) : Bool :=
  let trimmed := trim expr
  match parseBinaryExpr trimmed with
  | none => (readOutput output trimmed).any (isTruthy lib)
  | some e =>
      compareValues lib (resolveOutputOperand lib parseF64 e.left output) e.op
        (resolveOutputOperand lib parseF64 e.right output)

end Praxec
