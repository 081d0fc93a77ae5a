import Pccs.Text

/-!
# JSON documents

Documents keep their member order, as the collateral that is stored and served
again must stay byte-identical to what was received. Integers are read by the
width they fit: an unsigned or a negative 64-bit integer, anything else is a
decimal fraction carried as its text.
-/
namespace Pccs.Json

open Text

inductive Value where
  | null : Value
  | bool : Bool → Value
  | posInt : UInt64 → Value
  | negInt : Int64 → Value
  | float : String → Value
  | string : String → Value
  | array : List Value → Value
  | object : List (String × Value) → Value

namespace Value

/-- `Value::get` with a member name; only objects have members. -/
def get : Value → String → Option Value
  | .object fields, key => fields.lookup key
  | _, _ => none

def asStr : Value → Option String
  | .string s => some s
  | _ => none

def asBool : Value → Option Bool
  | .bool b => some b
  | _ => none

def asArray : Value → Option (List Value)
  | .array items => some items
  | _ => none

def asU64 : Value → Option UInt64
  | .posInt n => some n
  | _ => none

def asI64 : Value → Option Int
  | .posInt n => if n.toNat < 2 ^ 63 then some n.toNat else none
  | .negInt n => some n.toInt
  | _ => none

def isObject : Value → Bool
  | .object _ => true
  | _ => false

/-- `Value::pointer` through named members. -/
def pointer (v : Value) (tokens : List String) : Option Value :=
  tokens.foldlM get v

end Value

mutual

/-- How many arrays and objects a document nests. -/
def Value.depth : Value → Nat
  | .array items => depthItems items + 1
  | .object fields => depthFields fields + 1
  | _ => 0

def depthItems : List Value → Nat
  | [] => 0
  | v :: rest => max v.depth (depthItems rest)

def depthFields : List (String × Value) → Nat
  | [] => 0
  | (_, v) :: rest => max v.depth (depthFields rest)

end

/-- serde_json refuses to open this many arrays and objects inside one another. -/
def recursionLimit : Nat := 128

def hexNibble (n : Nat) : Char := if n < 10 then Char.ofNat (48 + n) else Char.ofNat (87 + n)

def escapeChar (c : Char) : List Char :=
  if c = '"' then ['\\', '"']
  else if c = '\\' then ['\\', '\\']
  else if c = Char.ofNat 8 then ['\\', 'b']
  else if c = Char.ofNat 12 then ['\\', 'f']
  else if c = '\n' then ['\\', 'n']
  else if c = '\r' then ['\\', 'r']
  else if c = '\t' then ['\\', 't']
  else if c.toNat < 32 then ['\\', 'u', '0', '0', hexNibble (c.toNat / 16), hexNibble (c.toNat % 16)]
  else [c]

def quote (s : String) : String := String.ofList ('"' :: s.toList.flatMap escapeChar ++ ['"'])

mutual

/-- The compact text of a document. -/
def rawJson : Value → String
  | .null => "null"
  | .bool b => if b then "true" else "false"
  | .posInt n => toString n.toNat
  | .negInt n => toString n.toInt
  | .float text => text
  | .string s => quote s
  | .array items => "[" ++ rawItems items ++ "]"
  | .object fields => "\x7b" ++ rawFields fields ++ "\x7d"

def rawItems : List Value → String
  | [] => ""
  | [v] => rawJson v
  | v :: w :: rest => rawJson v ++ "," ++ rawItems (w :: rest)

def rawFields : List (String × Value) → String
  | [] => ""
  | [(k, v)] => quote k ++ ":" ++ rawJson v
  | (k, v) :: f :: rest => quote k ++ ":" ++ rawJson v ++ "," ++ rawFields (f :: rest)

end

example : rawJson (.object [("b", .posInt 2), ("a", .array [.null, .string "x\"y"])]) =
    "\x7b\"b\":2,\"a\":[null,\"x\\\"y\"]\x7d" := by decide

end Pccs.Json
