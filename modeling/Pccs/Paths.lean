import Pccs.Fallible
import Pccs.Records

/-!
# Canonical request paths

A proxied AMD or NVIDIA request names its cache entry by the upstream URL, so
the path and the query are brought into one form before anything is looked up:
a fixed shape of segments, and the allowed parameters, each at most once, in
the order of their names.
-/
namespace Pccs.Paths

open Text Fallible PccsError

/-- `split_once`: the texts before and after the first occurrence. -/
def splitOnce (c : Char) (s : List Char) : Option (List Char × List Char) :=
  if c ∈ s then some (s.takeWhile (· ≠ c), (s.dropWhile (· ≠ c)).drop 1) else none

/-- `split`: all the texts between occurrences. -/
def split (c : Char) : List Char → List (List Char)
  | [] => [[]]
  | x :: rest =>
    if x = c then [] :: split c rest
    else match split c rest with
      | [] => [[x]]
      | first :: others => (x :: first) :: others

def stripPrefix (start s : List Char) : Option (List Char) :=
  if start.isPrefixOf s then some (s.drop start.length) else none

def joinHostPath (host pathAndQuery : String) : String :=
  if pathAndQuery.toList.head? = some '/' then host ++ pathAndQuery
  else host ++ ("/" ++ pathAndQuery)

def splitPathQuery (pathAndQuery : List Char) : List Char × Option (List Char) :=
  match splitOnce '?' pathAndQuery with
  | some (path, query) => (path, some query)
  | none => (pathAndQuery, none)

def isAlnumSegment (s : List Char) : Bool := !s.isEmpty && s.all Char.isAlphanum

def amdHwidQueryParams : List (List Char) :=
  ["blSPL".toList, "fmcSPL".toList, "snpSPL".toList, "teeSPL".toList, "ucodeSPL".toList]

/-- The number a text of decimal digits spells. -/
def decimalValue (s : List Char) : Nat := s.foldl (fun n c => 10 * n + (c.toNat - 48)) 0

/-- One to three digits that fit a byte. -/
def isSplValue (value : List Char) : Bool :=
  decide (1 ≤ value.length ∧ value.length ≤ 3) && value.all Char.isDigit &&
    decide (decimalValue value < 256)

abbrev Param : Type := List Char × List Char

/-- One parameter after those already seen. -/
def addParam (allowed : List (List Char)) (seen : List Param) (pair : List Char) :
    Except PccsError (List Param) := do
  let (key, value) := (splitOnce '=' pair).getD (pair, [])
  reject (key = []) invalidReq
  reject (key ∉ allowed) invalidReq
  reject (isSplValue value = false) invalidReq
  reject (key ∈ seen.map Prod.fst) invalidReq
  return seen ++ [(key, value)]

/-- The order of parameters by name. -/
def paramLe (a b : Param) : Bool := compare a.1 b.1 != .gt

def encodeParams (params : List Param) : List Char :=
  List.intercalate ['&'] (params.map fun p => p.1 ++ '=' :: p.2)

def canonicalizeQuery (query : Option (List Char)) (allowed : List (List Char)) :
    Except PccsError (List Char) :=
  match query.filter fun q => !q.isEmpty with
  | none => .ok []
  | some query => do
    let seen ← (split '&' query).foldlM (addParam allowed) []
    if seen = [] then return []
    return '?' :: encodeParams (seen.mergeSort paramLe)

def canonicalizeAmdKds (pathAndQuery : String) : Except PccsError String := do
  let (path, query) := splitPathQuery pathAndQuery.toList
  let (start, rest) ← require
    (((stripPrefix "/vcek/".toList path).map ("/vcek/", ·)).or
      ((stripPrefix "/vlek/".toList path).map ("/vlek/", ·))) invalidReq
  match split '/' rest with
  | [version, product, last] => do
    reject (version ≠ "v1".toList ∨ isAlnumSegment product = false) invalidReq
    let query ←
      if last = "cert_chain".toList ∨ last = "crl".toList then canonicalizeQuery query []
      else do
        reject (isAlnumSegment last = false) invalidReq
        canonicalizeQuery query amdHwidQueryParams
    return start ++ "v1/" ++ String.ofList product ++ "/" ++ String.ofList last ++
      String.ofList query
  | _ => .error invalidReq

def isRimId (s : List Char) : Bool :=
  !s.isEmpty && s != ['.'] && s != ['.', '.'] &&
    s.all fun c => c.isAlphanum || c == '-' || c == '_' || c == '.'

def canonicalizeNvidiaRim (pathAndQuery : String) : Except PccsError String := do
  let (path, query) := splitPathQuery pathAndQuery.toList
  let rest ← require (stripPrefix "/v1/rim/".toList path) invalidReq
  reject ('/' ∈ rest ∨ isRimId rest = false) invalidReq
  let query ← canonicalizeQuery query []
  return "/v1/rim/" ++ String.ofList rest ++ String.ofList query

example : (canonicalizeAmdKds "/vcek/v1/Milan/cert_chain?").toOption =
    some "/vcek/v1/Milan/cert_chain" := by decide +kernel

end Pccs.Paths
