import NoteQuery.Number.Numeral
import NoteQuery.Text.Case
import NoteQuery.Value.Text
import NoteQuery.Yaml.Timestamp

/-!
The value of a document. Keys are told apart as values, so that `1` and `true` are one key, and are
then written as texts. Nodes are looked at in rounds: a collection first, what is in it in the next
round. Of several faults that of the earliest round counts.
-/

namespace NoteQuery.Yaml
set_option autoImplicit false

/-! ### Scalars -/

def readBoolean (s : String) : Except Fault Value :=
  match Text.lower s with
  | "yes" => .ok (.bool true)
  | "true" => .ok (.bool true)
  | "on" => .ok (.bool true)
  | "no" => .ok (.bool false)
  | "false" => .ok (.bool false)
  | "off" => .ok (.bool false)
  | other => .error (.badBoolean other)

/-- The number that digits of a base below 17 denote. -/
def digitsInBase (base : Nat) (cs : List Char) : Except Fault Int :=
  let digits? := cs.mapM fun c => (hexDigit? c).filter (· < base)
  match digits? with
  | some (d :: ds) => .ok (.ofNat ((d :: ds).foldl (fun n d => n * base + d) 0))
  | _ => .error (.badInteger base (String.ofList cs))

def decimalInteger (cs : List Char) : Except Fault Int :=
  match Numeral.integer? cs with
  | some n => .ok n
  | none => .error (.badInteger 10 (String.ofList cs))

/-- An integer without its sign. A leading zero means base eight, and colons base sixty. -/
def unsignedInteger (cs : List Char) : Except Fault Int :=
  match cs with
  | [] => .error .emptyNumber
  | ['0'] => .ok 0
  | '0' :: 'b' :: ds => digitsInBase 2 ds
  | '0' :: 'x' :: ds => digitsInBase 16 ds
  | '0' :: _ => digitsInBase 8 cs
  | _ =>
    if cs.contains ':' then do
      let parts ← (Text.pieces [':'] cs).mapM decimalInteger
      return parts.foldl (fun n d => n * 60 + d) 0
    else decimalInteger cs

def isMinus : List Char → Bool
  | '-' :: _ => true
  | _ => false

def readInteger (s : String) : Except Fault Value := do
  let cs := s.toList.filter (· != '_')
  let n ← unsignedInteger (Numeral.sign cs).2
  return .int (if isMinus cs then -n else n)

def decimalReal (cs : List Char) : Except Fault Binary64 :=
  match Numeral.real? cs with
  | some x => .ok x
  | none => .error (.badReal (String.ofList cs))

/-- The sum of the parts of a number of base sixty, from the last one on. -/
def sumOfSixties (parts : List Binary64) : Binary64 :=
  let terms := parts.reverse.zipIdx.map fun p => p.1.mul (.ofInt (Nat.pow 60 p.2))
  terms.foldl Binary64.add (.ofInt 0)

def unsignedReal (cs : List Char) : Except Fault Binary64 :=
  if cs.isEmpty then .error .emptyNumber
  else if cs = ".inf".toList then .ok (.infinite false)
  else if cs = ".nan".toList then .ok .nan
  else if cs.contains ':' then sumOfSixties <$> (Text.pieces [':'] cs).mapM decimalReal
  else decimalReal cs

def readReal (s : String) : Except Fault Value := do
  let cs := Text.lowerChars (s.toList.filter (· != '_'))
  let x ← unsignedReal (Numeral.sign cs).2
  return .number (if isMinus cs then (Number.real x).neg else .real x)

/-- The value of a scalar. -/
def readScalar (tag : Tag) (s : String) : Except Fault Value :=
  match tag with
  | .null => .ok .null
  | .bool => readBoolean s
  | .integer => readInteger s
  | .real => readReal s
  | .timestamp => .date <$> readTimestamp s.toList
  | .text => .ok (.text s)
  | _ => .error .malformed

/-! ### Merging -/

/-- The entries that a merge key brings in; those of earlier nodes of a list win. -/
def mergeSource : Node → Except Fault (List (Node × Node))
  | .mapping _ es => .ok es
  | .sequence _ ns => do
    let parts ← ns.mapM fun
      | .mapping _ es => .ok es
      | _ => .error .malformed
    return parts.reverse.flatten
  | .scalar .. => .error .malformed

def mergedEntries (entries : List (Node × Node)) : Except Fault (List (Node × Node)) := do
  let sources ← (entries.filter fun e => e.1.tag = .merge).mapM fun e => mergeSource e.2
  let own := (entries.filter fun e => e.1.tag ≠ .merge).map fun
    | (.scalar .default s, v) => (.scalar .text s, v)
    | e => e
  return sources.flatten ++ own

mutual

/-- The node with the entries that merge keys bring in before those of the mapping itself. -/
def Node.merged : Node → Except Fault Node
  | .scalar tag s => .ok (.scalar tag s)
  | .sequence tag ns => do return .sequence tag (← mergedItems ns)
  | .mapping tag es => do return .mapping tag (← mergedEntries (← mergedPairs es))

def mergedItems : List Node → Except Fault (List Node)
  | [] => .ok []
  | n :: ns => do
    let n ← n.merged
    return n :: (← mergedItems ns)

def mergedPairs : List (Node × Node) → Except Fault (List (Node × Node))
  | [] => .ok []
  | (k, v) :: es => do
    let k ← k.merged
    let v ← v.merged
    return (k, v) :: (← mergedPairs es)

end

/-! ### Collections -/

/-- Whether two values are one key: numbers and booleans are compared as numbers. -/
def sameKey (a b : Value) : Bool :=
  match a, b with
  | .null, .null => true
  | .text s, .text t => s == t
  | .date (.zoned m p), .date (.zoned n q) => (m.micros : Int) - p == n.micros - q
  | .date s, .date t => s == t
  | _, _ =>
    match number? a, number? b with
    | some m, some n => m.eq n || (m.isNaN && n.isNaN)
    | _, _ => false
where
  number? : Value → Option Number
    | .bool b => some (.int (if b then 1 else 0))
    | .number n => some n
    | _ => none

/-- Replaces the value under a key, or adds an entry at the end. -/
def insertKey (entries : List (Value × Value)) (k v : Value) : List (Value × Value) :=
  match entries with
  | [] => [(k, v)]
  | (l, w) :: rest => if sameKey l k then (l, v) :: rest else (l, w) :: insertKey rest k v

def keyed (entries : List (Value × Value)) : List (Value × Value) :=
  entries.foldl (fun es e => insertKey es e.1 e.2) []

/-- Collections are no keys. -/
def isKey : Value → Bool
  | .array _ => false
  | .object _ => false
  | _ => true

/-- Something made from nodes, with the faults that were found and their rounds. -/
structure Built (α : Type) where
  result : α
  faults : List (Nat × Fault)

mutual

/-- The value of a node that is looked at in a round. -/
def Node.build (round : Nat) : Node → Built Value
  | .scalar tag s =>
    match readScalar tag s with
    | .ok v => ⟨v, []⟩
    | .error f => ⟨.null, [(round, f)]⟩
  | .sequence .sequence ns =>
    let b := buildItems (round + 1) ns
    ⟨.array b.result, b.faults⟩
  | .sequence tag ns =>
    if tag = .orderedMapping ∨ tag = .pairs then
      let b := buildPairs (round + 1) ns
      ⟨.array b.result, b.faults⟩
    else ⟨.null, [(round, .malformed)]⟩
  | .mapping tag es =>
    let b := buildEntries (round + 1) es
    let entries := keyed b.result
    match tag with
    | .mapping => ⟨.object (Record.ofList (entries.map fun e => (e.1.mention, e.2))), b.faults⟩
    | .set => ⟨.array (entries.map (·.1)), b.faults⟩
    | _ => ⟨.null, [(round, .malformed)]⟩

def buildItems (round : Nat) : List Node → Built (List Value)
  | [] => ⟨[], []⟩
  | n :: ns =>
    let b := n.build round
    let bs := buildItems round ns
    ⟨b.result :: bs.result, b.faults ++ bs.faults⟩

def buildEntries (round : Nat) : List (Node × Node) → Built (List (Value × Value))
  | [] => ⟨[], []⟩
  | (k, v) :: es =>
    let k := k.build round
    let v := v.build round
    let es := buildEntries round es
    let keyFaults := if isKey k.result then [] else [(round, .malformed)]
    ⟨(k.result, v.result) :: es.result, k.faults ++ keyFaults ++ v.faults ++ es.faults⟩

/-- Items that are mappings of a single entry, as pairs. -/
def buildPairs (round : Nat) : List Node → Built (List Value)
  | [] => ⟨[], []⟩
  | .mapping _ [(k, v)] :: ns =>
    let k := k.build round
    let v := v.build round
    let bs := buildPairs round ns
    ⟨.array [k.result, v.result] :: bs.result, k.faults ++ v.faults ++ bs.faults⟩
  | _ :: _ => ⟨[], [(round, .malformed)]⟩

end

/-- The first of the faults of the earliest round. -/
def earliest? : List (Nat × Fault) → Option (Nat × Fault)
  | [] => none
  | f :: fs =>
    match earliest? fs with
    | some g => some (if g.1 < f.1 then g else f)
    | none => some f

mutual

/-- The value with its dates as moments of universal time. -/
def universal : Value → Except RangeError Value
  | .date d => do return .date (.clock (← d.moment))
  | .array vs => do return .array (← universalItems vs)
  | .object es => do return .object (← universalEntries es)
  | v => .ok v

def universalItems : List Value → Except RangeError (List Value)
  | [] => .ok []
  | v :: vs => do
    let v ← universal v
    return v :: (← universalItems vs)

def universalEntries : List (String × Value) → Except RangeError (List (String × Value))
  | [] => .ok []
  | (k, v) :: es => do
    let v ← universal v
    return (k, v) :: (← universalEntries es)

end

/-- The value of a document; null where it holds none. -/
def readDocument (cs : List Char) : Except Fault Value := do
  match ← Node.ofTokens (← Token.ofChars cs) with
  | none => return .null
  | some n =>
    let b := (← n.merged).build 0
    match earliest? b.faults with
    | some (_, f) => throw f
    | none => return b.result

end NoteQuery.Yaml
