import Criterion.Yaml.Layout

/-! YAML nodes. A missing value is the empty plain scalar. -/
namespace Criterion.Yaml

inductive Node where
  | scalar (isPlain : Bool) (text : String)
  | sequence (items : List Node)
  | mapping (entries : List (Node × Node))
  deriving Repr

namespace Node

def absent : Node := .scalar true ""

/-- Where a node is expected: on its own, after a flow indicator, or as the value of a key, where a
sequence need not be indented. -/
inductive Place where
  | block
  | flow
  | keyed
  deriving DecidableEq, Repr

/-- Says whether no node can begin with what comes next, so that the node there is absent. -/
def stops (marks : List Token) : List Token → Bool
  | [] => true
  | t :: _ => marks.contains t

mutual

def node : Nat → Place → List Token → Option (Node × List Token)
  | 0, _, _ => none
  | fuel + 1, place, tokens =>
    match tokens with
    | .scalar isPlain text :: rest => some (.scalar isPlain text, rest)
    | .flowSequence :: rest => flowItems fuel true [] rest
    | .flowMapping :: rest => flowEntries fuel true [] rest
    | .blockSequence :: rest => if place = .flow then none else blockItems fuel [] rest
    | .blockMapping :: rest => if place = .flow then none else blockEntries fuel [] rest
    | .blockEntry :: _ => if place = .keyed then looseItems fuel [] tokens else none
    | _ => none

/-- A node, or the absent one before any of the given tokens. -/
def optional : Nat → Place → List Token → List Token → Option (Node × List Token)
  | 0, _, _, _ => none
  | fuel + 1, place, marks, tokens =>
    if stops marks tokens then some (absent, tokens) else node fuel place tokens

def blockItems : Nat → List Node → List Token → Option (Node × List Token)
  | fuel + 1, items, .blockEntry :: rest => do
    let (item, rest) ← optional fuel .block [.blockEntry, .blockEnd] rest
    blockItems fuel (items ++ [item]) rest
  | _, items, .blockEnd :: rest => some (.sequence items, rest)
  | _, _, _ => none

/-- The items of a sequence at the indentation of the key it belongs to. It ends before anything else. -/
def looseItems : Nat → List Node → List Token → Option (Node × List Token)
  | fuel + 1, items, .blockEntry :: rest => do
    let (item, rest) ← optional fuel .block [.blockEntry, .key, .value, .blockEnd] rest
    looseItems fuel (items ++ [item]) rest
  | _, items, rest => some (.sequence items, rest)

def blockEntries : Nat → List (Node × Node) → List Token → Option (Node × List Token)
  | fuel + 1, entries, .key :: rest => do
    let (key, rest) ← optional fuel .keyed [.key, .value, .blockEnd] rest
    blockValue fuel entries key rest
  | _, entries, .blockEnd :: rest => some (.mapping entries, rest)
  | _, _, _ => none

def blockValue : Nat → List (Node × Node) → Node → List Token → Option (Node × List Token)
  | fuel + 1, entries, key, .value :: rest => do
    let (value, rest) ← optional fuel .keyed [.key, .value, .blockEnd] rest
    blockEntries fuel (entries ++ [(key, value)]) rest
  | fuel + 1, entries, key, rest => blockEntries fuel (entries ++ [(key, absent)]) rest
  | 0, _, _, _ => none

/-- The items of a flow sequence; `first` says that none has been read. A key among them makes a mapping
of one entry. -/
def flowItems : Nat → Bool → List Node → List Token → Option (Node × List Token)
  | _, _, items, .flowSequenceEnd :: rest => some (.sequence items, rest)
  | fuel + 1, first, items, tokens => do
    let tokens ← match first, tokens with
      | true, _ => some tokens
      | false, .flowEntry :: rest => some rest
      | false, _ => none
    match tokens with
    | .flowSequenceEnd :: rest => some (.sequence items, rest)
    | .key :: rest =>
      let (key, rest) ← optional fuel .flow [.value, .flowEntry, .flowSequenceEnd] rest
      let (value, rest) ← flowValue fuel .flowSequenceEnd rest
      flowItems fuel false (items ++ [.mapping [(key, value)]]) rest
    | _ =>
      let (item, rest) ← node fuel .flow tokens
      flowItems fuel false (items ++ [item]) rest
  | 0, _, _, _ => none

def flowEntries : Nat → Bool → List (Node × Node) → List Token → Option (Node × List Token)
  | _, _, entries, .flowMappingEnd :: rest => some (.mapping entries, rest)
  | fuel + 1, first, entries, tokens => do
    let tokens ← match first, tokens with
      | true, _ => some tokens
      | false, .flowEntry :: rest => some rest
      | false, _ => none
    match tokens with
    | .flowMappingEnd :: rest => some (.mapping entries, rest)
    | .key :: rest =>
      let (key, rest) ← optional fuel .flow [.value, .flowEntry, .flowMappingEnd] rest
      let (value, rest) ← flowValue fuel .flowMappingEnd rest
      flowEntries fuel false (entries ++ [(key, value)]) rest
    | _ =>
      let (key, rest) ← node fuel .flow tokens
      flowEntries fuel false (entries ++ [(key, absent)]) rest
  | 0, _, _, _ => none

/-- The value after a key in a flow collection that ends with `last`. -/
def flowValue : Nat → Token → List Token → Option (Node × List Token)
  | fuel + 1, last, .value :: rest => optional fuel .flow [.flowEntry, last] rest
  | _, _, rest => some (absent, rest)

end

/-- Reads a text that holds at most one document. A text without one holds an absent node. -/
def read? (text : String) : Option Node := do
  let tokens ← tokens? text
  let fuel := 4 * tokens.length + 4
  let (node, rest) ← match tokens with
    | [] => some (absent, [])
    | .documentStart :: rest => optional fuel .block [.documentStart, .documentEnd] rest
    | _ => node fuel .block tokens
  if rest.all (· = .documentEnd) then some node else none

end Node

end Criterion.Yaml
