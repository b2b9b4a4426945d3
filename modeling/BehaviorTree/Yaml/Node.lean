import BehaviorTree.Yaml.Token

namespace BehaviorTree.Yaml

inductive Node where
  | scalar (scalar : Scalar)
  | sequence (items : List Node)
  | mapping (entries : List (Node × Node))
  deriving Repr, Inhabited

namespace Node

def empty : Node := .scalar ⟨"~", true⟩

/-- Whether a node begins with this token. In a block mapping a sequence needs no deeper indentation;
its first item is then all that tells of it. -/
def beginsWith (inMapping : Bool) : Token → Bool
  | .scalar _ | .flowSequence | .flowMapping | .blockSequence | .blockMapping => true
  | .dash => inMapping
  | _ => false

mutual

def nodeUpTo : (fuel : Nat) → (inMapping : Bool) → List Token → Option (Node × List Token)
  | 0, _, _ => none
  | fuel + 1, inMapping, tokens =>
    match tokens with
    | .scalar s :: rest => some (.scalar s, rest)
    | .flowSequence :: rest => flowItemsUpTo fuel true [] rest
    | .flowMapping :: rest => flowEntriesUpTo fuel true [] rest
    | .blockSequence :: rest => itemsUpTo fuel false [] rest
    | .blockMapping :: rest => entriesUpTo fuel [] rest
    | .dash :: rest => if inMapping then itemsUpTo fuel true [] (.dash :: rest) else none
    | _ => none

def optionalUpTo : (fuel : Nat) → (inMapping : Bool) → List Token → Option (Node × List Token)
  | 0, _, _ => none
  | fuel + 1, inMapping, tokens =>
    if tokens.head?.any (beginsWith inMapping) then nodeUpTo fuel inMapping tokens
    else some (empty, tokens)

def valueUpTo : (fuel : Nat) → (inMapping : Bool) → List Token → Option (Node × List Token)
  | 0, _, _ => none
  | fuel + 1, inMapping, tokens =>
    match tokens with
    | .value :: rest => optionalUpTo fuel inMapping rest
    | _ => some (empty, tokens)

def entryUpTo : (fuel : Nat) → (inMapping : Bool) → List Token → Option ((Node × Node) × List Token)
  | 0, _, _ => none
  | fuel + 1, inMapping, tokens => do
    let (key, rest) ← optionalUpTo fuel inMapping tokens
    let (value, rest) ← valueUpTo fuel inMapping rest
    return ((key, value), rest)

/-- Reads an entry that is an item of a flow sequence. A mark in the place of its key is lost, even if
it would end the sequence. -/
def itemEntryUpTo : (fuel : Nat) → List Token → Option ((Node × Node) × List Token)
  | 0, _ => none
  | fuel + 1, tokens =>
    match tokens with
    | .value :: rest | .comma :: rest | .flowSequenceEnd :: rest => do
      let (value, rest) ← valueUpTo fuel false rest
      return ((empty, value), rest)
    | _ => entryUpTo fuel false tokens

/-- Reads the items of a block sequence after those that were read. One that shares the indentation of
the mapping around it has no mark at its end. -/
def itemsUpTo : (fuel : Nat) → (unmarked : Bool) → List Node → List Token →
    Option (Node × List Token)
  | 0, _, _, _ => none
  | fuel + 1, unmarked, items, tokens =>
    match tokens with
    | .dash :: rest => do
      let (item, rest) ← optionalUpTo fuel false rest
      itemsUpTo fuel unmarked (items ++ [item]) rest
    | .blockEnd :: rest => some (.sequence items, if unmarked then tokens else rest)
    | _ => if unmarked then some (.sequence items, tokens) else none

def entriesUpTo : (fuel : Nat) → List (Node × Node) → List Token → Option (Node × List Token)
  | 0, _, _ => none
  | fuel + 1, entries, tokens =>
    match tokens with
    | .blockEnd :: rest => some (.mapping entries, rest)
    | .key :: rest => do
      let (entry, rest) ← entryUpTo fuel true rest
      entriesUpTo fuel (entries ++ [entry]) rest
    | .value :: rest => do
      let (value, rest) ← valueUpTo fuel true (.value :: rest)
      entriesUpTo fuel (entries ++ [(empty, value)]) rest
    | _ => none

/-- Reads the items of a flow sequence. An item may be an entry, which is a mapping of its own. -/
def flowItemsUpTo : (fuel : Nat) → (first : Bool) → List Node → List Token →
    Option (Node × List Token)
  | 0, _, _, _ => none
  | fuel + 1, first, items, tokens =>
    match tokens with
    | .flowSequenceEnd :: rest => some (.sequence items, rest)
    | .comma :: rest => if first then none else flowItemsUpTo fuel true items rest
    | .key :: rest =>
      if !first then none
      else do
        let (entry, rest) ← itemEntryUpTo fuel rest
        flowItemsUpTo fuel false (items ++ [.mapping [entry]]) rest
    | _ =>
      if !first then none
      else do
        let (item, rest) ← nodeUpTo fuel false tokens
        flowItemsUpTo fuel false (items ++ [item]) rest

def flowEntriesUpTo : (fuel : Nat) → (first : Bool) → List (Node × Node) → List Token →
    Option (Node × List Token)
  | 0, _, _, _ => none
  | fuel + 1, first, entries, tokens =>
    match tokens with
    | .flowMappingEnd :: rest => some (.mapping entries, rest)
    | .comma :: rest => if first then none else flowEntriesUpTo fuel true entries rest
    | .key :: rest =>
      if !first then none
      else do
        let (entry, rest) ← entryUpTo fuel false rest
        flowEntriesUpTo fuel false (entries ++ [entry]) rest
    | .value :: rest =>
      if !first then none
      else do
        let (value, rest) ← valueUpTo fuel false (.value :: rest)
        flowEntriesUpTo fuel false (entries ++ [(empty, value)]) rest
    | _ =>
      if !first then none
      else do
        let (key, rest) ← nodeUpTo fuel false tokens
        flowEntriesUpTo fuel false (entries ++ [(key, empty)]) rest

end

/-- Reads a node. There are at most four steps to a token. -/
def read? (inMapping : Bool) (tokens : List Token) : Option (Node × List Token) :=
  nodeUpTo (4 * tokens.length + 4) inMapping tokens

end Node

def markedDocumentsUpTo : (fuel : Nat) → List Token → Option (List Node)
  | 0, _ => none
  | fuel + 1, tokens =>
    match tokens.dropWhile (· = .documentEnd) with
    | [] => some []
    | .documentStart :: rest => do
      let (document, rest) ←
        if rest.head?.any (Node.beginsWith false) then Node.read? false rest
        else some (Node.empty, rest)
      return document :: (← markedDocumentsUpTo fuel rest)
    | _ => none

def documents? (s : String) : Option (List Node) := do
  let tokens ← tokens? s
  match tokens with
  | [] => some []
  | .documentStart :: _ => markedDocumentsUpTo (tokens.length + 1) tokens
  | _ =>
    let (document, rest) ← Node.read? false tokens
    return document :: (← markedDocumentsUpTo (tokens.length + 1) rest)

end BehaviorTree.Yaml
