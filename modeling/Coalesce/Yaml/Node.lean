import Coalesce.Yaml.Token
/-! # YAML documents

The tokens of a text make up a tree of nodes. A node that has a name gets a label, and references
hold the label of the name they give. -/
namespace Coalesce.Yaml

inductive Node where
  | scalar (label : Option Nat) (tag : Option String) (style : ScalarStyle) (text : String)
  | sequence (label : Option Nat) (items : List Node)
  | mapping (label : Option Nat) (pairs : List (Node × Node))
  | reference (label : Nat)

namespace Node

def empty : Node := .scalar none none .plain ""

def carrying (label : Nat) (n : Node) : Option Node :=
  let own := match n with
    | .scalar l _ _ _ => l
    | .sequence l _ => l
    | .mapping l _ => l
    | .reference _ => none
  if own = some label then some n else none

mutual

/-- The last node with a label, a node coming before its parts. -/
def labelled? (label : Nat) : Node → Option Node
  | .scalar l t s text => (Node.scalar l t s text).carrying label
  | .reference l => (Node.reference l).carrying label
  | .sequence l items =>
    (labelledItem? label items).or ((Node.sequence l items).carrying label)
  | .mapping l pairs =>
    (labelledPair? label pairs).or ((Node.mapping l pairs).carrying label)

def labelledItem? (label : Nat) : List Node → Option Node
  | [] => none
  | n :: rest => (labelledItem? label rest).or (labelled? label n)

def labelledPair? (label : Nat) : List (Node × Node) → Option Node
  | [] => none
  | (k, v) :: rest =>
    ((labelledPair? label rest).or (labelled? label v)).or (labelled? label k)

end

def resolve (root : Node) : Node → Option Node
  | .reference label => root.labelled? label
  | n => some n

end Node

structure Composer where
  rest : List Token
  names : List (String × Nat) := []

abbrev TagMeanings := List (String × String)

def Tag.resolve (meanings : TagMeanings) (t : Tag) : Option String :=
  if t.handle.isEmpty then some t.suffix else (meanings.lookup t.handle).map (· ++ t.suffix)

structure Properties where
  label : Option Nat := none
  tag : Option String := none

namespace Composer

/-- Gives a name the number of names so far as its label. A name that is given again counts once, so
that the next name then has the same label. -/
def name (s : Composer) (n : String) : Nat × Composer :=
  let label := s.names.length
  (label, { s with names := (n, label) :: s.names.filter (·.1 ≠ n) })

def readProperties (meanings : TagMeanings) (s : Composer) : Option (Properties × Composer) :=
  match s.rest with
  | .anchor n :: .tag t :: rest => do
    let (label, s) := name { s with rest } n
    return (⟨some label, ← t.resolve meanings⟩, s)
  | .anchor n :: rest =>
    let (label, s) := name { s with rest } n
    some (⟨some label, none⟩, s)
  | .tag t :: .anchor n :: rest => do
    let (label, s) := name { s with rest } n
    return (⟨some label, ← t.resolve meanings⟩, s)
  | .tag t :: rest => do return (⟨none, ← t.resolve meanings⟩, { s with rest })
  | _ => some ({}, s)

def bareNode (p : Properties) (s : Composer) : Option (Node × Composer) :=
  if p.label.isSome || p.tag.isSome then some (.scalar p.label p.tag .plain "", s)
  else none

def endsEntry (t : Token) : Bool := t = .entry || t = .blockEnd
def endsPart (t : Token) : Bool := t = .key || t = .value || t = .blockEnd
def endsLooseEntry (t : Token) : Bool := t = .entry || endsPart t
def endsFlowItem (t : Token) : Bool := t = .flowEntry || t = .flowSequenceEnd
def endsFlowPair (t : Token) : Bool := t = .flowEntry || t = .flowMappingEnd

mutual

/-- Reads a node. Block collections stand only in blocks, and a sequence that is not indented only
in a block mapping. -/
def readNode (meanings : TagMeanings) (inBlock inMapping : Bool) :
    Nat → Composer → Option (Node × Composer)
  | 0, _ => none
  | fuel + 1, s =>
    match s.rest with
    | .reference n :: rest => do return (.reference (← s.names.lookup n), { s with rest })
    | _ => do
      let (p, s) ← s.readProperties meanings
      match s.rest with
      | .scalar text style :: rest => return (.scalar p.label p.tag style text, { s with rest })
      | .flowSequence :: rest =>
        let (items, s) ← readFlowItems meanings true fuel { s with rest }
        return (.sequence p.label items, s)
      | .flowMapping :: rest =>
        let (pairs, s) ← readFlowPairs meanings true fuel { s with rest }
        return (.mapping p.label pairs, s)
      | .entry :: _ =>
        if inMapping then
          let (items, s) ← readLooseEntries meanings fuel s
          return (.sequence p.label items, s)
        else bareNode p s
      | .blockSequence :: rest =>
        if inBlock then
          let (items, s) ← readEntries meanings fuel { s with rest }
          return (.sequence p.label items, s)
        else bareNode p s
      | .blockMapping :: rest =>
        if inBlock then
          let (pairs, s) ← readPairs meanings fuel { s with rest }
          return (.mapping p.label pairs, s)
        else bareNode p s
      | _ => bareNode p s

def readPart (meanings : TagMeanings) (inBlock inMapping : Bool) (ends : Token → Bool) :
    Nat → Composer → Option (Node × Composer)
  | 0, _ => none
  | fuel + 1, s =>
    match s.rest with
    | [] => none
    | t :: _ =>
      if ends t then some (.empty, s) else readNode meanings inBlock inMapping fuel s

def readEntries (meanings : TagMeanings) : Nat → Composer → Option (List Node × Composer)
  | 0, _ => none
  | fuel + 1, s =>
    match s.rest with
    | .blockEnd :: rest => some ([], { s with rest })
    | .entry :: rest => do
      let (n, s) ← readPart meanings true false endsEntry fuel { s with rest }
      let (items, s) ← readEntries meanings fuel s
      return (n :: items, s)
    | _ => none

def readLooseEntries (meanings : TagMeanings) : Nat → Composer → Option (List Node × Composer)
  | 0, _ => none
  | fuel + 1, s =>
    match s.rest with
    | .entry :: rest => do
      let (n, s) ← readPart meanings true false endsLooseEntry fuel { s with rest }
      let (items, s) ← readLooseEntries meanings fuel s
      return (n :: items, s)
    | _ => some ([], s)

/-- Reads the pairs of a block mapping up to its end. A pair without a colon has an empty value. -/
def readPairs (meanings : TagMeanings) : Nat → Composer → Option (List (Node × Node) × Composer)
  | 0, _ => none
  | fuel + 1, s =>
    match s.rest with
    | .blockEnd :: rest => some ([], { s with rest })
    | .key :: rest => do
      let (k, s) ← readPart meanings true true endsPart fuel { s with rest }
      let (v, s) ← readValue meanings true endsPart fuel s
      let (pairs, s) ← readPairs meanings fuel s
      return ((k, v) :: pairs, s)
    | _ => none

def readValue (meanings : TagMeanings) (inBlock : Bool) (ends : Token → Bool) :
    Nat → Composer → Option (Node × Composer)
  | 0, _ => none
  | fuel + 1, s =>
    match s.rest with
    | .value :: rest => readPart meanings inBlock inBlock ends fuel { s with rest }
    | _ => some (.empty, s)

def readFlowItems (meanings : TagMeanings) (first : Bool) :
    Nat → Composer → Option (List Node × Composer)
  | 0, _ => none
  | fuel + 1, s => do
    let rest ← match s.rest with
      | .flowSequenceEnd :: rest => some (.flowSequenceEnd :: rest)
      | .flowEntry :: rest => if first then none else some rest
      | rest => if first then some rest else none
    match rest with
    | .flowSequenceEnd :: rest => return ([], { s with rest })
    | .key :: rest =>
      let (pair, s) ← readFlowItemPair meanings fuel { s with rest }
      let (items, s) ← readFlowItems meanings false fuel s
      return (.mapping none [pair] :: items, s)
    | rest =>
      let (n, s) ← readNode meanings false false fuel { s with rest }
      let (items, s) ← readFlowItems meanings false fuel s
      return (n :: items, s)

/-- Reads a pair that is an item of a flow sequence. The token that stands in the place of a missing
key is passed over. -/
def readFlowItemPair (meanings : TagMeanings) :
    Nat → Composer → Option ((Node × Node) × Composer)
  | 0, _ => none
  | fuel + 1, s =>
    match s.rest with
    | [] => none
    | t :: rest => do
      let (k, s) ←
        if t = .value || endsFlowItem t then some (.empty, { s with rest })
        else readNode meanings false false fuel s
      let (v, s) ← readValue meanings false endsFlowItem fuel s
      return ((k, v), s)

/-- Reads the pairs of a flow mapping up to its end. A node without a key's mark has an empty
value. -/
def readFlowPairs (meanings : TagMeanings) (first : Bool) :
    Nat → Composer → Option (List (Node × Node) × Composer)
  | 0, _ => none
  | fuel + 1, s => do
    let rest ← match s.rest with
      | .flowMappingEnd :: rest => some (.flowMappingEnd :: rest)
      | .flowEntry :: rest => if first then none else some rest
      | rest => if first then some rest else none
    match rest with
    | .flowMappingEnd :: rest => return ([], { s with rest })
    | .key :: rest =>
      let (k, s) ← readPart meanings false false (fun t => t = .value || endsFlowPair t) fuel
        { s with rest }
      let (v, s) ← readValue meanings false endsFlowPair fuel s
      let (pairs, s) ← readFlowPairs meanings false fuel s
      return ((k, v) :: pairs, s)
    | rest =>
      let (k, s) ← readNode meanings false false fuel { s with rest }
      let (pairs, s) ← readFlowPairs meanings false fuel s
      return ((k, .empty) :: pairs, s)

end

def defaultMeanings : TagMeanings := [("!", "!"), ("!!", "tag:yaml.org,2002:")]

/-- Reads directives: at most one version, which has to be known, and one meaning for each
handle. -/
def readDirectives (versioned : Bool) (meanings : TagMeanings) :
    List Token → Option (TagMeanings × List Token)
  | .version major minor :: rest =>
    if !versioned && major = 1 && (minor = 1 || minor = 2) then readDirectives true meanings rest
    else none
  | .tagMeaning handle uri :: rest =>
    if (meanings.lookup handle).isSome then none
    else readDirectives versioned ((handle, uri) :: meanings) rest
  | rest => some (meanings, rest)

def endsDocument : Token → Bool
  | .version _ _ | .tagMeaning _ _ | .documentStart | .documentEnd | .streamEnd => true
  | _ => false

/-- Reads a document: a node, or directives and a mark of its start before it. A text without tokens
is an empty document. A node takes at most three readers in a row per token. -/
def readDocument (tokens : List Token) : Option (Node × List Token) := do
  let fuel := 4 * tokens.length + 4
  match tokens with
  | .streamEnd :: _ => return (.empty, tokens)
  | t :: _ =>
    if t = .documentEnd || !endsDocument t then
      let (n, s) ← readNode defaultMeanings true false fuel { rest := tokens }
      return (n, s.rest)
    else
      match ← readDirectives false [] tokens with
      | (meanings, .documentStart :: rest) =>
        let (n, s) ← readPart (meanings ++ defaultMeanings) true false endsDocument fuel { rest }
        return (n, s.rest)
      | _ => none
  | [] => none

end Composer

def document? (text : String) : Option Node := do
  let (n, rest) ← Composer.readDocument (← tokens? text)
  if rest.dropWhile (· = .documentEnd) = [.streamEnd] then return n else none

end Coalesce.Yaml
