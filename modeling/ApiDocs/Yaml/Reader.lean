import ApiDocs.Node
import ApiDocs.Yaml.Token
/-!
# The node of a YAML text

A text holds at most one document. A plain text becomes a bare word, whose type is open, and any
other text a string. An alias stands for the node of the last anchor of its name.
-/
namespace ApiDocs.Yaml

/-- What is still to be read of a document. -/
structure Pending where
  tokens : List Token
  /-- The anchored nodes so far, the last one first. -/
  anchors : List (String × Node)
  /-- What the handles of tags stand for. -/
  handles : List (String × String)

/-- Takes a part of a document, unless it is malformed. -/
abbrev Reader (α : Type) := StateT Pending Option α

namespace Reader

def malformed {α : Type} : Reader α := fun _ => none

def peek : Reader (Option Token) := do return (← get).tokens.head?

def skip : Reader Unit := modify fun p => { p with tokens := p.tokens.drop 1 }

/-- Whether the next token is one of these. -/
def at? (ts : List Token) : Reader Bool := do return (← peek).any ts.contains

/-- Takes the next token if it is `t`, and tells whether it was. -/
def take? (t : Token) : Reader Bool := do
  if ← at? [t] then skip; return true else return false

/-- What is left out counts as an empty plain text. -/
def nothing : Node := .bare ""

/-- Takes an anchor, if one comes next. -/
def anchor? : Reader (Option String) := do
  match ← peek with
  | some (.anchor name) => skip; return some name
  | _ => return none

/-- Takes a tag, if one comes next. Its handle has to be known. -/
def tag? : Reader (Option String) := do
  match ← peek with
  | some (.tag handle suffix) =>
    skip
    if handle.isEmpty then return some suffix
    else
      match (← get).handles.lookup handle with
      | some expansion => return some (expansion ++ suffix)
      | none => malformed
  | _ => return none

/-- Gives a name to the node that is about to be read; the place of the name is returned. -/
def declare (name : String) : Reader Nat := do
  let p ← get
  set { p with anchors := (name, Node.unreadable) :: p.anchors }
  return p.anchors.length

/-- Sets the node whose name is at `place`, counted from the first one. -/
def define (place : Nat) (n : Node) : Reader Unit :=
  modify fun p =>
    { p with anchors := p.anchors.modify (p.anchors.length - 1 - place) fun (name, _) => (name, n) }

def nullTag : String := "tag:yaml.org,2002:null"

/-- A bare word, which a tag other than that of null keeps from being null. -/
def ofWord (tag : Option String) (word : String) : Node :=
  if tag.any (fun t => t != "!" && t != nullTag) && ["", "~", "null", "Null", "NULL"].contains word
  then .str word else .bare word

/-- The node of a mapping. All its keys have to be texts. -/
def ofPairs (pairs : List (Node × Node)) : Node :=
  let key? : Node → Option String
    | .str s | .bare s => some s
    | _ => none
  match pairs.mapM fun (k, v) => (key? k).map fun name => (name, v) with
  | some members => .obj members
  | none => .unreadable

mutual

/-- A node. Block collections may open in it if `block`, and if `bare` also a sequence that is not
indented. -/
def node (block bare : Bool) : Nat → Reader Node
  | 0 => malformed
  | fuel + 1 => do
    if let some (.alias name) ← peek then
      skip
      match (← get).anchors.lookup name with
      | some n => return n
      | none => malformed
    else
      let name ← anchor?
      let tag ← tag?
      let name ← if name.isNone then anchor? else pure name
      match name with
      | none => content block bare tag.isSome tag fuel
      | some name =>
        let place ← declare name
        let n ← content block bare true tag fuel
        define place n
        return n

/-- A node without its anchor and tag; if there were any, it may be left out. -/
def content (block bare optional : Bool) (tag : Option String) : Nat → Reader Node
  | 0 => malformed
  | fuel + 1 => do
    match ← peek with
    | some (.word w) => skip; return ofWord tag w
    | some (.text s) => skip; return .str s
    | some .openSequence => skip; return .sequence (← flowItems true fuel)
    | some .openMapping => skip; return ofPairs (← flowPairs true fuel)
    | t =>
      if bare && t == some .entry then return .sequence (← bareItems fuel)
      else if block && t == some .blockSequence then skip; return .sequence (← blockItems fuel)
      else if block && t == some .blockMapping then skip; return ofPairs (← blockPairs fuel)
      else if optional then return ofWord tag ""
      else malformed

/-- A node of a block, unless one of `ends` comes next. -/
def blockNode (bare : Bool) (ends : List Token) : Nat → Reader Node
  | 0 => malformed
  | fuel + 1 => do
    if ← at? ends then return nothing else node true bare fuel

/-- A node between brackets, unless one of `ends` comes next. -/
def flowNode (ends : List Token) : Nat → Reader Node
  | 0 => malformed
  | fuel + 1 => do
    if ← at? ends then return nothing else node false false fuel

/-- The items of an indented sequence. -/
def blockItems : Nat → Reader (List Node)
  | 0 => malformed
  | fuel + 1 => do
    if ← take? .entry then
      let item ← blockNode false [.entry, .blockEnd] fuel
      return item :: (← blockItems fuel)
    else if ← take? .blockEnd then return []
    else malformed

/-- The items of a sequence that stands in the column of the key before it. -/
def bareItems : Nat → Reader (List Node)
  | 0 => malformed
  | fuel + 1 => do
    if ← take? .entry then
      let item ← blockNode false [.entry, .key, .value, .blockEnd] fuel
      return item :: (← bareItems fuel)
    else return []

def blockPairs : Nat → Reader (List (Node × Node))
  | 0 => malformed
  | fuel + 1 => do
    if ← take? .key then
      let ends := [Token.key, .value, .blockEnd]
      let key ← blockNode true ends fuel
      let value ← if ← take? .value then blockNode true ends fuel else pure nothing
      return (key, value) :: (← blockPairs fuel)
    else if ← take? .blockEnd then return []
    else malformed

/-- The items of a bracketed sequence. An item with a key is a mapping of one pair. -/
def flowItems (first : Bool) : Nat → Reader (List Node)
  | 0 => malformed
  | fuel + 1 => do
    if ← take? .closeSequence then return []
    else if ← (if first then pure false else do return !(← take? .comma)) then malformed
    else if ← take? .closeSequence then return []
    else if ← take? .key then
      let key ← if ← at? [.value, .comma, .closeSequence] then skip; pure nothing
        else node false false fuel
      let value ← if ← take? .value then flowNode [.comma, .closeSequence] fuel else pure nothing
      return ofPairs [(key, value)] :: (← flowItems false fuel)
    else
      let item ← node false false fuel
      return item :: (← flowItems false fuel)

/-- The pairs of a bracketed mapping. A key without a value has an empty one. -/
def flowPairs (first : Bool) : Nat → Reader (List (Node × Node))
  | 0 => malformed
  | fuel + 1 => do
    if ← take? .closeMapping then return []
    else if ← (if first then pure false else do return !(← take? .comma)) then malformed
    else if ← take? .closeMapping then return []
    else if ← take? .key then
      let ends := [Token.comma, .closeMapping]
      let key ← flowNode (.value :: ends) fuel
      let value ← if ← take? .value then flowNode ends fuel else pure nothing
      return (key, value) :: (← flowPairs false fuel)
    else
      let key ← node false false fuel
      return (key, nothing) :: (← flowPairs false fuel)

end

/-- The directives before a document: at most one version, which is 1.1 or 1.2, and handles with
different names. -/
def directives (versioned : Bool) : Nat → Reader Unit
  | 0 => malformed
  | fuel + 1 => do
    match ← peek with
    | some (.version major minor) =>
      skip
      if versioned || major != 1 || (minor != 1 && minor != 2) then malformed
      else directives true fuel
    | some (.handle name expansion) =>
      skip
      let p ← get
      if (p.handles.lookup name).isSome then malformed
      else
        set { p with handles := (name, expansion) :: p.handles }
        directives versioned fuel
    | _ => return ()

def isDirective : Token → Bool
  | .version .. | .handle .. => true
  | _ => false

/-- The only document of a text; without one the text counts as an empty plain text. -/
def document (fuel : Nat) : Reader Node := do
  match ← peek with
  | none => return nothing
  | some t =>
    let marked := isDirective t || t == .documentStart
    directives false fuel
    if marked && !(← take? .documentStart) then malformed
    else
      modify fun p =>
        let known := p.handles.map (·.1)
        let usual := [("!", "!"), ("!!", "tag:yaml.org,2002:")]
        { p with handles := p.handles ++ usual.filter fun h => !known.contains h.1 }
      let n ← do
        let t ← peek
        if marked && t.all (fun t => isDirective t || t == .documentStart || t == .documentEnd)
        then pure nothing
        else node true false fuel
      ends fuel
      if (← peek).isNone then return n else malformed
where
  /-- Passes over the marks at the end of a document. -/
  ends : Nat → Reader Unit
    | 0 => return ()
    | fuel + 1 => do
      if ← take? .documentEnd then ends fuel else return ()

end Reader

/-- The node of a text, if it is well formed. -/
def read (text : String) : Option Node := do
  let tokens ← Token.ofText? text
  let (n, _) ← Reader.document (4 * tokens.length + 8) ⟨tokens, [], []⟩
  return n

end ApiDocs.Yaml
