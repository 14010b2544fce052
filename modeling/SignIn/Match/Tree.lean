import SignIn.Grammar.Basic
import SignIn.Match.Error
import SignIn.Match.Event
import SignIn.Text.Escaped
/-!
# The tree of a match

Of the operators that a match runs, those that refer to a *selected* rule or terminal are the nodes of
a tree: a node stands for a reference that succeeded, its children for those below it.  What lies
below an operator that failed is forgotten with it.

The watcher keeps a frame for each open operator, with the nodes completed below it.  When the
operator is left its frame goes: on a failure with all its nodes, else into the frame around it, as
one node if the operator is selected and as its nodes if it is not.  A match that is broken off leaves
frames behind, and the records then begin nodes that nothing ends.
-/
namespace SignIn

/-- **A reference that succeeded,** with those below it. -/
inductive Node where
  | mk (symbol : Symbol) (offset length : Nat) (children : List Node)

/-- **An operator that is open:** what node it would be, and the nodes completed below it, the latest
first. -/
structure Frame where
  symbol : Option Symbol
  offset : Nat
  newest : List Node

/-- **The tree so far:** the nodes completed outside every open operator, the latest first, and the
open operators, the innermost first. -/
structure Tree where
  input : Array Char
  newest : List Node
  frames : List Frame

/-- **One side of a node in the flat form of a tree.**  `pair` is the index of the other side. -/
structure NodeRecord where
  opens : Bool
  symbol : Symbol
  offset : Nat
  length : Nat
  pair : Nat
  deriving DecidableEq

/-- **Which references are nodes.** -/
structure Selection where
  rules : Array Bool
  udts : Array Bool

namespace Selection

/-- No reference. -/
def nothing (g : Grammar) : Selection :=
  ⟨Array.replicate g.rules.size false, Array.replicate g.udts.size false⟩

/-- Every reference. -/
def everything (g : Grammar) : Selection :=
  ⟨Array.replicate g.rules.size true, Array.replicate g.udts.size true⟩

/-- **The references to a name as well.** -/
def withName (s : Selection) (g : Grammar) (name : Text) : Except MatchError Selection :=
  match g.lookup name with
  | some (.rule id) => .ok { s with rules := s.rules.setIfInBounds id.index true }
  | some (.udt id) => .ok { s with udts := s.udts.setIfInBounds id.index true }
  | none => .error (.unknownName name)

/-- The references to some names. -/
def ofNames (g : Grammar) (names : List Text) : Except MatchError Selection :=
  names.foldlM (fun s name => s.withName g name) (nothing g)

/-- Whether references to a symbol are nodes. -/
def has (s : Selection) : Symbol → Bool
  | .rule id => (s.rules[id.index]?).getD false
  | .udt id => (s.udts[id.index]?).getD false

/-- The symbol of an operator that is a node. -/
def symbol? (s : Selection) (op : Opcode) : Option Symbol := op.symbol?.filter s.has

end Selection

namespace Tree

/-- The tree of no match. -/
def empty : Tree := ⟨#[], [], []⟩

/-- Nodes added to the innermost open operator, or outside all of them. -/
def add (t : Tree) (nodes : List Node) : Tree :=
  match t.frames with
  | [] => { t with newest := nodes ++ t.newest }
  | f :: fs => { t with frames := { f with newest := nodes ++ f.newest } :: fs }

/-- **What an operator leaves behind:** nothing if it failed, a node if it is selected, else the
nodes below it. -/
def completed (f : Frame) (p : Phrase) : List Node :=
  if p.state = .noMatch then []
  else match f.symbol with
    | some symbol => [.mk symbol f.offset p.length f.newest.reverse]
    | none => f.newest

/-- **The watcher that builds the tree.**  A new match starts a new tree. -/
def watch (s : Selection) : Watcher Tree := fun t e =>
  match e with
  | .start input => ⟨input, [], []⟩
  | .down op offset => { t with frames := ⟨s.symbol? op, offset, []⟩ :: t.frames }
  | .up _ p _ =>
    match t.frames with
    | [] => t
    | f :: fs => { t with frames := fs }.add (completed f p)

/-- The frames from the outermost on. -/
def opened (t : Tree) : List Frame := t.frames.reverse

/-- **The nodes that lie in no other,** of those that are complete: what was completed before the
first selected operator that is still open. -/
def nodes (t : Tree) : List Node :=
  t.newest.reverse ++
    (t.opened.takeWhile fun f => f.symbol.isNone).flatMap fun f => f.newest.reverse

end Tree

/-! ## The flat form -/

mutual

/-- **The records of a node,** the first of them at index `start`: its beginning, those of its
children, its end. -/
def Node.records (start : Nat) : Node → List NodeRecord
  | .mk symbol offset length children =>
    let inner := Node.recordsOfAll (start + 1) children
    ⟨true, symbol, offset, length, start + 1 + inner.length⟩ ::
      (inner ++ [⟨false, symbol, offset, length, start⟩])

/-- The records of nodes one after the other. -/
def Node.recordsOfAll (start : Nat) : List Node → List NodeRecord
  | [] => []
  | n :: ns =>
    let first := n.records start
    first ++ Node.recordsOfAll (start + first.length) ns

end

/-- **The records of an operator that is still open:** the beginning of its node if it is selected,
without a length or an other side yet, and the nodes below it. -/
def Frame.records (start : Nat) (f : Frame) : List NodeRecord :=
  match f.symbol with
  | some symbol =>
    ⟨true, symbol, f.offset, 0, 0⟩ :: Node.recordsOfAll (start + 1) f.newest.reverse
  | none => Node.recordsOfAll start f.newest.reverse

/-- The records of open operators, the outermost first. -/
def Frame.recordsOfAll (start : Nat) : List Frame → List NodeRecord
  | [] => []
  | f :: fs =>
    let first := f.records start
    first ++ Frame.recordsOfAll (start + first.length) fs

namespace Tree

/-- **The flat form of the tree,** in the order of the text. -/
def records (t : Tree) : List NodeRecord :=
  let done := Node.recordsOfAll 0 t.newest.reverse
  done ++ Frame.recordsOfAll done.length t.opened

/-- The line of a node, `depth` nodes around it. -/
def nodeLine (g : Grammar) (input : Array Char) (depth : Nat) (r : NodeRecord) : Text :=
  List.replicate (2 * depth) ' ' ++ g.symbolName r.symbol ++ " [" ++ decimal r.offset ++ ", " ++
    decimal r.length ++ "] '" ++ escapedPhrase (phraseText input r.offset r.length) ++ "'"

/-- The lines of the nodes that begin among some records. -/
def linesFrom (g : Grammar) (input : Array Char) (depth : Nat) : List NodeRecord → List Text
  | [] => []
  | r :: rs =>
    if r.opens then nodeLine g input depth r :: linesFrom g input (depth + 1) rs
    else linesFrom g input (depth - 1) rs

/-- **The tree as indented lines.** -/
def listing (g : Grammar) (t : Tree) : Text := unlines (linesFrom g t.input 0 t.records)

end Tree
end SignIn
