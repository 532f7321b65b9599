import DeclBundle.Text.Utf8
import DeclBundle.Tree
set_option autoImplicit false

/-!
# Rewriting a source along its tree

A rule says of each tree whether other text stands for it.  The rewriter walks the trees in
pre-order with a cursor into the source: text before a tree is copied when the tree is reached,
a tree with other text is passed over, and what is left is copied at the end.  Text that no tree
covers is thus kept as it is, and the rule is never asked about what lies inside a tree that has
been replaced.
-/

namespace DeclBundle.Rewrite

open Utf8

variable {κ : Type}

/-- What stands for a tree instead of its source, if anything does. -/
abbrev Rule (κ : Type) := Tree κ → Except Fault (Option String)

/-- How far a walk has come: where the cursor stands, what has been written, and which trees the
rule has been asked about. -/
structure Progress (κ : Type) where
  cursor : Nat
  written : List Char
  asked : List (Tree κ)

/-- A walk that stopped because a slice of the source is not text, with the trees that the rule
had been asked about by then. -/
structure Halt (κ : Type) where
  fault : Fault
  asked : List (Tree κ)

/-- The text of the bytes from `start` up to `stop`.  Offsets past the end count as the end. -/
def slice (source : List UInt8) (start stop : Nat) : Except Fault (List Char) :=
  decode ((source.drop start).take (stop - start))

/-- Copies the source from the cursor up to a position, if the cursor is not there yet. -/
def copyTo (source : List UInt8) (position : Nat) (p : Progress κ) :
    Except (Halt κ) (Progress κ) :=
  if p.cursor < position then
    match slice source p.cursor position with
    | .ok text => .ok { p with cursor := position, written := p.written ++ text }
    | .error fault => .error ⟨fault, p.asked⟩
  else .ok p

mutual

/-- Walks over a tree. -/
def visit (source : List UInt8) (rule : Rule κ) :
    Tree κ → Progress κ → Except (Halt κ) (Progress κ)
  | .node l s cs, p => do
    let p ← copyTo source s.start p
    let p := { p with asked := p.asked ++ [.node l s cs] }
    match rule (.node l s cs) with
    | .error fault => .error ⟨fault, p.asked⟩
    | .ok (some text) =>
      .ok { p with cursor := max p.cursor s.stop, written := p.written ++ text.toList }
    | .ok none => visitAll source rule cs p

/-- Walks over several trees in order. -/
def visitAll (source : List UInt8) (rule : Rule κ) :
    List (Tree κ) → Progress κ → Except (Halt κ) (Progress κ)
  | [], p => .ok p
  | t :: ts, p => do visitAll source rule ts (← visit source rule t p)

end

/-- Rewrites the part of the source from `start` to `stop` along some trees. -/
def between (source : List UInt8) (rule : Rule κ) (trees : List (Tree κ)) (start stop : Nat) :
    Except (Halt κ) (Progress κ) := do
  copyTo source stop (← visitAll source rule trees ⟨start, [], []⟩)

/-- Rewrites the whole source along the tree of its root. -/
def wholeProgress (source : List UInt8) (root : Tree κ) (rule : Rule κ) :
    Except (Halt κ) (Progress κ) :=
  between source rule [root] 0 source.length

/-- Rewrites what the trees cover, from the beginning of the first to the end of the last. -/
def siblingsProgress (source : List UInt8) (trees : List (Tree κ)) (rule : Rule κ) :
    Except (Halt κ) (Progress κ) :=
  match trees.head?, trees.getLast? with
  | some first, some last => between source rule trees first.start last.stop
  | _, _ => .ok ⟨0, [], []⟩

/-- The text of a finished walk. -/
def result (r : Except (Halt κ) (Progress κ)) : Except Fault String :=
  match r with
  | .ok p => .ok (.ofList p.written)
  | .error h => .error h.fault

/-- The rewritten source. -/
def whole (source : List UInt8) (root : Tree κ) (rule : Rule κ) : Except Fault String :=
  result (wholeProgress source root rule)

/-- The rewritten text of some trees and of what stands between them. -/
def siblings (source : List UInt8) (trees : List (Tree κ)) (rule : Rule κ) :
    Except Fault String :=
  result (siblingsProgress source trees rule)

end DeclBundle.Rewrite
