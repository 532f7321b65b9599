set_option autoImplicit false

/-!
# Syntax trees over a source

A tree labels spans of a source.  Spans are byte offsets, and nothing in the type asks them to be
nested or in order: that is for the parser to give and for statements to assume.
-/

namespace DeclBundle

/-- The bytes from `start` up to `stop`. -/
structure Span where
  start : Nat
  stop : Nat
  deriving DecidableEq, Repr

/-- A labelled span with the trees inside it, in order. -/
inductive Tree (κ : Type) where
  | node (label : κ) (span : Span) (children : List (Tree κ))

namespace Tree

variable {κ : Type}

/-- What the tree is. -/
def label : Tree κ → κ
  | node l _ _ => l

/-- The bytes that the tree covers. -/
def span : Tree κ → Span
  | node _ s _ => s

/-- Where the tree begins. -/
def start (t : Tree κ) : Nat := t.span.start

/-- Where the tree ends. -/
def stop (t : Tree κ) : Nat := t.span.stop

/-- The trees directly inside. -/
def children : Tree κ → List (Tree κ)
  | node _ _ cs => cs

@[simp] theorem children_node (l : κ) (s : Span) (cs : List (Tree κ)) :
    (node l s cs).children = cs := rfl

@[simp] theorem label_node (l : κ) (s : Span) (cs : List (Tree κ)) :
    (node l s cs).label = l := rfl

@[simp] theorem span_node (l : κ) (s : Span) (cs : List (Tree κ)) :
    (node l s cs).span = s := rfl

@[simp] theorem start_node (l : κ) (s : Span) (cs : List (Tree κ)) :
    (node l s cs).start = s.start := rfl

@[simp] theorem stop_node (l : κ) (s : Span) (cs : List (Tree κ)) :
    (node l s cs).stop = s.stop := rfl

/-! ## Height -/

mutual

/-- How many trees stand on the longest way down. -/
def height : Tree κ → Nat
  | node _ _ cs => heightAll cs + 1

/-- The greatest height of several trees. -/
def heightAll : List (Tree κ) → Nat
  | [] => 0
  | t :: ts => max t.height (heightAll ts)

end

theorem heightAll_drop_le (n : Nat) (ts : List (Tree κ)) : heightAll (ts.drop n) ≤ heightAll ts := by
  induction ts generalizing n with
  | nil => simp
  | cons t ts ih =>
    cases n with
    | zero => exact Nat.le_refl _
    | succ n => exact Nat.le_trans (ih n) (Nat.le_max_right _ _)

/-- The trees inside another are lower, also without the first ones. -/
theorem heightAll_drop_children_lt (n : Nat) (t : Tree κ) :
    heightAll (t.children.drop n) < t.height := by
  cases t with
  | node l s cs =>
    simp only [children_node, height]
    exact Nat.lt_succ_of_le (heightAll_drop_le n cs)

end Tree

end DeclBundle
