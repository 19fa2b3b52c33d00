import Cairn.Machine.Fault

/-!
# Cairn — bounded stacks
-/

namespace Cairn

/-- A stack that holds at most `limit` items; the topmost one comes first. -/
structure Stack (α : Type) where
  items : List α
  limit : Nat
deriving Repr

namespace Stack

variable {α : Type}

/-- A stack without items. -/
def empty (limit : Nat) : Stack α :=
  ⟨[], limit⟩

/-- How many items there are. -/
def depth (s : Stack α) : Nat :=
  s.items.length

/-- Puts an item on top, if there is room. -/
def push (s : Stack α) (a : α) : Except Fault (Stack α) :=
  if s.limit ≤ s.depth then .error (.stackOverflow s.limit)
  else .ok { s with items := a :: s.items }

/-- Takes the topmost item off. -/
def pop (s : Stack α) : Except Fault (α × Stack α) :=
  match s.items with
  | [] => .error .stackUnderflow
  | a :: rest => .ok (a, { s with items := rest })

/-- Takes the `n` topmost items off and gives them in the order in which they
were pushed. -/
def popMany (s : Stack α) (n : Nat) : Except Fault (List α × Stack α) :=
  if s.depth < n then .error .stackUnderflow
  else .ok ((s.items.take n).reverse, { s with items := s.items.drop n })

/-- The topmost item. -/
def peek? (s : Stack α) : Option α :=
  s.items.head?

/-- The items from the bottom up. -/
def toList (s : Stack α) : List α :=
  s.items.reverse

/-- The items and the limit, for inspection. -/
def text (itemText : α → String) (s : Stack α) : String :=
  "Stack \x7b items: [" ++ ", ".intercalate (s.toList.map itemText) ++ "], max_size: " ++
    unsignedText s.limit ++ " \x7d"

end Stack

end Cairn
