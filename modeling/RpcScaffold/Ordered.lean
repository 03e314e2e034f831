/-!
# Ascending lists without repetition

A finite set over an ordered type is kept as the ascending list of its members, so
equal sets are equal lists and can be printed as they are. The order is given as a
test `before`; texts are ordered by their code points.
-/
namespace RpcScaffold.Ordered

variable {α : Type}

/-- The lexicographic order of lists over an order of their members. -/
def listBefore (before : α → α → Bool) : List α → List α → Bool
  | _, [] => false
  | [], _ :: _ => true
  | a :: as, b :: bs => before a b || (!before b a && listBefore before as bs)

def charBefore (a b : Char) : Bool := a.toNat < b.toNat

/-- Whether a text comes before another, code point by code point. -/
def textBefore (a b : String) : Bool := listBefore charBefore a.toList b.toList

/-- Adds a member in its place; a member that is there already is kept once. -/
def insert (before : α → α → Bool) (a : α) : List α → List α
  | [] => [a]
  | b :: bs =>
    if before a b then a :: b :: bs
    else if before b a then b :: insert before a bs
    else b :: bs

/-- The members of `items` joined to an ascending list. -/
def insertAll (before : α → α → Bool) (items : List α) (set : List α) : List α :=
  items.foldl (fun set a => insert before a set) set

def ofList (before : α → α → Bool) (items : List α) : List α :=
  insertAll before items []

end RpcScaffold.Ordered
