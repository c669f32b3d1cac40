import Mathlib.Data.List.Basic

/-! Regular expressions with the leftmost-first meaning of a backtracking
search: an alternative prefers its left side and a repetition prefers one more
round. The text before the current position is only seen by the word boundary,
through its last symbol. -/

namespace TQDBProxy.Regex

inductive Re (α : Type) where
  | empty
  | one (test : α → Bool)
  | seq (a b : Re α)
  | alt (a b : Re α)
  | star (a : Re α)
  | group (n : Nat) (a : Re α)
  | boundary (word : α → Bool)

variable {α : Type}

namespace Re

def opt (a : Re α) : Re α := .alt a .empty

def plus (a : Re α) : Re α := .seq a (.star a)

def text [BEq α] (l : List α) : Re α := l.foldr (fun x r => .seq (.one (· == x)) r) .empty

def all (rs : List (Re α)) : Re α := rs.foldr .seq .empty

def any (r : Re α) (rs : List (Re α)) : Re α := rs.foldl .alt r

end Re

/-- A position in the text, with the groups closed so far. -/
structure Cursor (α : Type) where
  before : Option α
  input : List α
  groups : List (Nat × List α) := []
  deriving DecidableEq

def Cursor.atBoundary (word : α → Bool) (c : Cursor α) : Bool :=
  (c.before.any word) != (c.input.head?.any word)

/-- A greedy repetition; a round that consumes nothing is not repeated. -/
def repeated (round : Cursor α → (Cursor α → Option (Cursor α)) → Option (Cursor α)) :
    Nat → Cursor α → (Cursor α → Option (Cursor α)) → Option (Cursor α)
  | 0, c, k => k c
  | fuel + 1, c, k =>
    match round c fun d =>
      if d.input.length < c.input.length then repeated round fuel d k else none with
    | some found => some found
    | none => k c

def Re.matchFrom : Re α → Cursor α → (Cursor α → Option (Cursor α)) → Option (Cursor α)
  | .empty, c, k => k c
  | .one test, c, k =>
    match c.input with
    | [] => none
    | x :: rest => if test x then k { c with before := some x, input := rest } else none
  | .seq a b, c, k => a.matchFrom c fun d => b.matchFrom d k
  | .alt a b, c, k =>
    match a.matchFrom c k with
    | some found => some found
    | none => b.matchFrom c k
  | .star a, c, k => repeated a.matchFrom c.input.length c k
  | .group n a, c, k =>
    a.matchFrom c fun d =>
      k { d with groups := (n, c.input.take (c.input.length - d.input.length)) :: d.groups }
  | .boundary word, c, k => if c.atBoundary word then k c else none

def Re.find (r : Re α) (before : Option α) : List α → Option (Cursor α)
  | [] => r.matchFrom ⟨before, [], []⟩ some
  | x :: rest =>
    match r.matchFrom ⟨before, x :: rest, []⟩ some with
    | some found => some found
    | none => r.find (some x) rest

def Cursor.submatch (c : Cursor α) (n : Nat) : List α :=
  match c.groups.find? (·.1 == n) with
  | some (_, text) => text
  | none => []

/-- What is left when every match is removed; `skip` symbols belong to a match. -/
def Re.removeAll (r : Re α) (before : Option α) (skip : Nat) : List α → List α
  | [] => []
  | x :: rest =>
    match skip with
    | skip + 1 => r.removeAll (some x) skip rest
    | 0 =>
      match r.matchFrom ⟨before, x :: rest, []⟩ some with
      | some found =>
        if found.input.length ≤ rest.length then
          r.removeAll (some x) (rest.length - found.input.length) rest
        else x :: r.removeAll (some x) 0 rest
      | none => x :: r.removeAll (some x) 0 rest

end TQDBProxy.Regex
