import TQDBProxy.SqlCode

/-! The qualified table references of a MySQL statement, read off its code: a keyword that
introduces a table, a database name, a dot and a name. FROM introduces no table in the
argument list of EXTRACT, TRIM and SUBSTRING and in a range of times, UPDATE none in ON
DUPLICATE KEY UPDATE, and INTO only one after INSERT or REPLACE. -/

namespace TQDBProxy.SqlTokens

/-- The token before the parenthesis that the reversed tokens are in. -/
def enclosing : Nat → List GoString → Option GoString
  | _, [] => none
  | depth, t :: earlier =>
    if t = lit ")" then enclosing (depth + 1) earlier
    else if t = lit "(" then
      match depth with
      | 0 => earlier.head?
      | depth + 1 => enclosing depth earlier
    else enclosing depth earlier

def isOneOf (keywords : List String) (t : GoString) : Bool :=
  keywords.any fun k => isKeyword (lit k) t

/-- A keyword that introduces a table, after the tokens before it. -/
def tableKeyword (before : List GoString) (t : GoString) : Bool :=
  if isKeyword (lit "FROM") t then
    !(enclosing 0 before.reverse).any (isOneOf ["EXTRACT", "TRIM", "SUBSTRING", "SUBSTR", "MID"]) &&
      !before.getLast?.any (isOneOf ["SYSTEM_TIME", "DISTINCT"]) &&
      !(before.reverse.drop 2).head?.any (isOneOf ["PORTION"])
  else if isKeyword (lit "UPDATE") t then !before.getLast?.any (isOneOf ["KEY", "FOR", "ON"])
  else if isKeyword (lit "INTO") t then
    before.getLast?.any
      (isOneOf ["INSERT", "REPLACE", "LOW_PRIORITY", "HIGH_PRIORITY", "DELAYED", "IGNORE"])
  else isKeyword (lit "JOIN") t

def nameOf : GoString → Option GoString
  | [] => none
  | b :: rest =>
    if b = 96 then if rest.getLast? = some 96 then some rest.dropLast else none
    else if wordByte b && !(b :: rest).all isDigit then some (b :: rest)
    else none

def isName (t : GoString) : Bool := t.head?.any fun b => wordByte b || b == 96

/-- The database of the reference that a keyword introduces. -/
def reference (before : List GoString) (keyword : GoString) : List GoString → Option GoString
  | qualifier :: dot :: name :: _ =>
    if tableKeyword before keyword && dot == [46] && isName name then nameOf qualifier else none
  | _ => none

def referencesFrom (before : List GoString) : List GoString → List GoString
  | [] => []
  | keyword :: later =>
    (reference before keyword later).toList ++ referencesFrom (before ++ [keyword]) later

/-- The databases of the qualified table references, in their order. -/
def tableDatabases (s : GoString) : List GoString := referencesFrom [] (code .mysql s)

example : tableDatabases (lit "SELECT * FROM shop.users u JOIN `crm` . tags ON 'from a.b' = u.x") =
    [lit "shop", lit "crm"] := by decide +kernel

theorem mem_referencesFrom {before front later : List GoString} {keyword db : GoString}
    (found : reference (before ++ front) keyword later = some db) :
    db ∈ referencesFrom before (front ++ keyword :: later) := by
  induction front generalizing before with
  | nil =>
    rw [List.append_nil] at found
    simp [referencesFrom, found]
  | cons t front ih =>
    rw [List.cons_append, referencesFrom]
    exact List.mem_append_right _ (ih (by simpa using found))

end TQDBProxy.SqlTokens
