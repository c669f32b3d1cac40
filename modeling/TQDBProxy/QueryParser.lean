import TQDBProxy.GoStrings
import TQDBProxy.Regex

/-! The analysis of a query text: its type, the database of a qualified name
and the hints of a comment. The expressions of the parser are over runes; all
their symbols are ASCII but for the long s and the Kelvin sign, which the
case-insensitive ones take for S and K. -/

namespace TQDBProxy.Parser

open Regex

inductive QueryType where
  | unknown
  | select
  | insert
  | update
  | delete
  deriving DecidableEq

structure ParsedQuery where
  type : QueryType := .unknown
  ttl : Nat := 0
  db : GoString := []
  file : GoString := []
  line : Nat := 0
  batchMs : Nat := 0
  query : GoString
  deriving DecidableEq

def space (b : UInt8) : Bool := b == 32 || b == 9 || b == 10 || b == 12 || b == 13

def digit (b : UInt8) : Bool := 48 ≤ b && b ≤ 57

def word (b : UInt8) : Bool := digit b || (65 ≤ b && b ≤ 90) || (97 ≤ b && b ≤ 122) || b == 95

def spaces : Re UInt8 := .star (.one space)

def digits : Re UInt8 := .plus (.one digit)

def keyword (text : String) : Re UInt8 :=
  .all ((lit text).map fun b =>
    if b == 83 then .any (.one fun x => Strings.upperByte x == b) [.text [0xC5, 0xBF]]
    else .one fun x => Strings.upperByte x == b)

def hintRegex : Re UInt8 :=
  .all [.text (lit "/*"), spaces,
    .opt (.group 1 (.seq (.text (lit "ttl:")) (.group 2 digits))), spaces,
    .opt (.group 3 (.seq (.text (lit "file:")) (.group 4 (.plus (.one fun b => !space b))))),
      spaces,
    .opt (.group 5 (.seq (.text (lit "line:")) (.group 6 digits))), spaces,
    .opt (.group 7 (.seq (.text (lit "batch:")) (.group 8 digits))), spaces,
    .text (lit "*/")]

def queryTypeRegex : Re UInt8 :=
  .all [.boundary word,
    .group 1 (.any (keyword "SELECT") [keyword "INSERT", keyword "UPDATE", keyword "DELETE"]),
    .boundary word]

def quoteMark : Re UInt8 := .opt (.one fun b => b == 39 || b == 34 || b == 96)

def fqnName : Re UInt8 :=
  .plus (.any (.one fun b => word b || b == 36) [.text [0xC5, 0xBF], .text [0xE2, 0x84, 0xAA]])

def fqnRegex : Re UInt8 :=
  .all [.boundary word, .any (keyword "FROM") [keyword "JOIN", keyword "INTO", keyword "UPDATE"],
    .plus (.one space), .group 1 quoteMark, .group 2 fqnName, quoteMark, spaces, .text (lit "."),
    spaces, .group 3 quoteMark, .group 4 fqnName, quoteMark]

/-- The value of some digits; beyond `int64` it is the largest one. -/
def atoi (s : GoString) : Nat := min (Strconv.digitsValue s) ((1 <<< 63) - 1)

def queryType (query : GoString) : QueryType :=
  match queryTypeRegex.find none query with
  | none => .unknown
  | some m =>
    let found := Strings.toUpper (m.submatch 1)
    if found = lit "SELECT" then .select
    else if found = lit "INSERT" then .insert
    else if found = lit "UPDATE" then .update
    else if found = lit "DELETE" then .delete
    else .unknown

def fqnDatabase (query : GoString) : GoString :=
  match fqnRegex.find none query with
  | none => []
  | some m => m.submatch 2

namespace ParsedQuery

def isWritable (p : ParsedQuery) : Bool :=
  p.type == .insert || p.type == .update || p.type == .delete

def isCacheable (p : ParsedQuery) : Bool := p.type == .select && 0 < p.ttl

def isBatchable (p : ParsedQuery) : Bool := p.isWritable && 0 < p.batchMs

def getBatchKey (p : ParsedQuery) : GoString := p.query

end ParsedQuery

theorem not_cacheable_of_batchable {p : ParsedQuery} (batchable : p.isBatchable = true) :
    p.isCacheable = false := by
  unfold ParsedQuery.isBatchable ParsedQuery.isWritable at batchable
  unfold ParsedQuery.isCacheable
  cases type : p.type <;> simp [type] at batchable ⊢

def applyHints (p : ParsedQuery) (query : GoString) : ParsedQuery :=
  match hintRegex.find none query with
  | none => p
  | some m =>
    { p with
      ttl := atoi (m.submatch 2)
      file := m.submatch 4
      line := atoi (m.submatch 6)
      batchMs := atoi (m.submatch 8)
      query := Strings.trimSpace (hintRegex.removeAll none 0 query) }

def parse (query : GoString) : ParsedQuery :=
  let p := applyHints { type := queryType query, db := fqnDatabase query, query := query } query
  if p.isWritable && 0 < p.ttl then { p with ttl := 0 } else p

example : parse (lit "/* ttl:60 file:a.php line:7 */ SELECT * FROM shop.users") =
    { type := .select, ttl := 60, db := lit "shop", file := lit "a.php", line := 7,
      query := lit "SELECT * FROM shop.users" } := by decide

end TQDBProxy.Parser
