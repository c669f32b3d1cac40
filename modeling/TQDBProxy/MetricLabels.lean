import TQDBProxy.Utf8Encoding
import TQDBProxy.WriteBatchExecutor

/-! The labels `executeBatch` gives to the metric vectors: the first fifty bytes
of the first request's text and the kind of its statement. A vector refuses a
label that is not UTF-8 by a panic, and the first two vectors are asked before
the batch is executed. -/

namespace TQDBProxy.WriteBatch

open Utf8

def truncateQuery (query : GoString) (maxLen : Nat) : GoString :=
  if query.length ≤ maxLen then query else query.take maxLen ++ lit "..."

def indexOf (s substr : GoString) : Option Nat :=
  (List.range (s.length + 1 - substr.length)).find? fun i => (s.drop i).take substr.length == substr

def contains (s substr : GoString) : Bool :=
  substr.length ≤ s.length && (s == substr || substr.length < s.length &&
    (s.take substr.length == substr || s.drop (s.length - substr.length) == substr ||
      (indexOf s substr).isSome))

def getQueryType (query : GoString) : GoString :=
  let q := if 20 < query.length then query.take 20 else query
  let q := lit " " ++ q ++ lit " "
  if contains q (lit " INSERT ") || contains q (lit " insert ") then lit "INSERT"
  else if contains q (lit " UPDATE ") || contains q (lit " update ") then lit "UPDATE"
  else if contains q (lit " DELETE ") || contains q (lit " delete ") then lit "DELETE"
  else lit "UNKNOWN"

inductive Vector where
  | writeBatchSize
  | writeBatchDelay
  | writeBatchLatency
  | writeBatchedTotal
  deriving DecidableEq

/-- The calls of `WithLabelValues`, in order; an empty batch makes none. -/
def executeBatchLabels : List WriteRequest → List (Vector × GoString)
  | [] => []
  | first :: _ =>
    let queryLabel := truncateQuery first.query 50
    [(.writeBatchSize, queryLabel), (.writeBatchDelay, queryLabel),
     (.writeBatchLatency, queryLabel), (.writeBatchedTotal, getQueryType first.query)]

theorem valid_getQueryType (query : GoString) : valid (getQueryType query) = true := by
  unfold getQueryType
  extract_lets q padded
  split
  · decide
  · split
    · decide
    · split <;> decide

theorem valid_truncateQuery_iff {query : GoString} (wellFormed : valid query = true)
    (maxLen : Nat) : valid (truncateQuery query maxLen) = true ↔
      ∀ b, query[maxLen]? = some b → runeStart b = true := by
  unfold truncateQuery
  split
  · rename_i short
    simp [wellFormed, List.getElem?_eq_none short]
  · have dots : lit "..." = 46 :: lit ".." := by decide
    rw [dots, valid_append_iff (by decide) (by decide)]
    exact valid_take_iff wellFormed maxLen

theorem batch_labels_valid_iff (first : WriteRequest) (rest : List WriteRequest)
    (wellFormed : valid first.query = true) :
    (∀ call ∈ executeBatchLabels (first :: rest), valid call.2 = true) ↔
      ∀ b, first.query[50]? = some b → runeStart b = true := by
  rw [← valid_truncateQuery_iff wellFormed]
  simp [executeBatchLabels, valid_getQueryType]

/-- The fifty-first byte starts a character of two bytes. -/
theorem batch_labels_valid_before_character :
    valid (lit "INSERT INTO customers (name, city) VALUES (?, 'Orléans')") = true ∧
      ∀ call ∈ executeBatchLabels
        [{ query := lit "INSERT INTO customers (name, city) VALUES (?, 'Orléans')" }],
        valid call.2 = true :=
  ⟨by decide +kernel, (batch_labels_valid_iff
    { query := lit "INSERT INTO customers (name, city) VALUES (?, 'Orléans')" } []
    (by decide +kernel)).mpr (by decide +kernel)⟩

/-- It continues one. -/
theorem batch_label_invalid_inside_character :
    valid (lit "INSERT INTO customer (name, town) VALUES (?, 'Orléans')") = true ∧
      (Vector.writeBatchSize,
        truncateQuery (lit "INSERT INTO customer (name, town) VALUES (?, 'Orléans')") 50) ∈
        executeBatchLabels
          [{ query := lit "INSERT INTO customer (name, town) VALUES (?, 'Orléans')" }] ∧
      valid (truncateQuery (lit "INSERT INTO customer (name, town) VALUES (?, 'Orléans')") 50) =
        false := by
  decide +kernel

end TQDBProxy.WriteBatch
