import MatrixAudit.Client
import MatrixAudit.Dataset
import MatrixAudit.InnerProduct

/-!
# Statements

A statement is a dataset together with the client's claim about it: that each claimed sum is the sum
of its column's entries times the row weights, modulo the prime. Nothing here decides whether it is
true.
-/

namespace MatrixAudit

/-- A dataset and a client. The client's fields can be edited later, so that they no longer fit. -/
@[ext] structure Statement where
  dataset : Dataset
  client : Client

namespace Statement

/-- Joins a dataset and a client of its dimensions. -/
def ofParts (dataset : Dataset) (client : Client) : Except Failure Statement := do
  sameLength dataset.rows client.m
  sameLength dataset.cols client.n
  sameLength client.m client.weights.length
  sameLength client.n client.claimed.length
  return ⟨dataset, client⟩

/-- Reads the client file, and then the dataset file of the dimensions that it announces. `files`
gives what is found at each path. -/
def load (files : String → Except Fault (List UInt8)) (datasetPath clientPath : String)
    (space : Space := .endless) : Except Failure Statement := do
  let client ← Client.ofFile clientPath (files clientPath)
  let dataset ← Dataset.ofFile datasetPath (files datasetPath) client.m client.n space
  ofParts dataset client

end Statement

end MatrixAudit
