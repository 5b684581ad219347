/-!
# Document values

A generated document is a tree of texts, truth values, lists and objects whose fields keep their
order.  A value may be marked as shared: it is one and the same wherever it occurs in a document.
JSON repeats a shared value; YAML writes it once and refers to it afterwards.
-/

namespace RouteScribe.Document

inductive Value where
  | text (s : String)
  | flag (b : Bool)
  | list (items : List Value)
  | object (fields : List (String × Value))
  /-- A value that is the same wherever it occurs. -/
  | shared (v : Value)
  deriving Repr, Inhabited

namespace Value

mutual

/-- Are two values written alike?  Texts, truth values, and lists and objects item by item. -/
def same : Value → Value → Bool
  | .text a, .text b => a == b
  | .flag a, .flag b => a == b
  | .list as, .list bs => sameItems as bs
  | .object as, .object bs => sameFields as bs
  | .shared a, .shared b => same a b
  | _, _ => false

def sameItems : List Value → List Value → Bool
  | [], [] => true
  | a :: as, b :: bs => same a b && sameItems as bs
  | _, _ => false

def sameFields : List (String × Value) → List (String × Value) → Bool
  | [], [] => true
  | (n, a) :: as, (m, b) :: bs => n == m && same a b && sameFields as bs
  | _, _ => false

end

mutual

/-- The shared values that occur in a value, in document order, repetitions included. -/
def sharedValues : Value → List Value
  | .text _ => []
  | .flag _ => []
  | .list items => sharedInItems items
  | .object fields => sharedInFields fields
  | .shared v => [v]

def sharedInItems : List Value → List Value
  | [] => []
  | v :: rest => sharedValues v ++ sharedInItems rest

def sharedInFields : List (String × Value) → List Value
  | [] => []
  | (_, v) :: rest => sharedValues v ++ sharedInFields rest

end

end Value

end RouteScribe.Document
