import Mathlib.Tactic.TypeStar

-- A connection to the server. The identifier tells apart the connections of different dials, and the
-- node is the path under which the server knows this node over the connection.
structure Connection where
  id   : Nat
  node : Option String := none
  deriving DecidableEq
