import ZyrisDocker.Lib.Text

-- What a program reads from other programs: JSON documents and the outputs of commands. The fields of an object are
-- as a parser leaves them, in the order of their keys and each key once.

inductive Json
  | null
  | bool (b : Bool)
  | uint (n : Nat)
  | number
  | str (s : String)
  | arr (items : List Json)
  | obj (fields : List (String × Json))

namespace Json

def get (j : Json) (key : String) : Option Json :=
  match j with
  | obj fields => fields.find? (·.1 = key) |>.map (·.2)
  | _          => none

def asArray : Json → Option (List Json)
  | arr items => some items
  | _         => none

def asObject : Json → Option (List (String × Json))
  | obj fields => some fields
  | _          => none

def asStr : Json → Option String
  | str s => some s
  | _     => none

def asBool : Json → Option Bool
  | bool b => some b
  | _      => none

def asU64 : Json → Option Nat
  | uint n => if n < UInt64.size then some n else none
  | _      => none

end Json

namespace Command

-- What came of running a command to its end: the command could not be started, or it exited with or
-- without success and left an output of type `α` and a text on its standard error.
inductive Output (α : Type)
  | unavailable (error : String)
  | exited (success : Bool) (stdout : α) (stderr : String)

end Command
