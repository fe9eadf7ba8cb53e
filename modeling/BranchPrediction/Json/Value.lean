/-!
# JSON values and their text

A value keeps what a strict reader of configurations has to see: members in the order of the
text, with repeated keys, and integers apart from other numbers.  A string whose escapes do not
spell characters (a lone surrogate) has no value.
-/

namespace BranchPrediction

inductive Json where
  | null
  | bool (value : Bool)
  /-- A number written as an integer; `-0` is not one. -/
  | integer (value : Int)
  /-- Any other number, by its text. -/
  | decimal (text : String)
  /-- A string, absent if its escapes do not spell characters. -/
  | string (value? : Option String)
  | array (items : List Json)
  /-- An object; a key is absent if its escapes do not spell characters. -/
  | object (members : List (Option String × Json))
  deriving Inhabited

namespace Json

def str (s : String) : Json :=
  string (some s)

def nat (n : Nat) : Json :=
  integer n

def ofMembers (members : List (String × Json)) : Json :=
  object (members.map fun (key, value) => (some key, value))

/-- An optional value; nothing is `null`. -/
def option {α : Type} (encode : α → Json) : Option α → Json
  | none => null
  | some a => encode a

/-- The hexadecimal digit of a number below 16. -/
def hexDigit (n : Nat) : Char :=
  Nat.digitChar n

/-- The four hexadecimal digits of a number below `2 ^ 16`. -/
def hex4 (n : Nat) : String :=
  String.ofList [hexDigit (n / 4096 % 16), hexDigit (n / 256 % 16), hexDigit (n / 16 % 16),
    hexDigit (n % 16)]

/-- The text of a character inside a string: quotes, backslashes and control characters are
escaped. -/
def escaped (c : Char) : String :=
  if c = '"' then "\\\""
  else if c = '\\' then "\\\\"
  else if c.toNat < 32 then "\\u" ++ hex4 c.toNat
  else c.toString

def quoted (s : String) : String :=
  s.foldl (fun acc c => acc ++ escaped c) "\"" ++ "\""

mutual

/-- Append the text of a value. -/
def write (acc : String) : Json → String
  | null => acc ++ "null"
  | bool true => acc ++ "true"
  | bool false => acc ++ "false"
  | integer n => acc ++ toString n
  | decimal text => acc ++ text
  | string value? => acc ++ quoted (value?.getD "")
  | array items => writeItems (acc.push '[') "" items |>.push ']'
  | object members => writeMembers (acc.push '\x7b') "" members |>.push '\x7d'

/-- Append the texts of the items of an array, each after a separator; the first separator is
given. -/
def writeItems (acc separator : String) : List Json → String
  | [] => acc
  | item :: rest => writeItems (write (acc ++ separator) item) "," rest

/-- Append the texts of the members of an object, each after a separator; the first separator is
given. -/
def writeMembers (acc separator : String) : List (Option String × Json) → String
  | [] => acc
  | (key, value) :: rest =>
    writeMembers (write (acc ++ separator ++ quoted (key.getD "") ++ ":") value) "," rest

end

/-- The text of a value, without blanks. -/
def text (j : Json) : String :=
  write "" j

end Json

end BranchPrediction
