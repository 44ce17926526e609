import ComponentMigration.Text.WordChar

/-!
JSON texts.

* **Values.** A `Json` value keeps the members of an object in order, repetitions
  included. Of a number only its being there is kept.
* **Strings.** A string has a text if its escapes stand for characters; half a
  surrogate pair does not.
* **Reading.** `Json.read?` reads a whole text. The grammar is strict: one value,
  white space around it and nothing else.
-/

namespace ComponentMigration

/-- A value. -/
inductive Json where
  | null
  | bool (b : Bool)
  | number
  | string (value : Option Text)
  | array (items : List Json)
  | object (members : List (Option Text × Json))
  deriving Inhabited

namespace Json

/-! ### White space and numbers -/

/-- The text behind leading white space. -/
def skipSpace (t : Text) : Text :=
  t.dropWhile fun c => c == ' ' || c == '\n' || c == '\t' || c == '\r'

/-- The text behind one digit and all that follow it. -/
def digits? (t : Text) : Option Text :=
  match t with
  | c :: r => if Text.isDigit c then some (r.dropWhile Text.isDigit) else none
  | [] => none

/-- The text behind the whole part of a number, which has no leading zero. -/
def whole? : Text → Option Text
  | '0' :: r => some r
  | t => digits? t

/-- The text behind a fraction, if there is one. -/
def fraction? : Text → Option Text
  | '.' :: r => digits? r
  | t => some t

/-- The text behind an exponent, if there is one. -/
def exponent? : Text → Option Text
  | 'e' :: r | 'E' :: r =>
      match r with
      | '+' :: r | '-' :: r => digits? r
      | r => digits? r
  | t => some t

/-- The text behind a number. -/
def number? (t : Text) : Option Text :=
  let unsigned := match t with
    | '-' :: r => r
    | t => t
  ((whole? unsigned).bind fraction?).bind exponent?

/-! ### Strings -/

/-- The value of a hexadecimal digit. -/
def digitValue? (c : Char) : Option Nat :=
  if Text.isDigit c then some (c.toNat - '0'.toNat)
  else if 'a' ≤ c ∧ c ≤ 'f' then some (c.toNat - 'a'.toNat + 10)
  else if 'A' ≤ c ∧ c ≤ 'F' then some (c.toNat - 'A'.toNat + 10)
  else none

/-- The number that four hexadecimal digits write. -/
def unit? (a b c d : Char) : Option Nat := do
  return (((← digitValue? a) * 16 + (← digitValue? b)) * 16 + (← digitValue? c)) * 16 +
    (← digitValue? d)

/-- The character behind a backslash, if it is one that can stand there. -/
def escaped? (c : Char) : Option Char :=
  List.lookup c [('"', '"'), ('\\', '\\'), ('/', '/'), ('b', '\x08'), ('f', '\x0c'), ('n', '\n'),
    ('r', '\r'), ('t', '\t')]

/-- The code units of a string up to its closing quote, and the text behind it. An escape
with four digits is a unit of its own, any other character is a unit as it is. -/
def units? : Text → Option (List Nat × Text)
  | [] => none
  | '"' :: r => some ([], r)
  | '\\' :: 'u' :: a :: b :: c :: d :: r => do
      let unit ← unit? a b c d
      let (units, rest) ← units? r
      return (unit :: units, rest)
  | '\\' :: c :: r => do
      let e ← escaped? c
      let (units, rest) ← units? r
      return (e.toNat :: units, rest)
  | c :: r =>
      if c.toNat < 0x20 ∨ c = '\\' then none
      else (units? r).map fun (units, rest) => (c.toNat :: units, rest)

/-- The text that code units write, with surrogate pairs joined. -/
def decode? : List Nat → Option Text
  | [] => some []
  | u :: us =>
      if 0xD800 ≤ u ∧ u < 0xDC00 then
        match us with
        | v :: vs =>
            if 0xDC00 ≤ v ∧ v < 0xE000 then
              (decode? vs).map (Char.ofNat (0x10000 + (u - 0xD800) * 0x400 + (v - 0xDC00)) :: ·)
            else none
        | [] => none
      else if 0xDC00 ≤ u ∧ u < 0xE000 then none
      else (decode? us).map (Char.ofNat u :: ·)

/-- The text of a string behind its opening quote, and the text behind the string. -/
def string? (t : Text) : Option (Option Text × Text) :=
  (units? t).map fun (units, rest) => (decode? units, rest)

/-! ### Values -/

/-- The words that are values. -/
def word? (t : Text) : Option (Json × Text) :=
  match Text.dropPrefix? "null" t, Text.dropPrefix? "true" t, Text.dropPrefix? "false" t with
  | some rest, _, _ => some (null, rest)
  | _, some rest, _ => some (bool true, rest)
  | _, _, some rest => some (bool false, rest)
  | _, _, _ => none

mutual

/-- A value and the text behind it, nested at most `fuel` deep. -/
def value? (fuel : Nat) (t : Text) : Option (Json × Text) :=
  match fuel with
  | 0 => none
  | fuel + 1 =>
      match skipSpace t with
      | '"' :: r => (string? r).map fun (s, rest) => (string s, rest)
      | '[' :: r =>
          match skipSpace r with
          | ']' :: rest => some (array [], rest)
          | r => (items? fuel r).map fun (items, rest) => (array items, rest)
      | '{' :: r =>
          match skipSpace r with
          | '}' :: rest => some (object [], rest)
          | r => (members? fuel r).map fun (members, rest) => (object members, rest)
      | t => match word? t with
        | some found => some found
        | none => (number? t).map fun rest => (number, rest)

/-- The items of an array up to its closing bracket, and the text behind it. -/
def items? (fuel : Nat) (t : Text) : Option (List Json × Text) :=
  match fuel with
  | 0 => none
  | fuel + 1 => do
      let (item, r) ← value? fuel t
      match skipSpace r with
      | ',' :: r => do
          let (items, rest) ← items? fuel r
          return (item :: items, rest)
      | ']' :: rest => return ([item], rest)
      | _ => none

/-- The members of an object up to its closing brace, and the text behind it. -/
def members? (fuel : Nat) (t : Text) : Option (List (Option Text × Json) × Text) :=
  match fuel with
  | 0 => none
  | fuel + 1 => do
      let '"' :: r := skipSpace t | none
      let (key, r) ← string? r
      let ':' :: r := skipSpace r | none
      let (value, r) ← value? fuel r
      match skipSpace r with
      | ',' :: r => do
          let (members, rest) ← members? fuel r
          return ((key, value) :: members, rest)
      | '}' :: rest => return ([(key, value)], rest)
      | _ => none

end

/-- The value that a text is. -/
def read? (t : Text) : Option Json := do
  let (v, rest) ← value? (2 * t.length + 1) t
  if skipSpace rest = [] then some v else none

/-- The text of a string. -/
def text? : Json → Option Text
  | string value => value
  | _ => none

end Json

end ComponentMigration
