import ComponentMigration.Script.Token

/-!
Reading one token.

* **Between tokens.** `skipTrivia` passes white space and comments and notes
  whether a line ended.
* **Lexemes.** A `Lexeme` is a token with the number of bytes it takes and the text
  behind it. `Lexeme.read` reads the token at the head of a text.
* **By position.** What a slash, a closing brace or a letter begins depends on the
  place. `Lexeme.regex`, `Lexeme.templateRest`, `Lexeme.markupChild`,
  `Lexeme.markupName` and `Lexeme.markupString` read what the parser asks for.
* **Skipping.** The scanners go character by character; an escape tells how many
  characters it takes, and they are counted down.
-/

namespace ComponentMigration.Script

/-! ### Between tokens -/

/-- Where a scan between tokens is. -/
inductive Trivia where
  | space
  | lineComment
  | blockComment
  deriving DecidableEq

/-- The text of the next token, its offset, whether a line ended before it, and
whether every comment was closed. -/
def skipTrivia (mode : Trivia) (isFresh : Bool) (offset : Nat) :
    Text → Text × Nat × Bool × Bool
  | [] => ([], offset, isFresh, mode != .blockComment)
  | [c] =>
      match mode with
      | .space =>
          if isLineEnd c then ([], offset + c.utf8Size, true, true)
          else if isSpace c then ([], offset + c.utf8Size, isFresh, true)
          else ([c], offset, isFresh, true)
      | .lineComment => ([], offset + c.utf8Size, isFresh || isLineEnd c, true)
      | .blockComment => ([], offset + c.utf8Size, isFresh || isLineEnd c, false)
  | c :: d :: t =>
      match mode with
      | .space =>
          if isLineEnd c then skipTrivia .space true (offset + c.utf8Size) (d :: t)
          else if isSpace c then skipTrivia .space isFresh (offset + c.utf8Size) (d :: t)
          else if c = '/' ∧ d = '/' then skipTrivia .lineComment isFresh (offset + 2) t
          else if c = '/' ∧ d = '*' then skipTrivia .blockComment isFresh (offset + 2) t
          else (c :: d :: t, offset, isFresh, true)
      | .lineComment =>
          if isLineEnd c then skipTrivia .space true (offset + c.utf8Size) (d :: t)
          else skipTrivia .lineComment isFresh (offset + c.utf8Size) (d :: t)
      | .blockComment =>
          if c = '*' ∧ d = '/' then skipTrivia .space isFresh (offset + 2) t
          else skipTrivia .blockComment (isFresh || isLineEnd c) (offset + c.utf8Size) (d :: t)

/-! ### Escapes -/

/-- The value of a hexadecimal digit. -/
def hexValue? (c : Char) : Option Nat :=
  if Text.isDigit c then some (c.toNat - '0'.toNat)
  else if 'a' ≤ c ∧ c ≤ 'f' then some (c.toNat - 'a'.toNat + 10)
  else if 'A' ≤ c ∧ c ≤ 'F' then some (c.toNat - 'A'.toNat + 10)
  else none

/-- The number that hexadecimal digits write. -/
def hexNumber? (digits : Text) : Option Nat :=
  if digits = [] then none
  else digits.foldlM (fun n c => (hexValue? c).map (16 * n + ·)) 0

/-- The code point that `u` and its digits write behind a backslash, and the number
of characters they take. -/
def unicodeEscape? (t : Text) : Option (Nat × Nat) :=
  match t with
  | 'u' :: '{' :: r =>
      let digits := r.takeWhile (· != '}')
      match r.drop digits.length with
      | '}' :: _ => ((hexNumber? digits).filter (· ≤ 0x10FFFF)).map fun n => (n, digits.length + 3)
      | _ => none
  | 'u' :: r =>
      if (r.take 4).length = 4 then (hexNumber? (r.take 4)).map fun n => (n, 5) else none
  | _ => none

/-- The character of a code point; one that is no character is replaced. -/
def charOfCode (n : Nat) : Char := if n.isValidChar then Char.ofNat n else '\ufffd'

/-- An octal digit. -/
def isOctal (c : Char) : Bool := '0' ≤ c && c ≤ '7'

/-- What a character behind a backslash and the text behind it stand for, and the number of
characters they take. -/
def escapeOf? (c : Char) (r : Text) : Option (Text × Nat) :=
  if isLineEnd c then some ([], 1)
  else if c = 'u' then (unicodeEscape? (c :: r)).map fun (n, size) => ([charOfCode n], size)
  else if c = 'x' then
    if (r.take 2).length = 2 then (hexNumber? (r.take 2)).map fun n => ([charOfCode n], 3)
    else none
  else if isOctal c then
    let digits := ((c :: r).take (if c ≤ '3' then 3 else 2)).takeWhile isOctal
    some ([charOfCode (digits.foldl (fun n d => 8 * n + (d.toNat - '0'.toNat)) 0)],
      digits.length)
  else match c with
    | 'n' => some (['\n'], 1)
    | 't' => some (['\t'], 1)
    | 'r' => some (['\r'], 1)
    | 'b' => some (['\x08'], 1)
    | 'f' => some (['\x0c'], 1)
    | 'v' => some (['\x0b'], 1)
    | c => some ([c], 1)

/-- What the text behind a backslash stands for, and the number of characters it
takes. -/
def escape? (t : Text) : Option (Text × Nat) :=
  match t with
  | [] => none
  | '\r' :: '\n' :: _ => some ([], 2)
  | c :: r => escapeOf? c r

/-! ### Scanners -/

/-- The characters of a name with its escapes decoded, the bytes they take, whether
there was an escape, and the text behind; `none` for a malformed escape. -/
def scanName (skip : Nat) : Text → Option (Text × Nat × Bool × Text)
  | [] => some ([], 0, false, [])
  | c :: t =>
      match skip with
      | skip + 1 => (scanName skip t).map fun (name, size, isEscaped, rest) =>
          (name, size + c.utf8Size, isEscaped, rest)
      | 0 =>
          if c = '\\' then
            match unicodeEscape? t with
            | some (n, size) =>
                if Text.isNamePart (charOfCode n) then
                  (scanName size t).map fun (name, size, _, rest) =>
                    (charOfCode n :: name, size + 1, true, rest)
                else none
            | none => none
          else if Text.isNamePart c then
            (scanName 0 t).map fun (name, size, isEscaped, rest) =>
              (c :: name, size + c.utf8Size, isEscaped, rest)
          else some ([], 0, false, c :: t)

/-- The value of a string up to its closing quote, the bytes it takes, and the text
behind. -/
def scanString (quote : Char) (skip : Nat) : Text → Option (Text × Nat × Text)
  | [] => none
  | c :: t =>
      match skip with
      | skip + 1 => (scanString quote skip t).map fun (value, size, rest) =>
          (value, size + c.utf8Size, rest)
      | 0 =>
          if c = quote then some ([], 1, t)
          else if c = '\\' then
            (escape? t).bind fun (decoded, taken) =>
              (scanString quote taken t).map fun (value, size, rest) =>
                (decoded ++ value, size + 1, rest)
          else if c = '\n' ∨ c = '\r' then none
          else (scanString quote 0 t).map fun (value, size, rest) =>
            (c :: value, size + c.utf8Size, rest)

/-- Whether a piece of a template is the last one, whether it has a malformed
escape, the bytes it takes, and the text behind. -/
def scanTemplate (skip : Nat) : Text → Option (Bool × Bool × Nat × Text)
  | [] => none
  | [c] => if skip = 0 ∧ c = '`' then some (true, false, 1, []) else none
  | c :: d :: t =>
      match skip with
      | skip + 1 => (scanTemplate skip (d :: t)).map fun (isLast, isBad, size, rest) =>
          (isLast, isBad, size + c.utf8Size, rest)
      | 0 =>
          if c = '`' then some (true, false, 1, d :: t)
          else if c = '$' ∧ d = '{' then some (false, false, 2, t)
          else if c = '\\' then
            match escape? (d :: t) with
            | some (_, taken) =>
              (scanTemplate taken (d :: t)).map fun (isLast, isBad, size, rest) =>
                (isLast, isBad, size + 1, rest)
            | none => (scanTemplate 1 (d :: t)).map fun (isLast, _, size, rest) =>
                (isLast, true, size + 1, rest)
          else (scanTemplate 0 (d :: t)).map fun (isLast, isBad, size, rest) =>
            (isLast, isBad, size + c.utf8Size, rest)

/-- The bytes up to the slash that closes a regular expression, and the text
behind. -/
def scanRegex (inClass : Bool) : Text → Option (Nat × Text)
  | [] => none
  | [c] => if c = '/' ∧ !inClass then some (1, []) else none
  | c :: d :: t =>
      if isLineEnd c then none
      else if c = '\\' then
        if isLineEnd d then none
        else (scanRegex inClass t).map fun (size, rest) => (size + 1 + d.utf8Size, rest)
      else if c = '/' ∧ !inClass then some (1, d :: t)
      else
        let inClass := if c = '[' then true else if c = ']' then false else inClass
        (scanRegex inClass (d :: t)).map fun (size, rest) => (size + c.utf8Size, rest)

/-! ### Numbers -/

/-- Whether every underscore in a run of digits stands between two digits. -/
def isSeparated : Text → Bool
  | [] => true
  | ['_'] => false
  | '_' :: _ => false
  | [_] => true
  | c :: d :: t =>
      if d = '_' then
        match t with
        | [] => false
        | e :: r => e != '_' && isSeparated (e :: r)
      else c != '_' && isSeparated (d :: t)

/-- The digits and underscores at the head of a text. -/
def digitRun (isDigit : Char → Bool) (t : Text) : Text :=
  t.takeWhile fun c => isDigit c || c == '_'

/-- The digits of a radix named by a letter. -/
def radixDigit? (letter : Char) : Option (Char → Bool) :=
  if letter = 'x' ∨ letter = 'X' then some fun c => (hexValue? c).isSome
  else if letter = 'o' ∨ letter = 'O' then some isOctal
  else if letter = 'b' ∨ letter = 'B' then some fun c => c == '0' || c == '1'
  else none

/-- The number of characters of the exponent at the head of a text. -/
def exponentLength? (t : Text) : Option Nat :=
  match t with
  | e :: r =>
      if e = 'e' ∨ e = 'E' then
        let sign := match r with
          | s :: _ => if s = '+' ∨ s = '-' then 1 else 0
          | [] => 0
        let digits := digitRun Text.isDigit (r.drop sign)
        if digits = [] ∨ !isSeparated digits then none else some (1 + sign + digits.length)
      else some 0
  | [] => some 0

/-- The number of characters behind the integer part of a decimal number. -/
def fractionLength? (t : Text) : Option Nat :=
  match t with
  | '.' :: r =>
      let digits := digitRun Text.isDigit r
      if isSeparated digits then
        (exponentLength? (r.drop digits.length)).map (1 + digits.length + ·)
      else none
  | _ => exponentLength? t

/-- Whether a number may end in front of this text. -/
def endsNumber (t : Text) : Bool :=
  match t with
  | c :: _ => !(Text.isNameStart c || Text.isDigit c || c == '\\')
  | [] => true

/-- Whether the number at the head of a text is a big integer, and its length. -/
def numberLength? (t : Text) : Option (Bool × Nat) :=
  let radix := match t with
    | '0' :: letter :: _ => radixDigit? letter
    | _ => none
  let found : Option (Bool × Nat) := match radix with
    | some isDigit =>
        let digits := digitRun isDigit (t.drop 2)
        if digits = [] ∨ !isSeparated digits then none
        else if (t.drop (2 + digits.length)).head? = some 'n' then some (true, 3 + digits.length)
        else some (false, 2 + digits.length)
    | none =>
        let digits := digitRun Text.isDigit t
        let rest := t.drop digits.length
        if digits.head? = some '0' ∧ 1 < digits.length then
          if digits.contains '_' then none
          else if digits.all isOctal then some (false, digits.length)
          else (fractionLength? rest).map fun n => (false, digits.length + n)
        else if !isSeparated digits then none
        else if rest.head? = some 'n' ∧ digits ≠ [] then some (true, digits.length + 1)
        else (fractionLength? rest).map fun n => (false, digits.length + n)
  found.filter fun (_, n) => endsNumber (t.drop n)

/-! ### Lexemes -/

/-- A token, the bytes it takes, and the text behind it. -/
structure Lexeme where
  token : Token
  size : Nat
  rest : Text
  deriving Repr

namespace Lexeme

/-- Text that is no token. One character of it is taken, if there is one. -/
def invalid (t : Text) : Lexeme :=
  match t with
  | [] => ⟨.invalid, 0, []⟩
  | c :: r => ⟨.invalid, c.utf8Size, r⟩

/-- The word at the head of a text. -/
def word (t : Text) : Lexeme :=
  match scanName 0 t with
  | some (c :: name, size, isEscaped, rest) =>
      if Text.isNameStart c then ⟨.word (c :: name) isEscaped, size, rest⟩ else invalid t
  | _ => invalid t

/-- The private name behind a number sign. -/
def privateWord (t : Text) : Lexeme :=
  match word t with
  | ⟨.word name _, size, rest⟩ => ⟨.privateWord name, size + 1, rest⟩
  | _ => invalid t

/-- The number at the head of a text. -/
def number (t : Text) : Lexeme :=
  match numberLength? t with
  | some (isBig, n) => ⟨.number isBig, n, t.drop n⟩
  | none => invalid t

/-- The rest of a template piece, behind its opening character. -/
def templateRest (t : Text) : Lexeme :=
  match scanTemplate 0 t with
  | some (isLast, isBad, size, rest) => ⟨.template isLast isBad, size + 1, rest⟩
  | none => invalid t

/-- The punctuator at the head of a text. -/
def punctuator (t : Text) : Lexeme :=
  match punctuators.find? (Text.startsWith t ·) with
  | some p =>
      -- a question mark and a fraction are two tokens
      if p = ['?', '.'] ∧ (t.drop 2).head?.any Text.isDigit then
        ⟨.punctuator ['?'], 1, t.drop 1⟩
      else ⟨.punctuator p, p.length, t.drop p.length⟩
  | none => invalid t

/-- The token at the head of a text. -/
def read (t : Text) : Lexeme :=
  match t with
  | [] => ⟨.endOfText, 0, []⟩
  | c :: r =>
      if Text.isNameStart c || c == '\\' then word t
      else if Text.isDigit c || (c == '.' && r.head?.any Text.isDigit) then number t
      else if c = '"' ∨ c = '\'' then
        match scanString c 0 r with
        | some (value, size, rest) => ⟨.string value, size + 1, rest⟩
        | none => invalid t
      else if c = '`' then templateRest r
      else if c = '#' then privateWord r
      else punctuator t

/-- The flags that a regular expression may have, each once. -/
def regexFlags : Text := "dgimsuvy"

/-- The regular expression whose opening slash is at the head of a text. -/
def regex (t : Text) : Lexeme :=
  match scanRegex false (t.drop 1) with
  | some (size, rest) =>
      let flags := rest.takeWhile Text.isNamePart
      if flags.all (regexFlags.contains ·) ∧ flags.Nodup then
        ⟨.regex, 1 + size + Text.byteLength flags, rest.drop flags.length⟩
      else invalid t
  | none => invalid t

/-- A character of a text among markup. -/
def isMarkupTextChar (c : Char) : Bool := c != '{' && c != '}' && c != '<' && c != '>'

/-- What stands at the head of a text among the children of markup. -/
def markupChild (t : Text) : Lexeme :=
  match t with
  | [] => ⟨.endOfText, 0, []⟩
  | '{' :: r => ⟨.punctuator ['{'], 1, r⟩
  | '<' :: r => ⟨.punctuator ['<'], 1, r⟩
  | _ =>
      let text := t.takeWhile isMarkupTextChar
      match t.drop text.length with
      | '{' :: _ | '<' :: _ => ⟨.markupText, Text.byteLength text, t.drop text.length⟩
      | _ => invalid t

/-- The name at the head of a text in a tag; hyphens belong to it. -/
def markupName (t : Text) : Lexeme :=
  let name := t.takeWhile fun c => Text.isNamePart c || c == '-'
  ⟨.word name false, Text.byteLength name, t.drop name.length⟩

/-- The string at the head of a text as the value of an attribute. -/
def markupString? (t : Text) : Option Lexeme :=
  match t with
  | quote :: r =>
      if quote = '"' ∨ quote = '\'' then
        let value := r.takeWhile (· != quote)
        match r.drop value.length with
        | _ :: rest => some ⟨.string value, Text.byteLength value + 2, rest⟩
        | [] => some (invalid t)
      else none
  | [] => none

end Lexeme

end ComponentMigration.Script
