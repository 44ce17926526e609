import ComponentMigration.Text.NameChar

/-!
The tokens of a script.

* **Tokens.** A `Token` is a word, a private name, a number, a string, a piece of a
  template, a regular expression, a text among markup or a punctuator. Text that
  is none of these is `invalid`.
* **Words.** Keywords are words. `reservedWords` lists those that are never
  identifiers.
* **Characters.** `isLineEnd` and `isSpace` are the line terminators and the other
  white space between tokens.
-/

namespace ComponentMigration.Script

/-- A token. -/
inductive Token where
  | endOfText
  /-- An identifier or a keyword; `isEscaped` when an escape stood in it. -/
  | word (name : Text) (isEscaped : Bool)
  | privateWord (name : Text)
  | number (isBig : Bool)
  | string (value : Text)
  /-- A piece of a template, up to a substitution or to its end. -/
  | template (isLast hasBadEscape : Bool)
  | regex
  /-- A text among markup. -/
  | markupText
  | punctuator (p : Text)
  | invalid
  deriving DecidableEq, Repr, Inhabited

/-- The words that are never identifiers. -/
def reservedWords : List Text := List.map String.toList [
  "break", "case", "catch", "class", "const", "continue", "debugger", "default", "delete", "do",
  "else", "enum", "export", "extends", "false", "finally", "for", "function", "if", "import",
  "in", "instanceof", "new", "null", "return", "super", "switch", "this", "throw", "true",
  "try", "typeof", "var", "void", "while", "with"]

/-- Whether a word is reserved. -/
def isReserved (name : Text) : Bool := reservedWords.contains name

/-- The punctuators, each before its own prefixes. A closing angle bracket is always
a token of its own; the parser joins it with what follows where that is meant. -/
def punctuators : List Text := List.map String.toList [
  "...", "===", "!==", "**=", "<<=", "&&=", "||=", "??=",
  "=>", "==", "!=", "++", "--", "&&", "||", "??", "?.", "**", "<=", "<<",
  "+=", "-=", "*=", "/=", "%=", "&=", "|=", "^=",
  "\x7b", "\x7d", "(", ")", "[", "]", ".", ";", ",", "<", ">", "+", "-", "*", "/", "%", "&",
  "|", "^", "!", "~", "?", ":", "=", "@"]

/-- A line terminator. -/
def isLineEnd (c : Char) : Bool :=
  c == '\n' || c == '\r' || c == '\u2028' || c == '\u2029'

/-- White space between tokens that ends no line. -/
def isSpace (c : Char) : Bool :=
  let n := c.toNat
  n == 0x20 || n == 0x09 || n == 0x0B || n == 0x0C || n == 0x85 || n == 0xA0 || n == 0xFEFF ||
    n == 0x1680 || (0x2000 ≤ n && n ≤ 0x200B) || n == 0x202F || n == 0x205F || n == 0x3000

end ComponentMigration.Script
