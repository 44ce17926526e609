/-!
Text and its measures.

* **Text.** `Text` is a list of characters, so a prefix, a suffix and a cut are
  the list operations of those names.
* **Bytes.** Offsets count bytes of the UTF-8 form. `byteLength` measures a
  text, and `takeBytes?`, `dropBytes?` and `slice?` cut it; each answers `none`
  when an end of the cut falls inside a character or past the end.
* **Searching.** `cutAt?` finds the first occurrence of a pattern, `splitOn`
  cuts at every occurrence of a character, `join` is its inverse.
-/

namespace ComponentMigration

/-- Text is a list of characters. -/
abbrev Text := List Char

instance : Coe String Text := ⟨String.toList⟩

namespace Text

/-! ### Bytes -/

/-- The number of bytes of the UTF-8 form. -/
def byteLength : Text → Nat
  | [] => 0
  | c :: t => c.utf8Size + byteLength t

/-- The text after the first `n` bytes. -/
def dropBytes? : Text → Nat → Option Text
  | t, 0 => some t
  | [], _ + 1 => none
  | c :: t, n + 1 => if c.utf8Size ≤ n + 1 then dropBytes? t (n + 1 - c.utf8Size) else none

/-- The first `n` bytes of the text. -/
def takeBytes? : Text → Nat → Option Text
  | _, 0 => some []
  | [], _ + 1 => none
  | c :: t, n + 1 =>
      if c.utf8Size ≤ n + 1 then (takeBytes? t (n + 1 - c.utf8Size)).map (c :: ·) else none

/-- The bytes from `start` up to `stop`. -/
def slice? (t : Text) (start stop : Nat) : Option Text :=
  (t.dropBytes? start).bind (takeBytes? · (stop - start))

/-! ### Searching -/

/-- The text after a leading `pattern`. -/
def dropPrefix? : Text → Text → Option Text
  | [], t => some t
  | _ :: _, [] => none
  | p :: ps, c :: t => if p = c then dropPrefix? ps t else none

/-- Whether the text begins with `pattern`. -/
def startsWith (t pattern : Text) : Bool := pattern.isPrefixOf t

/-- The text before the first occurrence of `pattern`, and the text after it. -/
def cutAt? (pattern : Text) : Text → Option (Text × Text)
  | [] => if pattern = [] then some ([], []) else none
  | c :: t =>
      match dropPrefix? pattern (c :: t) with
      | some after => some ([], after)
      | none => (cutAt? pattern t).map fun (before, after) => (c :: before, after)

/-- The parts between the occurrences of `sep`. -/
def splitOn (sep : Char) : Text → List Text
  | [] => [[]]
  | c :: t =>
      if c = sep then [] :: splitOn sep t
      else match splitOn sep t with
        | [] => [[c]]
        | part :: parts => (c :: part) :: parts

/-- The texts in order with `sep` between neighbours. -/
def join (sep : Text) : List Text → Text
  | [] => []
  | [t] => t
  | t :: ts => t ++ sep ++ join sep ts

/-- The decimal digits of a number. -/
def ofNat (n : Nat) : Text := Nat.toDigits 10 n

end Text

end ComponentMigration
