import ComponentMigration.Text.Blank
import ComponentMigration.Text.CaseFold

/-!
The blocks of a single-file component.

* **Template.** The template block runs from the first opening `template` tag to
  the closing one at the same depth. `templateTag?` recognises such a tag, and
  `untilClosed?` counts the depth.
* **Scripts.** All script blocks outside the template block count. Their bodies
  are trimmed and joined by blank lines, blank ones left out; of an attribute that
  occurs several times the last value stands.
* **Scanning.** Every scan goes character by character. While it is inside a
  recognised tag it counts down the characters to skip, so that no two matches
  overlap.
-/

namespace ComponentMigration.SingleFile

/-- The code of a component, with the attributes of its script blocks. -/
structure ScriptBlock where
  content : Text
  attributes : List (Text × Text)
  deriving DecidableEq, Repr

/-- The blocks of a component. -/
structure Blocks where
  template : Option Text
  script : Option ScriptBlock
  deriving DecidableEq, Repr

/-! ### The template block -/

/-- The text behind the next `>`, and the text in front of it. -/
def untilTagEnd? : Text → Option (Text × Text)
  | [] => none
  | c :: t =>
      if c = '>' then some ([], t)
      else (untilTagEnd? t).map fun (inside, rest) => (c :: inside, rest)

/-- Whether the tag at the head of a text, if it is a `template` tag, is a closing
one, and how many characters it has. -/
def templateTag? (t : Text) : Option (Bool × Nat) :=
  match t with
  | '<' :: r =>
      let (closes, r) : Bool × Text := match r with
        | '/' :: r => (true, r)
        | r => (false, r)
      ((Text.dropWord? "template" r).bind untilTagEnd?).map fun (_, rest) =>
        (closes, t.length - rest.length)
  | _ => none

/-- The text up to the closing tag of the element that is open at depth `depth + 1`,
and the text behind that tag. The first `skip` characters belong to a tag. -/
def untilClosed? (depth skip : Nat) : Text → Option (Text × Text)
  | [] => none
  | c :: t =>
      match skip with
      | skip + 1 => (untilClosed? depth skip t).map fun (inside, rest) => (c :: inside, rest)
      | 0 =>
          match templateTag? (c :: t) with
          | some (true, size) =>
              match depth with
              | 0 => some ([], (c :: t).drop size)
              | depth + 1 =>
                  (untilClosed? depth (size - 1) t).map fun (inside, rest) => (c :: inside, rest)
          | some (false, size) =>
              (untilClosed? (depth + 1) (size - 1) t).map fun (inside, rest) => (c :: inside, rest)
          | none => (untilClosed? depth 0 t).map fun (inside, rest) => (c :: inside, rest)

/-- The text in front of the first opening `template` tag, and the text behind the
tag. The first `skip` characters belong to a tag. -/
def untilOpened? (skip : Nat) : Text → Option (Text × Text)
  | [] => none
  | c :: t =>
      match skip with
      | skip + 1 => (untilOpened? skip t).map fun (before, rest) => (c :: before, rest)
      | 0 =>
          match templateTag? (c :: t) with
          | some (false, size) => some ([], (c :: t).drop size)
          | some (true, size) =>
              (untilOpened? (size - 1) t).map fun (before, rest) => (c :: before, rest)
          | none => (untilOpened? 0 t).map fun (before, rest) => (c :: before, rest)

/-- The inner text of the template block, and the source without the block. -/
def cutTemplate? (source : Text) : Option (Text × Text) :=
  (untilOpened? 0 source).bind fun (before, rest) =>
    (untilClosed? 0 0 rest).map fun (inside, behind) => (inside, before ++ behind)

/-! ### Script blocks -/

/-- The value behind an attribute's name, and how many characters the equals sign
and the value have. -/
def attributeValue? (t : Text) : Option (Text × Nat) :=
  match t with
  | '=' :: r =>
      let quotedValue (quote : Char) : Option (Text × Nat) :=
        match r with
        | q :: r => if q = quote then (Text.cutAt? [quote] r).map fun (v, _) => (v, v.length + 3)
            else none
        | [] => none
      match quotedValue '"' with
      | some v => some v
      | none => match quotedValue '\'' with
        | some v => some v
        | none =>
            let v := r.takeWhile fun c => c != '>' && !Text.isBlank c
            if v = [] then none else some (v, v.length + 1)
  | _ => none

/-- The attributes in the text of a tag, in order; one without a value has the
value `true`. -/
def attributesFrom (skip : Nat) : Text → List (Text × Text)
  | [] => []
  | c :: t =>
      match skip with
      | skip + 1 => attributesFrom skip t
      | 0 =>
          if Text.isHyphenWordChar c then
            let name := (c :: t).takeWhile Text.isHyphenWordChar
            match attributeValue? ((c :: t).drop name.length) with
            | some (value, size) => (name, value) :: attributesFrom (name.length + size - 1) t
            | none => (name, "true") :: attributesFrom (name.length - 1) t
          else attributesFrom 0 t

/-- The text in front of the first closing `script` tag, and the text behind it. -/
def untilScriptEnd? : Text → Option (Text × Text)
  | [] => none
  | c :: t =>
      match Text.dropFolded? "</script>" (c :: t) with
      | some rest => some ([], rest)
      | none => (untilScriptEnd? t).map fun (body, rest) => (c :: body, rest)

/-- The text of the tag, the body and the size of the script block at the head of
a text. -/
def scriptBlock? (t : Text) : Option (Text × Text × Nat) := do
  let r ← if t.head? = some '<' then Text.dropWord? "script" t.tail else none
  let (tag, r) ← untilTagEnd? r
  let (body, r) ← untilScriptEnd? r
  return (tag, body, t.length - r.length)

/-- The tag texts and the bodies of all script blocks. -/
def scriptBlocks (skip : Nat) : Text → List (Text × Text)
  | [] => []
  | c :: t =>
      match skip with
      | skip + 1 => scriptBlocks skip t
      | 0 =>
          match scriptBlock? (c :: t) with
          | some (tag, body, size) => (tag, body) :: scriptBlocks (size - 1) t
          | none => scriptBlocks 0 t

/-- The list with the value of `key` set. -/
def setAttribute (attributes : List (Text × Text)) (key value : Text) : List (Text × Text) :=
  attributes.filter (·.1 ≠ key) ++ [(key, value)]

/-- The code of all script blocks, if any of them is not blank. -/
def readScript (source : Text) : Option ScriptBlock :=
  let blocks := scriptBlocks 0 source
  let bodies := (blocks.map fun b => Text.trim b.2).filter (· ≠ [])
  let attributes := (blocks.flatMap fun b => attributesFrom 0 b.1).foldl
    (fun kept a => setAttribute kept a.1 a.2) []
  if bodies = [] then none else some ⟨Text.join ['\n', '\n'] bodies, attributes⟩

/-- The blocks of a component. Scripts inside the template block are markup. -/
def Blocks.ofText (source : Text) : Blocks :=
  match cutTemplate? source with
  | some (template, outside) => ⟨some template, readScript outside⟩
  | none => ⟨none, readScript source⟩

end ComponentMigration.SingleFile
