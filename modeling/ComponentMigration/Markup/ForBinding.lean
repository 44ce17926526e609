import ComponentMigration.Markup.Basic
import ComponentMigration.Text.Blank

/-!
Reading the expression of a `v-for`.

* **The keyword.** `cutKeyword?` cuts at the first `in` or `of` that stands
  between blanks.
* **The aliases.** `cutAliases?` cuts at the first comma behind which at most one
  more comma and no closing brace or bracket follows; so the commas of a
  destructured value stay with it.
* **The binding.** `ForBinding.read?` puts them together. One pair of outer
  parentheses is dropped, and an empty alias counts as absent.
-/

namespace ComponentMigration.Markup

/-- The text behind blanks, `in` or `of`, and more blanks. -/
def afterKeyword? (t : Text) : Option Text :=
  if !(t.head?.any Text.isBlank) then none
  else match Text.trimStart t with
    | 'i' :: 'n' :: r | 'o' :: 'f' :: r =>
        if r.head?.any Text.isBlank then
          let source := Text.trimStart r
          if source = [] then none else some source
        else none
    | _ => none

/-- The text before the first separated `in` or `of`, and the text behind it. -/
def cutKeyword? : Text → Option (Text × Text)
  | [] => none
  | c :: t =>
      match afterKeyword? (c :: t) with
      | some source => some ([], source)
      | none => (cutKeyword? t).map fun (aliases, source) => (c :: aliases, source)

/-- A character of a key or index alias. -/
def isAliasChar (c : Char) : Bool := c != ',' && c != '}' && c != ']'

/-- The aliases that follow a comma: one, or two with a comma between, up to the
end of the text. -/
def lastAliases? (t : Text) : Option (Text × Option Text) :=
  let key := t.takeWhile isAliasChar
  match t.dropWhile isAliasChar with
  | [] => some (key, none)
  | ',' :: r => if r.all isAliasChar then some (key, some r) else none
  | _ => none

/-- The text before the comma of the last aliases, and those aliases. -/
def cutAliases? : Text → Option (Text × Text × Option Text)
  | [] => none
  | c :: t =>
      match (if c = ',' then lastAliases? t else none) with
      | some (key, index) => some ([], key, index)
      | none => (cutAliases? t).map fun (value, rest) => (c :: value, rest)

/-- The trimmed text, if anything is left of it. -/
def nonBlank? (t : Text) : Option Text := if Text.trim t = [] then none else some (Text.trim t)

/-- The text without one opening parenthesis in front and one closing at the end. -/
def withoutParentheses (t : Text) : Text :=
  let t := if t.head? = some '(' then t.drop 1 else t
  if t.getLast? = some ')' then t.dropLast else t

/-- The binding that a `v-for` expression states. -/
def ForBinding.read? (expression : Text) : Option ForBinding :=
  (cutKeyword? (Text.trim expression)).map fun (aliases, source) =>
    let aliases := Text.trim (withoutParentheses (Text.trim aliases))
    match cutAliases? aliases with
    | some (value, key, index) =>
        ⟨Text.trim source, nonBlank? value, nonBlank? key, index.bind nonBlank?⟩
    | none => ⟨Text.trim source, nonBlank? aliases, none, none⟩

end ComponentMigration.Markup
