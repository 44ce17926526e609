import ComponentMigration.Diagnostic

/-!
Patches: edits recorded against one source text and applied together.

* **Recording.** An `Edit` replaces the bytes from `start` up to `stop`; an
  insertion replaces none. A `Patch` lists the edits in the order of recording.
* **Applying.** `apply` takes the edits by start, then by end, then by the order
  of recording, and copies what lies between them. Edits that overlap, and
  edits that do not fit the source, are refused.
-/

namespace ComponentMigration

/-- A replacement of the bytes from `start` up to `stop`. -/
structure Edit where
  start : Nat
  stop : Nat
  text : Text
  deriving DecidableEq, Repr

/-- Edits in the order of recording. -/
structure Patch where
  edits : List Edit := []
  deriving DecidableEq, Repr

namespace Edit

/-- The order of application: by start, then by end. -/
def le (e f : Edit) : Bool := e.start < f.start || (e.start == f.start && e.stop ≤ f.stop)

end Edit

namespace Patch

/-- The patch without edits. -/
def empty : Patch := ⟨[]⟩

/-- The patch with one more replacement. -/
def replace (p : Patch) (start stop : Nat) (text : Text) : Patch :=
  ⟨p.edits ++ [⟨start, stop, text⟩]⟩

/-- The patch with one more insertion. -/
def insert (p : Patch) (position : Nat) (text : Text) : Patch :=
  p.replace position position text

/-- The edits in the order of application; equal spans keep the order of
recording. -/
def ordered (p : Patch) : List Edit := p.edits.mergeSort Edit.le

/-- The source from byte `cursor` on, with the edits applied to it. -/
def applyFrom (source : Text) (cursor : Nat) : List Edit → Except Failure Text
  | [] =>
      match source.dropBytes? cursor with
      | some rest => .ok rest
      | none => .error .insideCharacter
  | e :: es =>
      if e.start < cursor ∨ source.byteLength < e.stop ∨ e.stop < e.start then
        .error (.diagnosed (.bare (.overlappingEdit e.start e.stop) []))
      else match source.slice? cursor e.start with
        | none => .error .insideCharacter
        | some kept => do
            let rest ← applyFrom source e.stop es
            return kept ++ e.text ++ rest

/-- The source with every edit applied. -/
def apply (p : Patch) (source : Text) : Except Failure Text :=
  applyFrom source 0 p.ordered

end Patch

end ComponentMigration
