import Workflow.Fields
import Workflow.Path.Basic

/-!
# Paths inside running loops

While an instance of a loop runs, the loop's body as its definition names it stands for that
instance: `<loop>.input` becomes `<loop>.item[i]`. Naming another instance of a running loop is an
error, since instances do not see each other.

`Path.localize` takes, for the path of every loop that runs, the index of its instance. A prefix is
compared with those paths after it has been localized itself, so loops may be nested.
-/

namespace Workflow.Path

/-- Why a segment cannot stand after a loop that runs its instance `current`, or what it becomes. -/
def localizeSegment (current : Int) (segment : Segment) : Except Miss Segment :=
  if segment.field = childField ∧ segment.index = none then .ok ⟨instanceField, some current⟩
  else if segment.field = instanceField ∧ segment.index ≠ none ∧ segment.index ≠ some current then
    .error (.otherInstance current)
  else .ok segment

/-- Localizes segments that follow the prefix `done`, which is localized already. -/
def localizeFrom (expression : String) (instances : Fields Int) (done : List Segment) :
    List Segment → Except Error (List Segment)
  | [] => .ok done
  | segment :: segments =>
    match Fields.get? instances (format done) with
    | none => localizeFrom expression instances (done ++ [segment]) segments
    | some current =>
      match localizeSegment current segment with
      | .error miss => .error (.notFound expression segment done.length miss)
      | .ok localized => localizeFrom expression instances (done ++ [localized]) segments

/-- The path that an expression stands for while the given instances run. Outside of loops an
expression stays as it is written. -/
def localize (expression : String) (instances : Fields Int) : Except Error String :=
  match parse expression with
  | .error e => .error e
  | .ok segments =>
    if instances.isEmpty then .ok expression
    else
      match localizeFrom expression instances [] segments with
      | .error e => .error e
      | .ok localized => .ok (format localized)

end Workflow.Path
