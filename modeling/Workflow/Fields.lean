/-!
# Ordered fields

An object's fields are a list of names with what they hold, in the order in which the names were
first given. A name given again keeps its place and takes the new content.
-/

namespace Workflow

/-- Names with what they hold, in order. -/
abbrev Fields (α : Type) := List (String × α)

namespace Fields

variable {α β : Type}

/-- What a name holds. -/
def get? (fields : Fields α) (name : String) : Option α :=
  match fields with
  | [] => none
  | (key, content) :: rest => if key = name then some content else get? rest name

/-- The name is given. -/
def has (fields : Fields α) (name : String) : Bool :=
  (get? fields name).isSome

/-- Gives a name its content: in place if it is there already, else at the end. -/
def set (fields : Fields α) (name : String) (content : α) : Fields α :=
  match fields with
  | [] => [(name, content)]
  | (key, old) :: rest =>
    if key = name then (key, content) :: rest else (key, old) :: set rest name content

/-- Gives every name of `more` its content, one after the other. -/
def update (fields more : Fields α) : Fields α :=
  more.foldl (fun sofar entry => set sofar entry.1 entry.2) fields

/-- The fields of a list in which a name may be given more than once. -/
def ofList (entries : List (String × α)) : Fields α :=
  update [] entries

/-- The names in order. -/
def names (fields : Fields α) : List String :=
  fields.map Prod.fst

/-- The contents in order. -/
def contents (fields : Fields α) : List α :=
  fields.map Prod.snd

end Fields
end Workflow
