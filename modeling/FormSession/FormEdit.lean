import FormSession.Names
import FormSession.FieldEdit

/-! # Edits of a form

An edit of a form names some of its fields and gives an edit for each. Fields it does not name stay as
they are. -/

namespace FormSession

/-- The edits by field. -/
abbrev FormEdit := NameMap FieldEdit

instance : DecidableEq FormEdit :=
  inferInstanceAs (DecidableEq (Std.ExtTreeMap String FieldEdit))

namespace FormEdit

/-- Changes the edit of one field; a field not named yet starts with the empty edit. -/
def adjust (e : FormEdit) (field : String) (change : FieldEdit → FieldEdit) : FormEdit :=
  e.insert field (change (e.getD field []))

/-- Writes a value to a row of a field. -/
def write (e : FormEdit) (field : String) (index : Nat) (value : String) : FormEdit :=
  adjust e field (·.write index value)

/-- Drops a row of a field. -/
def drop (e : FormEdit) (field : String) (index : Nat) : FormEdit :=
  adjust e field (·.drop index)

/-- Lays a later edit over an earlier one, field by field. -/
def merge (earlier later : FormEdit) : FormEdit :=
  later.foldl (fun e field edit => adjust e field (·.merge edit)) earlier

/-- Leaves out, in every field, the rows at the end that are kept. -/
def trimAll (e : FormEdit) : FormEdit :=
  e.map fun _ edit => edit.trim

/-- Keeps the named fields only. -/
def restrictTo (e : FormEdit) (fields : List String) : FormEdit :=
  e.filter fun field _ => fields.contains field

/-- Keeps the fields whose edit can change something. -/
def changing (e : FormEdit) : FormEdit :=
  e.filter fun _ edit => !edit.isNoop

/-- Moves the edit of a field to another name, in place of what that name had. -/
def rename (e : FormEdit) (field target : String) : FormEdit :=
  match e[field]? with
  | some edit => (e.erase field).insert target edit
  | none => e

end FormEdit

end FormSession
