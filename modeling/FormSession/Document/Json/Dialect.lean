import FormSession.Document.Json.Printer
import FormSession.Document.Json.Reader

/-! # JSON as a dialect of documents

What may stand for a record or a variant in JSON, and the reading of a whole text as a value. -/

namespace FormSession.Json

/-- In JSON a list in place of a record has at most as many items as the record has fields, and null
    stands for the content of a variant without content. -/
def dialect : Dialect where
  surplusItems := false
  isEmptyContent
    | .null => true
    | _ => false

/-- What a JSON text writes, if it can be read. -/
def decode? {α : Type} (ofDoc? : Dialect → Doc → Option α) (text : String) : Option α :=
  (read? text).bind (ofDoc? dialect)

end FormSession.Json
