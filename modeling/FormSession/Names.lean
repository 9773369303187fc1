import Std.Data.ExtTreeMap
import Std.Data.ExtTreeSet

/-! # Names

Fields, steps, groups and classes are named by text. What a form knows by name it keeps in maps that
are read in ascending order of the names, by code point. Two maps with the same entries are equal. -/

namespace FormSession

/-- Entries by name, read in ascending order of the names. -/
abbrev NameMap (α : Type) := Std.ExtTreeMap String α

/-- A set of names, read in ascending order. -/
abbrev NameSet := Std.ExtTreeSet String

theorem NameMap.pairwise_keys {β : Type} (t : NameMap β) : t.keys.Pairwise (· < ·) := by
  have hkeys : t.keys.Pairwise fun a b => compare a b = .lt := Std.ExtTreeMap.ordered_keys
  exact hkeys.imp compareOfLessAndEq_eq_lt.mp

end FormSession
