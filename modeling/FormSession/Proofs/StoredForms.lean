import FormSession.Document.Json.Dialect
import FormSession.Registry
import FormSession.Proofs.JsonText
import FormSession.Text.Quoted

/-! # Classifications and declarations in JSON

A classification and a registry are written as a record by name and read back as themselves. The rows of a
verdict that does not go by row may be written in three ways. -/

namespace FormSession

/-! ### Records and maps -/

namespace Doc

theorem mapM_of_read {α β : Type} (read : α → Option β) (write : β → α) (h : ∀ b, read (write b) = some b)
    (bs : List β) : (bs.map write).mapM read = some bs := by
  induction bs with
  | nil => rfl
  | cons b bs ih => simp [List.mapM_cons, h, ih]

theorem members?_ofMembers (members : List (String × Doc)) : (ofMembers members).members? = some members := by
  induction members with
  | nil => rfl
  | cons m members ih =>
    simp only [ofMembers, members?, List.map_cons, List.mapM_cons] at ih ⊢
    simp [ih]

theorem fields?_ofMembers (dialect : Dialect) (names : List String) (members : List (String × Doc)) :
    (ofMembers members).fields? dialect names = names.mapM (single? · members) := by
  have read := members?_ofMembers members
  unfold ofMembers at *
  simp only [fields?, read, Option.bind_eq_bind, Option.bind_some]

/-- Entered one by one, the entries of a map make the map again. -/
theorem foldl_insert_toList {α : Type} (m : NameMap α) :
    m.toList.foldl (fun m e => m.insert e.1 e.2) (∅ : NameMap α) = m := by
  rw [← Std.ExtTreeMap.insertMany_list_eq_foldl]
  apply Std.ExtTreeMap.ext_getElem?
  intro name
  cases h : m[name]? with
  | some a =>
    exact Std.ExtTreeMap.getElem?_insertMany_list_of_mem Std.ReflCmp.compare_self
      Std.ExtTreeMap.distinct_keys_toList (Std.ExtTreeMap.mem_toList_iff_getElem?_eq_some.mpr h)
  | none =>
    rw [Std.ExtTreeMap.getElem?_insertMany_list_of_contains_eq_false, Std.ExtTreeMap.getElem?_empty]
    rw [List.contains_eq_mem, decide_eq_false_iff_not, List.mem_map]
    rintro ⟨⟨_, a⟩, hmem, rfl⟩
    rw [Std.ExtTreeMap.mem_toList_iff_getElem?_eq_some, h] at hmem
    cases hmem

/-- A map whose entries are written one by one, each in a form that may depend on its name. -/
theorem map?_ofMembers {α : Type} {read : Doc → Option α} {toDoc : String → α → Doc}
    (h : ∀ name a, read (toDoc name a) = some a) (m : NameMap α) :
    (ofMembers (m.toList.map fun e => (e.1, toDoc e.1 e.2))).map? read = some m := by
  have entries := mapM_of_read (fun e : String × Doc => (read e.2).map (e.1, ·))
    (fun e : String × α => (e.1, toDoc e.1 e.2)) (fun e => by simp [h]) m.toList
  have fold := foldl_insert_toList m
  unfold map?
  rw [members?_ofMembers, Option.bind_eq_bind, Option.bind_some]
  exact (congrArg (Option.bind · _) entries).trans (congrArg some fold)

theorem list?_bools (rows : List Bool) : (Doc.list (rows.map .bool)).list? Doc.bool? = some rows :=
  mapM_of_read bool? .bool (fun _ => rfl) rows

end Doc

/-! ### Verdicts -/

/-- What may stand for the rows of a verdict that does not go by row. -/
inductive UniformRows where
  | emptyList
  | truth (value : Bool)
  | absent

namespace UniformRows

/-- The members of the record that stand for the rows. -/
def members : UniformRows → List (String × Doc)
  | emptyList => [("indexes", .list [])]
  | truth value => [("indexes", .bool value)]
  | absent => []

/-- The text of these members after another one. -/
def text : UniformRows → String
  | emptyList => ",\"indexes\":[]"
  | truth true => ",\"indexes\":true"
  | truth false => ",\"indexes\":false"
  | absent => ""

end UniformRows

/-- The document of a verdict, with a choice of what stands for the rows if it does not go by row. -/
def Verdict.toDocAs (form : UniformRows) (v : Verdict) : Doc :=
  .ofMembers (("is", .bool v.overall) ::
    if v.isUniform then form.members else [("indexes", .list (v.rows.map .bool))])

/-- The document of a classification, with a choice for each verdict that does not go by row. -/
def Classification.toDocAs (forms : String → UniformRows) (m : Classification) : Doc :=
  .ofMembers (m.toList.map fun e => (e.1, e.2.toDocAs (forms e.1)))

theorem Verdict.toDocAs_emptyList (v : Verdict) : v.toDocAs .emptyList = v.toDoc := by
  obtain ⟨overall, rows⟩ := v
  cases rows <;> rfl

theorem Classification.toDocAs_emptyList (m : Classification) : m.toDocAs (fun _ => .emptyList) = m.toDoc := by
  simp only [toDocAs, Verdict.toDocAs_emptyList]
  rfl

theorem Verdict.ofDoc?_toDocAs (dialect : Dialect) (form : UniformRows) (v : Verdict) :
    ofDoc? dialect (v.toDocAs form) = some v := by
  obtain ⟨overall, rows⟩ := v
  cases rows with
  | nil => cases form <;> rfl
  | cons row rows =>
    have read : rowsOfDoc? (.list ((row :: rows).map .bool)) = some (row :: rows) := Doc.list?_bools (row :: rows)
    have fields : (toDocAs form ⟨overall, row :: rows⟩).fields? dialect ["is", "indexes"] =
        some [some (.bool overall), some (.list ((row :: rows).map .bool))] := by
      rw [toDocAs, Doc.fields?_ofMembers]
      simp [isUniform, Doc.single?]
    unfold ofDoc?
    rw [fields]
    simp only [Option.bind_eq_bind, Option.bind_some, Doc.field?, read, Doc.bool?]

theorem Classification.ofDoc?_toDocAs (dialect : Dialect) (forms : String → UniformRows) (m : Classification) :
    ofDoc? dialect (m.toDocAs forms) = some m :=
  Doc.map?_ofMembers (fun name => Verdict.ofDoc?_toDocAs dialect (forms name)) m

/-! ### Declarations -/

theorem NaPolicy.ofDoc?_toDoc (dialect : Dialect) (policy : NaPolicy) :
    ofDoc? dialect policy.toDoc = some policy := by
  cases policy with
  | never => rfl
  | onHide => rfl
  | whenClass name => rfl

theorem FieldSpec.ofDoc?_toDoc (dialect : Dialect) (s : FieldSpec) : ofDoc? dialect s.toDoc = some s := by
  obtain ⟨default, na, retain⟩ := s
  have fields : (toDoc ⟨default, na, retain⟩).fields? dialect ["default", "na", "retain"] =
      some [some (.str default), some na.toDoc, some (.bool retain)] := by
    rw [toDoc, Doc.fields?_ofMembers]
    simp [Doc.single?]
  unfold ofDoc?
  rw [fields]
  simp only [Option.bind_eq_bind, Option.bind_some, Doc.field?, Doc.str, Doc.text?, NaPolicy.ofDoc?_toDoc, Doc.bool?]

theorem Registry.ofDoc?_toDoc (dialect : Dialect) (r : Registry) : ofDoc? dialect r.toDoc = some r :=
  Doc.map?_ofMembers (fun _ => FieldSpec.ofDoc?_toDoc dialect) r

/-! ### Texts -/

namespace Json

theorem plain_bools (rows : List Bool) : Plain (.list (rows.map .bool)) := by
  apply Plain.list
  intro d hd
  obtain ⟨row, -, rfl⟩ := List.mem_map.mp hd
  exact .bool row

theorem plain_verdict (form : UniformRows) (v : Verdict) : Plain (v.toDocAs form) := by
  apply Plain.ofMembers
  intro m hm
  rcases List.mem_cons.mp hm with rfl | hm
  · exact .bool v.overall
  · split at hm
    · cases form with
      | emptyList =>
        rw [List.mem_singleton.mp hm]
        exact plain_bools []
      | truth value =>
        rw [List.mem_singleton.mp hm]
        exact .bool value
      | absent => cases hm
    · rw [List.mem_singleton.mp hm]
      exact plain_bools v.rows

theorem plain_classification (forms : String → UniformRows) (m : Classification) : Plain (m.toDocAs forms) := by
  apply Plain.ofMembers
  intro entry hmem
  obtain ⟨⟨name, v⟩, -, rfl⟩ := List.mem_map.mp hmem
  exact plain_verdict (forms name) v

theorem plain_policy (policy : NaPolicy) : Plain policy.toDoc := by
  cases policy with
  | never => exact .str _
  | onHide => exact .str _
  | whenClass name => exact .ofMembers (by simp [Plain.str])

theorem plain_registry (r : Registry) : Plain r.toDoc := by
  apply Plain.ofMembers
  intro entry hmem
  obtain ⟨⟨name, s⟩, -, rfl⟩ := List.mem_map.mp hmem
  exact .ofMembers (by simp [Plain.str, Plain.bool, plain_policy])

theorem decode?_render {α : Type} {ofDoc? : Dialect → Doc → Option α} {d : Doc} {a : α} (plain : Plain d)
    (h : ofDoc? dialect d = some a) : decode? ofDoc? (render d) = some a := by
  rw [decode?, read?_render plain, Option.bind_some, h]

theorem decode?_toDocAs (forms : String → UniformRows) (m : Classification) :
    decode? Classification.ofDoc? (render (m.toDocAs forms)) = some m :=
  decode?_render (plain_classification forms m) (Classification.ofDoc?_toDocAs dialect forms m)

/-- The text of an entry whose verdict does not go by row. -/
def uniformEntry (name : String) (overall : Bool) (form : UniformRows) : String :=
  String.ofList (writeText (.plain name)) ++ ":" ++
    Text.inBraces ("\"is\":" ++ (if overall then "true" else "false") ++ form.text)

theorem uniformEntry_eq (name : String) (overall : Bool) (form : UniformRows) :
    String.ofList (writeText (.plain name) ++ ':' :: write ((Verdict.uniform overall).toDocAs form)) =
      uniformEntry name overall form := by
  have isText : writeText (.plain "is") = ['"', 'i', 's', '"'] := by decide
  have indexesText : writeText (.plain "indexes") = ['"', 'i', 'n', 'd', 'e', 'x', 'e', 's', '"'] := by decide
  unfold uniformEntry Text.inBraces
  rw [String.ofList_append]
  simp only [String.append_assoc]
  congr 1
  rcases form with _ | (_ | _) | _ <;> cases overall <;>
    simp [Verdict.toDocAs, Verdict.uniform, Verdict.isUniform, UniformRows.members, UniformRows.text, Doc.ofMembers,
      write, writeMembers, writeMoreMembers, writeItems, isText, indexesText]

theorem writeMoreMembers_split (xs ys : List (DocText × Doc)) (name : DocText) : ∃ before after, ∀ d,
    writeMoreMembers (xs ++ (name, d) :: ys) = before ++ (writeText name ++ ':' :: write d) ++ after := by
  induction xs with
  | nil =>
    refine ⟨[','], writeMoreMembers ys, ?_⟩
    intro d
    simp [writeMoreMembers]
  | cons x xs ih =>
    obtain ⟨before, after, h⟩ := ih
    refine ⟨',' :: (writeText x.1 ++ ':' :: (write x.2 ++ before)), after, ?_⟩
    intro d
    simp [writeMoreMembers, h]

/-- The text of one member of a record, within the text of the whole. -/
theorem write_split (xs ys : List (DocText × Doc)) (name : DocText) : ∃ before after, ∀ d,
    write (.record (xs ++ (name, d) :: ys)) = before ++ (writeText name ++ ':' :: write d) ++ after := by
  cases xs with
  | nil =>
    refine ⟨['{'], writeMoreMembers ys, ?_⟩
    intro d
    simp [write, writeMembers]
  | cons x xs =>
    obtain ⟨before, after, h⟩ := writeMoreMembers_split xs ys name
    refine ⟨'{' :: (writeText x.1 ++ ':' :: (write x.2 ++ before)), after, ?_⟩
    intro d
    simp [write, writeMembers, h]

/-- The choice for one name shows in the member of this name only. -/
theorem toDocAs_split {m : Classification} {name : String} {v : Verdict} (forms : String → UniformRows)
    (h : m[name]? = some v) : ∃ xs ys : List (String × Doc), ∀ form,
      (m.toDocAs fun n => if n = name then form else forms n) = .ofMembers (xs ++ (name, v.toDocAs form) :: ys) := by
  obtain ⟨xs, ys, hm⟩ := List.mem_iff_append.mp (Std.ExtTreeMap.mem_toList_iff_getElem?_eq_some.mpr h)
  have others : ∀ entry ∈ xs ++ ys, entry.1 ≠ name := by
    have distinct := Std.ExtTreeMap.distinct_keys_toList (t := m)
    rw [hm, List.pairwise_append, List.pairwise_cons] at distinct
    obtain ⟨-, ⟨later, -⟩, earlier⟩ := distinct
    rintro ⟨n, w⟩ hmem rfl
    rcases List.mem_append.mp hmem with hx | hy
    · exact earlier _ hx _ List.mem_cons_self Std.ReflCmp.compare_self
    · exact later _ hy Std.ReflCmp.compare_self
  refine ⟨xs.map fun e => (e.1, e.2.toDocAs (forms e.1)), ys.map fun e => (e.1, e.2.toDocAs (forms e.1)), ?_⟩
  intro form
  have same : ∀ entry ∈ xs ++ ys, (entry.1, entry.2.toDocAs (if entry.1 = name then form else forms entry.1)) =
      (entry.1, entry.2.toDocAs (forms entry.1)) := by
    intro entry hmem
    rw [if_neg (others entry hmem)]
  simp only [Classification.toDocAs, hm, List.map_append, List.map_cons, if_true]
  rw [List.map_congr_left fun e he => same e (List.mem_append_left ys he),
    List.map_congr_left fun e he => same e (List.mem_append_right xs he)]

/-- What stands for the rows of one entry can be changed in the text, and the rest of the text stays. -/
theorem render_split {m : Classification} {name : String} {overall : Bool} (forms : String → UniformRows)
    (h : m[name]? = some (.uniform overall)) : ∃ before after : String, ∀ form,
      render (m.toDocAs fun n => if n = name then form else forms n) =
        before ++ uniformEntry name overall form ++ after := by
  obtain ⟨xs, ys, doc⟩ := toDocAs_split forms h
  obtain ⟨before, after, split⟩ := write_split (xs.map fun m => (.plain m.1, m.2))
    (ys.map fun m => (.plain m.1, m.2)) (.plain name)
  refine ⟨String.ofList before, String.ofList after, ?_⟩
  intro form
  rw [doc, Doc.ofMembers, List.map_append, List.map_cons, render, split, String.ofList_append, String.ofList_append,
    uniformEntry_eq]

/-- What is written of a classification or a registry is read back. Of a verdict that does not go by row,
    the empty list may be replaced in the text by a truth value, or left out with its name. -/
theorem json_round_trip :
    (∀ m : Classification, decode? Classification.ofDoc? (render m.toDoc) = some m) ∧
    (∀ r : Registry, decode? Registry.ofDoc? (render r.toDoc) = some r) ∧
    ∀ (m : Classification) (name : String) (overall : Bool), m[name]? = some (.uniform overall) →
      ∃ before after : String, render m.toDoc = before ++ uniformEntry name overall .emptyList ++ after ∧
        ∀ form, decode? Classification.ofDoc? (before ++ uniformEntry name overall form ++ after) = some m := by
  refine ⟨?_, ?_, ?_⟩
  · intro m
    rw [← Classification.toDocAs_emptyList]
    exact decode?_toDocAs _ m
  · intro r
    exact decode?_render (plain_registry r) (Registry.ofDoc?_toDoc dialect r)
  · intro m name overall h
    obtain ⟨before, after, split⟩ := render_split (fun _ => .emptyList) h
    refine ⟨before, after, ?_, ?_⟩
    · have whole := split .emptyList
      simp only [ite_self] at whole
      rwa [Classification.toDocAs_emptyList] at whole
    · intro form
      rw [← split]
      exact decode?_toDocAs _ m

/-- A classification of two names, one of them by row. -/
def ownedClasses : Classification :=
  ((∅ : Classification).insert "owned" (.uniform true)).insert "damaged" (.byRow [false, true])

theorem json_round_trip_ownedClasses : ownedClasses["owned"]? = some (.uniform true) ∧
    ∃ before after : String, render ownedClasses.toDoc = before ++ uniformEntry "owned" true .emptyList ++ after ∧
      ∀ form, decode? Classification.ofDoc? (before ++ uniformEntry "owned" true form ++ after) =
        some ownedClasses := by
  have owned : ownedClasses["owned"]? = some (.uniform true) := rfl
  exact ⟨owned, json_round_trip.2.2 ownedClasses "owned" true owned⟩

example : render (Classification.toDoc ownedClasses) =
    Text.inBraces ("\"damaged\":" ++ Text.inBraces "\"is\":true,\"indexes\":[false,true]" ++
      ",\"owned\":" ++ Text.inBraces "\"is\":true,\"indexes\":[]") := rfl

end Json

end FormSession
