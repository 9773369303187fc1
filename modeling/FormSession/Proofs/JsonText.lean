import Mathlib.Tactic.SplitIfs
import FormSession.Document.Json.Printer
import FormSession.Document.Json.Reader

/-! # Reading what was written

A document of truth values, texts, lists and records, written as JSON, is read back as itself. The text is
read from its front: a written character gives one piece, a written token one token, a written value one
complete value, and in each case what follows is read as it would be alone. -/

namespace FormSession.Json

/-! ### Strings -/

theorem hexDigit?_hexDigit {n : Nat} (h : n < 16) : hexDigit? (hexDigit n) = some n := by
  have all : ∀ n : Fin 16, hexDigit? (hexDigit n) = some n.val := by decide
  exact all ⟨n, h⟩

theorem hexNumber?_hexDigits {n : Nat} (h : n < 256) :
    hexNumber? ['0', '0', hexDigit (n / 16), hexDigit (n % 16)] = some n := by
  have high : hexDigit? (hexDigit (n / 16)) = some (n / 16) := hexDigit?_hexDigit (by omega)
  have low : hexDigit? (hexDigit (n % 16)) = some (n % 16) := hexDigit?_hexDigit (by omega)
  have zero : hexDigit? '0' = some 0 := by decide
  simp only [hexNumber?, List.foldlM_cons, List.foldlM_nil, zero, high, low, Option.map_some, Option.bind_eq_bind,
    Option.bind_some, Option.pure_def, Option.some.injEq]
  omega

/-- The number of a control character is no half of a surrogate pair. -/
theorem pieceOfUnit_toNat {c : Char} (h : c.toNat < 0x20) : pieceOfUnit c.toNat = .char c := by
  have high : isHighHalf c.toNat = false := by simp [isHighHalf]; omega
  have low : isLowHalf c.toNat = false := by simp [isLowHalf]; omega
  simp [pieceOfUnit, high, low, Char.ofNat_toNat]

theorem pieces?_writeChar (c : Char) {rest after : List Char} {ps : List Piece}
    (h : pieces? rest = some (ps, after)) : pieces? (writeChar c ++ rest) = some (.char c :: ps, after) := by
  unfold writeChar
  split_ifs with quote backslash b f n r t control
  · simp [pieces?, escaped?, h, quote]
  · simp [pieces?, escaped?, h, backslash]
  · simp [pieces?, escaped?, h, b]
  · simp [pieces?, escaped?, h, f]
  · simp [pieces?, escaped?, h, n]
  · simp [pieces?, escaped?, h, r]
  · simp [pieces?, escaped?, h, t]
  · have unit := hexNumber?_hexDigits (show c.toNat < 256 by omega)
    simp [pieces?, h, unit, pieceOfUnit_toNat control]
  · simp [pieces?, h, backslash, control]

theorem pieces?_written (cs rest : List Char) :
    pieces? (cs.flatMap writeChar ++ '"' :: rest) = some (cs.map .char, rest) := by
  induction cs with
  | nil => rfl
  | cons c cs ih =>
    rw [List.flatMap_cons, List.append_assoc]
    exact pieces?_writeChar c ih

theorem assemble?_chars (cs : List Char) : assemble? (cs.map .char) = some cs := by
  induction cs with
  | nil => rfl
  | cons c cs ih => rw [List.map_cons, assemble?, ih, Option.map_some]

/-! ### Tokens -/

/-- The state of the reading after the whole text, from a given state. -/
def readFrom (st : State) (cs : List Char) : Option State :=
  (tokens? cs).bind (·.foldlM State.next? st)

/-- Before this text a word ends. -/
def EndsWord (rest : List Char) : Prop :=
  ∀ c ∈ rest.head?, c.isAlpha = false

variable {st : State} {outer : List Frame} {rest : List Char}

/-- A text that starts with the characters of a token is read as the token, then the rest. -/
theorem readFrom_token {t : Token} {cs : List Char} (h : tokens? cs = (tokens? rest).map (t :: ·)) :
    readFrom st cs = (st.next? t).bind (readFrom · rest) := by
  unfold readFrom
  rw [h]
  cases tokens? rest <;> cases hn : st.next? t <;> simp [hn]

theorem readFrom_nil : readFrom st [] = some st := by
  simp [readFrom, tokens?]

theorem readFrom_mark {c : Char} {t : Token} (h : mark? c = some t) :
    readFrom st (c :: rest) = (st.next? t).bind (readFrom · rest) := by
  apply readFrom_token
  have other : isBlank c = false ∧ isNumberChar c = false ∧ c.isAlpha = false := by
    unfold mark? at h
    split at h <;> first | exact ⟨rfl, rfl, rfl⟩ | cases h
  have quote : c ≠ '"' := by
    rintro rfl
    cases h
  rw [tokens?]
  simp [other, quote, h]

theorem tokens?_quote {cs after : List Char} {ps : List Piece} (h : pieces? cs = some (ps, after)) :
    tokens? ('"' :: cs) = (tokens? after).map (.text (textOf ps cs after) :: ·) := by
  rw [tokens?, if_neg (by decide), if_pos rfl]
  split
  · rename_i none_read
    rw [h] at none_read
    cases none_read
  · rename_i ps' after' read
    rw [h] at read
    cases read
    rfl

theorem readFrom_text (s : String) :
    readFrom st (writeText (.plain s) ++ rest) = (st.next? (.text (.plain s))).bind (readFrom · rest) := by
  apply readFrom_token
  have text : textOf (s.toList.map .char) (s.toList.flatMap writeChar ++ '"' :: rest) rest = .plain s := by
    simp [textOf, assemble?_chars]
  have split : writeText (.plain s) ++ rest = '"' :: (s.toList.flatMap writeChar ++ '"' :: rest) := by
    simp [writeText]
  rw [split, tokens?_quote (pieces?_written s.toList rest), text]

/-- Letters are read as one word, up to the first character that is no letter. -/
theorem tokens?_letters {c : Char} {cs : List Char} (letters : (c :: cs).all Char.isAlpha = true)
    (blank : isBlank c = false) (quote : c ≠ '"') (ends : EndsWord rest) :
    tokens? (c :: (cs ++ rest)) = (word? (c :: cs)).bind fun t => (tokens? rest).map (t :: ·) := by
  obtain ⟨alpha, all⟩ := (Bool.and_eq_true _ _).mp letters
  have tail : ∀ d ∈ cs, d.isAlpha = true := List.all_eq_true.mp all
  have stops : rest.takeWhile Char.isAlpha = [] ∧ rest.dropWhile Char.isAlpha = rest := by
    cases rest with
    | nil => exact ⟨rfl, rfl⟩
    | cons d ds =>
      have other : d.isAlpha = false := ends d rfl
      simp [other]
  rw [tokens?]
  simp [blank, quote, alpha, List.takeWhile_append_of_pos tail, List.dropWhile_append_of_pos tail, stops]

theorem readFrom_word {cs : List Char} {t : Token} (h : word? cs = some t) (ends : EndsWord rest) :
    readFrom st (cs ++ rest) = (st.next? t).bind (readFrom · rest) := by
  apply readFrom_token
  have words : cs = ['n', 'u', 'l', 'l'] ∨ cs = ['t', 'r', 'u', 'e'] ∨ cs = ['f', 'a', 'l', 's', 'e'] := by
    unfold word? at h
    split_ifs at h with null true false
    · exact .inl null
    · exact .inr (.inl true)
    · exact .inr (.inr false)
  rcases words with rfl | rfl | rfl
  · rw [List.cons_append, tokens?_letters rfl rfl (by decide) ends, h, Option.bind_some]
  · rw [List.cons_append, tokens?_letters rfl rfl (by decide) ends, h, Option.bind_some]
  · rw [List.cons_append, tokens?_letters rfl rfl (by decide) ends, h, Option.bind_some]

/-! ### Documents -/

/-- Documents of null, truth values and texts, in lists and in records. -/
inductive Plain : Doc → Prop where
  | null : Plain .null
  | bool (b : Bool) : Plain (.bool b)
  | str (s : String) : Plain (.str s)
  | list {items : List Doc} (h : ∀ d ∈ items, Plain d) : Plain (.list items)
  | ofMembers {members : List (String × Doc)} (h : ∀ m ∈ members, Plain m.2) : Plain (.ofMembers members)

/-- A value may come next, and then stands inside the given frames. -/
def Awaits (st : State) (outer : List Frame) : Prop :=
  ∀ t, t ≠ .closeList → st.next? t = State.begin? outer t

/-- Wherever a value may come next, the written document is read as this value. -/
def ReadsBack (d : Doc) : Prop :=
  ∀ ⦃st : State⦄ ⦃outer : List Frame⦄ ⦃rest : List Char⦄, Awaits st outer → EndsWord rest →
    readFrom st (write d ++ rest) = readFrom (.complete d outer) rest

theorem awaits_value : Awaits (.value outer) outer := fun _ _ => rfl

theorem awaits_firstItem : Awaits (.firstItem outer) (.list [] :: outer) := by
  intro t ht
  cases t <;> first | rfl | exact absurd rfl ht

theorem endsWord_moreItems (items : List Doc) : EndsWord (writeMoreItems items ++ rest) := by
  cases items <;> simp [EndsWord, writeMoreItems]

theorem endsWord_moreMembers (members : List (DocText × Doc)) : EndsWord (writeMoreMembers members ++ rest) := by
  rcases members with _ | ⟨⟨_, _⟩, _⟩ <;> simp [EndsWord, writeMoreMembers]

theorem readFrom_moreItems {v : Doc} {done items : List Doc} (h : ∀ d ∈ items, ReadsBack d) :
    readFrom (.complete v (.list done :: outer)) (writeMoreItems items ++ rest) =
      readFrom (.complete (.list ((v :: done).reverse ++ items)) outer) rest := by
  induction items generalizing v done with
  | nil =>
    rw [writeMoreItems, List.cons_append, readFrom_mark (t := .closeList) rfl, List.append_nil]
    rfl
  | cons d items ih =>
    rw [writeMoreItems, List.cons_append, readFrom_mark (t := .comma) rfl, List.append_assoc]
    simp only [State.next?, Option.bind_some]
    rw [h d (by simp) awaits_value (endsWord_moreItems items), ih (fun e he => h e (by simp [he]))]
    simp

theorem readFrom_items {items : List Doc} (h : ∀ d ∈ items, ReadsBack d) :
    readFrom (.firstItem outer) (writeItems items ++ rest) = readFrom (.complete (.list items) outer) rest := by
  cases items with
  | nil =>
    rw [writeItems, List.cons_append, readFrom_mark (t := .closeList) rfl]
    rfl
  | cons d items =>
    rw [writeItems, List.append_assoc, h d (by simp) awaits_firstItem (endsWord_moreItems items),
      readFrom_moreItems (fun e he => h e (by simp [he]))]
    rfl

/-- A name, its colon and its value, wherever a name may come next. -/
theorem readFrom_member {name : String} {d : Doc} {done : List (DocText × Doc)} (h : ReadsBack d)
    (next : st.next? (.text (.plain name)) = some (.colon done (.plain name) outer)) (ends : EndsWord rest) :
    readFrom st (writeText (.plain name) ++ (':' :: (write d ++ rest))) =
      readFrom (.complete d (.record done (.plain name) :: outer)) rest := by
  rw [readFrom_text, next, Option.bind_some, readFrom_mark (t := .colon) rfl]
  exact h awaits_value ends

theorem readFrom_moreMembers {v : Doc} {key : DocText} {done : List (DocText × Doc)}
    {members : List (String × Doc)} (h : ∀ m ∈ members, ReadsBack m.2) :
    readFrom (.complete v (.record done key :: outer))
        (writeMoreMembers (members.map fun (name, d) => (.plain name, d)) ++ rest) =
      readFrom (.complete (.record (((key, v) :: done).reverse ++
        members.map fun (name, d) => (.plain name, d))) outer) rest := by
  induction members generalizing v key done with
  | nil =>
    rw [List.map_nil, writeMoreMembers, List.cons_append, readFrom_mark (t := .closeRecord) rfl,
      List.append_nil]
    rfl
  | cons m members ih =>
    obtain ⟨name, d⟩ := m
    rw [List.map_cons, writeMoreMembers, List.cons_append, readFrom_mark (t := .comma) rfl]
    simp only [State.next?, Option.bind_some, List.append_assoc, List.cons_append]
    rw [readFrom_member (h _ List.mem_cons_self) rfl (endsWord_moreMembers _),
      ih (fun e he => h e (List.mem_cons_of_mem _ he))]
    simp

theorem readFrom_members {members : List (String × Doc)} (h : ∀ m ∈ members, ReadsBack m.2) :
    readFrom (.firstName outer) (writeMembers (members.map fun (name, d) => (.plain name, d)) ++ rest) =
      readFrom (.complete (.ofMembers members) outer) rest := by
  cases members with
  | nil =>
    rw [List.map_nil, writeMembers, List.cons_append, readFrom_mark (t := .closeRecord) rfl]
    rfl
  | cons m members =>
    obtain ⟨name, d⟩ := m
    rw [List.map_cons, writeMembers]
    simp only [List.append_assoc, List.cons_append]
    rw [readFrom_member (h _ List.mem_cons_self) rfl (endsWord_moreMembers _),
      readFrom_moreMembers (fun e he => h e (List.mem_cons_of_mem _ he))]
    rfl

theorem Plain.readsBack {d : Doc} (h : Plain d) : ReadsBack d := by
  induction h with
  | null =>
    intro st outer rest next ends
    rw [write, readFrom_word (t := .null) rfl ends, next _ (by simp)]
    rfl
  | bool b =>
    intro st outer rest next ends
    cases b with
    | true =>
      rw [write, readFrom_word (t := .bool true) rfl ends, next _ (by simp)]
      rfl
    | false =>
      rw [write, readFrom_word (t := .bool false) rfl ends, next _ (by simp)]
      rfl
  | str s =>
    intro st outer rest next _
    rw [Doc.str, write, readFrom_text, next _ (by simp)]
    rfl
  | list _ ih =>
    intro st outer rest next _
    rw [write, List.cons_append, readFrom_mark (t := .openList) rfl, next _ (by simp)]
    exact readFrom_items ih
  | ofMembers _ ih =>
    intro st outer rest next _
    rw [Doc.ofMembers, write, List.cons_append, readFrom_mark (t := .openRecord) rfl, next _ (by simp)]
    exact readFrom_members ih

theorem read?_render {d : Doc} (h : Plain d) : read? (render d) = some d := by
  have whole : readFrom (.value []) (write d) = some (.complete d []) := by
    have ends : EndsWord [] := by simp [EndsWord]
    have awaits : Awaits (.value []) [] := awaits_value
    have read := h.readsBack awaits ends
    rwa [List.append_nil, readFrom_nil] at read
  unfold readFrom at whole
  unfold read? render ofTokens?
  rw [String.toList_ofList]
  obtain ⟨ts, hts, hfold⟩ := Option.bind_eq_some_iff.mp whole
  rw [hts, Option.bind_some, hfold]

end FormSession.Json
