/-
  Json that was written is read back.

  * `Json.piecesFrom?_escape`, `Json.assembleOnto?_written`: every escape is one piece, which stands
    for the character again.
  * `Json.token?_quoteText`: a text in quotes is one token.
  * `Json.writeOnto_append`: what is written does not depend on what stands before it.
  * `Json.ReadBack`: a value whose text takes a reader over this value, wherever a value may stand.
    `ReadBack.text`, `ReadBack.array` and `ReadBack.object`: texts are read back, and so is what is
    built from values that are.
  * `Json.ReadBack.parse?_render`: reading such a text gives the value.
-/
import Mathlib.Data.List.Basic
import SelectorRename.Json.Reader
import SelectorRename.Json.Writer

namespace SelectorRename.Json

/-! ## Quoted text -/

/-- The piece that a written character is read as. -/
def Piece.written (c : Char) : Piece :=
  if c.toNat < 0x20 ∧ c ∉ ['\x08', '\t', '\n', '\x0c', '\r'] then .unit c.toNat else .char c

theorem codeUnit?_hexDigit {n : ℕ} (h : n < 0x20) :
    codeUnit? '0' '0' (hexDigit (n / 16)) (hexDigit (n % 16)) = some n := by
  have hall : ∀ n < 0x20, codeUnit? '0' '0' (hexDigit (n / 16)) (hexDigit (n % 16)) = some n := by
    decide
  exact hall n h

theorem piecesFrom?_escape (done : List Piece) (c : Char) (s : List Char) :
    piecesFrom? done (escape c ++ s) = piecesFrom? (Piece.written c :: done) s := by
  unfold escape
  split_ifs with h1 h2 h3 h4 h5 h6 h7 h8
  -- the escapes of one letter
  iterate 7 case pos => subst_vars; rfl
  case pos =>
    have hw : Piece.written c = .unit c.toNat := if_pos ⟨h8, by simp [h3, h4, h5, h6, h7]⟩
    simp only [List.cons_append, List.nil_append, piecesFrom?, codeUnit?_hexDigit h8, hw]
  case neg =>
    have hw : Piece.written c = .char c := if_neg fun h => h8 h.1
    have hc : ¬ ((decide (c.toNat < 0x20) || decide (c = '\\')) = true) := by simp [h2, h8]
    rw [hw, List.singleton_append, piecesFrom?, if_neg hc] <;> simp [h1, h2]

theorem assembleOnto?_written (done : List Char) (c : Char) (ps : List Piece) :
    assembleOnto? done (Piece.written c :: ps) = assembleOnto? (c :: done) ps := by
  unfold Piece.written
  split
  next h =>
    have hhigh : isHighHalf c.toNat = false := by simp [isHighHalf]; omega
    have hlow : isLowHalf c.toNat = false := by simp [isLowHalf]; omega
    cases ps with
    | nil => simp [assembleOnto?, hhigh, hlow]
    | cons p ps => cases p <;> simp [assembleOnto?, hhigh, hlow]
  next => rfl

theorem piecesFrom?_flatMap_escape (s rest : List Char) (done : List Piece) :
    piecesFrom? done (s.flatMap escape ++ '"' :: rest) =
      some (done.reverse ++ s.map Piece.written, rest) := by
  induction s generalizing done with
  | nil => simp [piecesFrom?]
  | cons c s ih =>
    rw [List.flatMap_cons, List.append_assoc, piecesFrom?_escape, ih]
    simp

theorem assembleOnto?_map_written (s done : List Char) :
    assembleOnto? done (s.map Piece.written) = some (done.reverse ++ s) := by
  induction s generalizing done with
  | nil => simp [assembleOnto?]
  | cons c s ih =>
    rw [List.map_cons, assembleOnto?_written, ih]
    simp

/-- A text in quotes is one token. -/
theorem token?_quoteText (s : Option String) (rest : List Char) :
    token? (quoteText s ++ rest) = some (.text s, rest) := by
  cases s with
  | none => rfl
  | some s =>
    have hpieces : pieces? (s.toList.flatMap escape ++ '"' :: rest) =
        some (s.toList.map Piece.written, rest) := piecesFrom?_flatMap_escape s.toList rest []
    have htext : assemble? (s.toList.map Piece.written) = some s.toList :=
      assembleOnto?_map_written s.toList []
    simp [quoteText, quote, token?, hpieces, htext]

/-! ## The text of a value -/

mutual

/-- What is written does not depend on what stands before it. -/
theorem writeOnto_append (done more : List Char) :
    ∀ v : Json, writeOnto (done ++ more) v = writeOnto done v ++ more
  | .null | .bool true | .bool false | .number _ | .text _ | .array [] | .object [] => by
    simp [writeOnto, put]
  | .array (v :: vs) => by
    rw [writeOnto, writeOnto, ← List.cons_append, writeOnto_append, writeItems_append]
  | .object ((key, v) :: ms) => by
    rw [writeOnto, writeOnto, ← writeMembers_append, ← writeOnto_append]
    simp [put]

theorem writeItems_append (done more : List Char) :
    ∀ vs : List Json, writeItems (done ++ more) vs = writeItems done vs ++ more
  | [] => rfl
  | v :: vs => by
    rw [writeItems, writeItems, ← List.cons_append, writeOnto_append, writeItems_append]

theorem writeMembers_append (done more : List Char) :
    ∀ ms : List (Option String × Json), writeMembers (done ++ more) ms = writeMembers done ms ++ more
  | [] => rfl
  | (key, v) :: ms => by
    rw [writeMembers, writeMembers, ← writeMembers_append, ← writeOnto_append]
    simp [put]

end

theorem reverse_put (text done : List Char) : (put text done).reverse = done.reverse ++ text := by
  simp [put]

theorem reverse_writeOnto (done : List Char) (v : Json) :
    (writeOnto done v).reverse = done.reverse ++ v.write := by
  rw [show done = [] ++ done from rfl, writeOnto_append, List.reverse_append, write, List.nil_append]

/-- The text of the items after the first one, and the end of the array. -/
def itemsText : List Json → List Char
  | [] => [']']
  | v :: vs => ',' :: v.write ++ itemsText vs

/-- The text of the members after the first one, and the end of the object. -/
def membersText : List (Option String × Json) → List Char
  | [] => ['\x7d']
  | (key, v) :: ms => ',' :: quoteText key ++ ':' :: v.write ++ membersText ms

theorem reverse_writeItems (done : List Char) (vs : List Json) :
    (writeItems done vs).reverse = done.reverse ++ itemsText vs := by
  induction vs generalizing done with
  | nil => simp [writeItems, itemsText]
  | cons v vs ih => simp [writeItems, itemsText, ih, reverse_writeOnto]

theorem reverse_writeMembers (done : List Char) (ms : List (Option String × Json)) :
    (writeMembers done ms).reverse = done.reverse ++ membersText ms := by
  induction ms generalizing done with
  | nil => simp [writeMembers, membersText]
  | cons m ms ih => simp [writeMembers, membersText, ih, reverse_writeOnto, reverse_put]

theorem write_text (s : Option String) : (text s).write = quoteText s := by
  simp [write, writeOnto, put]

theorem write_array_cons (v : Json) (vs : List Json) :
    (array (v :: vs)).write = '[' :: v.write ++ itemsText vs := by
  rw [write, writeOnto, reverse_writeItems, reverse_writeOnto]
  simp

theorem write_object_cons (key : Option String) (v : Json) (ms : List (Option String × Json)) :
    (object ((key, v) :: ms)).write =
      '\x7b' :: quoteText key ++ ':' :: v.write ++ membersText ms := by
  rw [write, writeOnto, reverse_writeMembers, reverse_writeOnto]
  simp [reverse_put]

/-! ## Reading it back -/

/-- A reader goes on behind a token. -/
theorem State.run?_token {st st' : State} {c : Char} {s rest : List Char} {t : Token}
    (hc : isSpace c = false) (ht : token? (c :: s) = some (t, rest)) (hst : st.step? t = some st') :
    st.run? (c :: s) = st'.run? rest := by
  rw [State.run?, if_neg (by simp [hc])]
  split
  next t' rest' h =>
    obtain ⟨rfl, rfl⟩ : t' = t ∧ rest' = rest := by simpa [ht] using h.symm
    rw [hst]
  next h => simp [ht] at h

/-- A value may come next, inside some open containers. -/
def State.Awaits (st : State) (outer : List Frame) : Prop :=
  ∀ t, t ≠ .closeArray → st.step? t = State.begin? outer t

/-- Reading the text of a value completes this value, wherever it may stand. -/
def ReadBack (v : Json) : Prop :=
  ∀ (st : State) (outer : List Frame) (rest : List Char), st.Awaits outer →
    st.run? (v.write ++ rest) = (State.complete v outer).run? rest

theorem State.awaits_value (outer : List Frame) : (State.value outer).Awaits outer :=
  fun _ _ => rfl

theorem State.awaits_arrayOpened (outer : List Frame) :
    (State.arrayOpened outer).Awaits (.array [] :: outer) := by
  intro t ht
  cases t <;> first | rfl | exact absurd rfl ht

theorem State.run?_quoteText {st st' : State} {s : Option String} (rest : List Char)
    (hst : st.step? (.text s) = some st') : st.run? (quoteText s ++ rest) = st'.run? rest := by
  obtain ⟨r, hr⟩ : ∃ r, quoteText s ++ rest = '"' :: r := by
    cases s <;> exact ⟨_, rfl⟩
  rw [hr]
  exact State.run?_token rfl (hr ▸ token?_quoteText s rest) hst

theorem ReadBack.text (s : Option String) : ReadBack (.text s) := by
  intro st outer rest hst
  rw [write_text]
  exact State.run?_quoteText rest (hst _ (by simp))

/-- The items after the first one are read back one by one. -/
theorem State.run?_itemsText {vs : List Json} (hvs : ∀ v ∈ vs, ReadBack v) (done : List Json)
    (outer : List Frame) (rest : List Char) :
    (State.itemRead done outer).run? (itemsText vs ++ rest) =
      (State.complete (.array (done.reverse ++ vs)) outer).run? rest := by
  induction vs generalizing done with
  | nil =>
    rw [List.append_nil]
    exact State.run?_token rfl rfl rfl
  | cons v vs ih =>
    obtain ⟨hv, hvs⟩ := List.forall_mem_cons.1 hvs
    rw [itemsText, List.cons_append, List.cons_append, List.append_assoc,
      State.run?_token rfl rfl rfl, hv _ _ _ (State.awaits_value _), State.complete, ih hvs]
    simp

/-- An array is read back if its items are. -/
theorem ReadBack.array {vs : List Json} (hvs : ∀ v ∈ vs, ReadBack v) : ReadBack (.array vs) := by
  intro st outer rest hst
  have hopen : st.step? .openArray = some (.arrayOpened outer) := hst _ (by simp)
  cases vs with
  | nil =>
    show st.run? ('[' :: ']' :: rest) = _
    rw [State.run?_token rfl rfl hopen]
    exact State.run?_token rfl rfl rfl
  | cons v vs =>
    obtain ⟨hv, hvs⟩ := List.forall_mem_cons.1 hvs
    rw [write_array_cons, List.cons_append, List.cons_append, List.append_assoc,
      State.run?_token rfl rfl hopen, hv _ _ _ (State.awaits_arrayOpened _), State.complete]
    exact State.run?_itemsText hvs [v] outer rest

/-- The members after the first one are read back one by one. -/
theorem State.run?_membersText {ms : List (Option String × Json)} (hms : ∀ m ∈ ms, ReadBack m.2)
    (done : List (Option String × Json)) (outer : List Frame) (rest : List Char) :
    (State.memberRead done outer).run? (membersText ms ++ rest) =
      (State.complete (.object (done.reverse ++ ms)) outer).run? rest := by
  induction ms generalizing done with
  | nil =>
    rw [List.append_nil]
    exact State.run?_token rfl rfl rfl
  | cons m ms ih =>
    obtain ⟨key, v⟩ := m
    obtain ⟨hv, hms⟩ := List.forall_mem_cons.1 hms
    simp only [membersText, List.cons_append, List.append_assoc]
    rw [State.run?_token rfl rfl rfl, State.run?_quoteText _ rfl, State.run?_token rfl rfl rfl,
      hv _ _ _ (State.awaits_value _), State.complete, ih hms]
    simp

/-- An object is read back if its values are. -/
theorem ReadBack.object {ms : List (Option String × Json)} (hms : ∀ m ∈ ms, ReadBack m.2) :
    ReadBack (.object ms) := by
  intro st outer rest hst
  have hopen : st.step? .openObject = some (.objectOpened outer) := hst _ (by simp)
  cases ms with
  | nil =>
    show st.run? ('\x7b' :: '\x7d' :: rest) = _
    rw [State.run?_token rfl rfl hopen]
    exact State.run?_token rfl rfl rfl
  | cons m ms =>
    obtain ⟨key, v⟩ := m
    obtain ⟨hv, hms⟩ := List.forall_mem_cons.1 hms
    rw [write_object_cons]
    simp only [List.cons_append, List.append_assoc]
    rw [State.run?_token rfl rfl hopen, State.run?_quoteText _ rfl, State.run?_token rfl rfl rfl,
      hv _ _ _ (State.awaits_value _), State.complete]
    exact State.run?_membersText hms [(key, v)] outer rest

/-- **Reading what was written** gives the value. -/
theorem ReadBack.parse?_render {v : Json} (h : ReadBack v) : parse? v.render = some v := by
  have hrun : (State.value []).run? v.write = some (.read v) := by
    rw [← List.append_nil v.write, h _ _ _ (State.awaits_value []), State.complete, State.run?]
  rw [parse?, render, String.toList_ofList, read?, hrun]
  rfl

end SelectorRename.Json
