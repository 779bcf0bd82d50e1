/-
  Reading Json, strictly by its grammar.

  * `Json.token?`: the token that a text begins with, and what follows it.
  * `Json.State`: where a reader stands inside the containers that are open, and `State.step?` takes
    it on by one token. The open containers are kept in a list, so values nest to any depth.
  * `Json.State.run?`: all tokens of a text. Blanks between them are spaces, tabs and line ends only.
  * `Json.read?`: the one value that a text holds; nothing but blanks may stand around it.
-/
import SelectorRename.Json.Value

namespace SelectorRename.Json

/-! ## Quoted text -/

/-- A piece of a quoted text: a character, or the code unit that a `\u` escape names. -/
inductive Piece where
  | char (c : Char)
  | unit (n : Nat)
  deriving DecidableEq, Repr

/-- The value of a digit in base sixteen. -/
def hexValue? (c : Char) : Option Nat :=
  if c.isDigit then some (c.toNat - '0'.toNat)
  else if 'a' ≤ c && c ≤ 'f' then some (c.toNat - 'a'.toNat + 10)
  else if 'A' ≤ c && c ≤ 'F' then some (c.toNat - 'A'.toNat + 10)
  else none

/-- The code unit with four given digits. -/
def codeUnit? (a b c d : Char) : Option Nat := do
  return (((← hexValue? a) * 16 + (← hexValue? b)) * 16 + (← hexValue? c)) * 16 + (← hexValue? d)

/-- The character that a letter stands for after a backslash. -/
def unescape? (letter : Char) : Option Char :=
  if letter = '"' || letter = '\\' || letter = '/' then some letter
  else if letter = 'b' then some '\x08'
  else if letter = 't' then some '\t'
  else if letter = 'n' then some '\n'
  else if letter = 'f' then some '\x0c'
  else if letter = 'r' then some '\r'
  else none

/-- The pieces up to the closing quote, after those of `done`, which has the last one first, and
what follows the quote. -/
def piecesFrom? (done : List Piece) : List Char → Option (List Piece × List Char)
  | [] => none
  | '"' :: s => some (done.reverse, s)
  | '\\' :: 'u' :: a :: b :: c :: d :: s =>
    match codeUnit? a b c d with
    | some n => piecesFrom? (.unit n :: done) s
    | none => none
  | '\\' :: letter :: s =>
    match unescape? letter with
    | some c => piecesFrom? (.char c :: done) s
    | none => none
  | c :: s => if c.toNat < 0x20 || c = '\\' then none else piecesFrom? (.char c :: done) s

/-- The pieces up to the closing quote, and what follows it. -/
def pieces? (s : List Char) : Option (List Piece × List Char) := piecesFrom? [] s

theorem length_of_piecesFrom? {done : List Piece} {s : List Char} {ps : List Piece}
    {rest : List Char} (h : piecesFrom? done s = some (ps, rest)) : rest.length < s.length := by
  fun_induction piecesFrom? done s generalizing ps rest <;> simp_all <;> grind

/-- What follows a quoted text is shorter than the text with its closing quote. -/
theorem length_of_pieces? {s : List Char} {ps : List Piece} {rest : List Char}
    (h : pieces? s = some (ps, rest)) : rest.length < s.length :=
  length_of_piecesFrom? h

/-- Whether a code unit is the first half of a surrogate pair. -/
def isHighHalf (n : Nat) : Bool := 0xD800 ≤ n && n < 0xDC00

/-- Whether a code unit is the second half of a surrogate pair. -/
def isLowHalf (n : Nat) : Bool := 0xDC00 ≤ n && n < 0xE000

/-- The characters of a quoted text after those of `done`, which has the last one first, unless a
half of a surrogate pair stands alone. -/
def assembleOnto? (done : List Char) : List Piece → Option (List Char)
  | [] => some done.reverse
  | .char c :: ps => assembleOnto? (c :: done) ps
  | .unit high :: .unit low :: ps =>
    if isHighHalf high && isLowHalf low then
      assembleOnto? (Char.ofNat ((high - 0xD800) * 0x400 + (low - 0xDC00) + 0x10000) :: done) ps
    else if isHighHalf high || isLowHalf high then none
    else assembleOnto? (Char.ofNat high :: done) (.unit low :: ps)
  | .unit n :: ps =>
    if isHighHalf n || isLowHalf n then none else assembleOnto? (Char.ofNat n :: done) ps

/-- The characters of a quoted text, unless a half of a surrogate pair stands alone. -/
def assemble? (ps : List Piece) : Option (List Char) := assembleOnto? [] ps

/-! ## Numbers -/

/-- The digits that a text begins with, if there are any, and what follows them. -/
def digits? (s : List Char) : Option (List Char × List Char) :=
  let digits := s.takeWhile Char.isDigit
  if digits = [] then none else some (digits, s.dropWhile Char.isDigit)

theorem length_of_digits? {s digits rest : List Char} (h : digits? s = some (digits, rest)) :
    rest.length < s.length := by
  simp only [digits?] at h
  split at h
  · cases h
  · next hd =>
    simp only [Option.some.injEq, Prod.mk.injEq] at h
    obtain ⟨rfl, rfl⟩ := h
    have := congrArg List.length (List.takeWhile_append_dropWhile (p := Char.isDigit) (l := s))
    have := List.length_pos_iff.2 hd
    simp only [List.length_append] at *
    omega

/-- The number that digits stand for. -/
def ofDigits (digits : List Char) : Nat :=
  digits.foldl (fun n c => n * 10 + (c.toNat - '0'.toNat)) 0

/-- A minus sign, if the text begins with one, and what follows it. -/
def minus (s : List Char) : Bool × List Char :=
  match s with
  | '-' :: s => (true, s)
  | s => (false, s)

/-- The whole part of a number: a zero, or digits that do not begin with one. -/
def whole? (s : List Char) : Option (Nat × List Char) :=
  match digits? s with
  | some (digits, rest) =>
    if digits.head? = some '0' && 1 < digits.length then none else some (ofDigits digits, rest)
  | none => none

/-- The fraction of a number, if it has one. -/
def fraction? (s : List Char) : Option (Option (List Char) × List Char) :=
  match s with
  | '.' :: s => (digits? s).map fun (digits, rest) => (some digits, rest)
  | s => some (none, s)

theorem length_of_fraction? {s rest : List Char} {f : Option (List Char)}
    (h : fraction? s = some (f, rest)) : rest.length ≤ s.length := by
  unfold fraction? at h
  split at h
  · simp only [Option.map_eq_some_iff, Prod.mk.injEq, Prod.exists] at h
    obtain ⟨d, r, h, -, rfl⟩ := h
    have := length_of_digits? h
    simp; omega
  · simp_all

/-- The exponent of a number, if it has one. -/
def exponent? (s : List Char) : Option (Option Int × List Char) :=
  match s with
  | c :: s =>
    if c = 'e' || c = 'E' then
      match s with
      | '-' :: s => (digits? s).map fun (digits, rest) => (some (-(ofDigits digits : Int)), rest)
      | '+' :: s => (digits? s).map fun (digits, rest) => (some (ofDigits digits : Int), rest)
      | s => (digits? s).map fun (digits, rest) => (some (ofDigits digits : Int), rest)
    else some (none, c :: s)
  | [] => some (none, [])

theorem length_of_exponent? {s rest : List Char} {e : Option Int}
    (h : exponent? s = some (e, rest)) : rest.length ≤ s.length := by
  unfold exponent? at h
  split at h
  · split at h
    · split at h <;>
      · simp only [Option.map_eq_some_iff, Prod.mk.injEq, Prod.exists] at h
        obtain ⟨d, r, h, -, rfl⟩ := h
        have := length_of_digits? h
        simp_all; omega
    · simp_all
  · simp_all

/-- The number that a text begins with, and what follows it. -/
def number? (s : List Char) : Option (Number × List Char) := do
  let (negative, s) := minus s
  let (whole, s) ← whole? s
  let (fraction, s) ← fraction? s
  let (exponent, s) ← exponent? s
  return (⟨negative, whole, fraction, exponent⟩, s)

theorem length_of_number? {s rest : List Char} {n : Number} (h : number? s = some (n, rest)) :
    rest.length < s.length := by
  simp only [number?, bind, Option.bind_eq_some_iff, Prod.exists, pure, Option.some.injEq, Prod.mk.injEq] at h
  obtain ⟨w, s₁, hw, f, s₂, hf, e, s₃, he, -, rfl⟩ := h
  have h1 : (minus s).2.length ≤ s.length := by unfold minus; split <;> simp
  have h2 := length_of_fraction? hf
  have h3 := length_of_exponent? he
  have h4 : s₁.length < (minus s).2.length := by
    simp only [whole?] at hw
    split at hw
    · next d r hd =>
      split at hw
      · cases hw
      · simp only [Option.some.injEq, Prod.mk.injEq] at hw
        exact hw.2 ▸ length_of_digits? hd
    · cases hw
  omega

/-! ## Tokens -/

/-- A token of Json. -/
inductive Token where
  | openArray
  | closeArray
  | openObject
  | closeObject
  | comma
  | colon
  | null
  | bool (b : Bool)
  | number (n : Number)
  | text (s : Option String)
  deriving DecidableEq, Repr

/-- The token that a text begins with, and what follows it. -/
def token? : List Char → Option (Token × List Char)
  | '[' :: s => some (.openArray, s)
  | ']' :: s => some (.closeArray, s)
  | '\x7b' :: s => some (.openObject, s)
  | '\x7d' :: s => some (.closeObject, s)
  | ',' :: s => some (.comma, s)
  | ':' :: s => some (.colon, s)
  | '"' :: s => (pieces? s).map fun (ps, rest) => (.text ((assemble? ps).map String.ofList), rest)
  | 'n' :: 'u' :: 'l' :: 'l' :: s => some (.null, s)
  | 't' :: 'r' :: 'u' :: 'e' :: s => some (.bool true, s)
  | 'f' :: 'a' :: 'l' :: 's' :: 'e' :: s => some (.bool false, s)
  | s => (number? s).map fun (n, rest) => (.number n, rest)

/-- A token is not empty. -/
theorem length_of_token? {s rest : List Char} {t : Token} (h : token? s = some (t, rest)) :
    rest.length < s.length := by
  unfold token? at h
  split at h <;> try simp only [Option.some.injEq, Prod.mk.injEq] at h
  case h_7 =>
    simp only [Option.map_eq_some_iff, Prod.mk.injEq, Prod.exists] at h
    obtain ⟨ps, r, h, -, rfl⟩ := h
    have := length_of_pieces? h
    simp; omega
  case h_11 =>
    simp only [Option.map_eq_some_iff, Prod.mk.injEq, Prod.exists] at h
    obtain ⟨n, r, h, -, rfl⟩ := h
    exact length_of_number? h
  all_goals
    obtain ⟨-, rfl⟩ := h
    simp
    try omega

/-- A blank between tokens. -/
def isSpace (c : Char) : Bool := c = ' ' || c = '\t' || c = '\n' || c = '\r'

/-! ## Values -/

/-- A container that is open, and what it holds so far, the last one first. -/
inductive Frame where
  | array (items : List Json)
  /-- The member with this key has no value yet. -/
  | object (members : List (Option String × Json)) (key : Option String)

/-- Where a reader stands: what must come next, inside which open containers. Items and members
that were read have the last one first. -/
inductive State where
  /-- A value. -/
  | value (outer : List Frame)
  /-- The first item of an array, or its end. -/
  | arrayOpened (outer : List Frame)
  /-- A comma, or the end of the array. -/
  | itemRead (items : List Json) (outer : List Frame)
  /-- The first key of an object, or its end. -/
  | objectOpened (outer : List Frame)
  /-- A key. -/
  | nextKey (members : List (Option String × Json)) (outer : List Frame)
  /-- The colon after a key. -/
  | keyRead (members : List (Option String × Json)) (key : Option String) (outer : List Frame)
  /-- A comma, or the end of the object. -/
  | memberRead (members : List (Option String × Json)) (outer : List Frame)
  /-- Nothing any more. -/
  | read (v : Json)

namespace State

/-- After a value was read: it goes into the innermost open container. -/
def complete (v : Json) : List Frame → State
  | [] => .read v
  | .array items :: outer => .itemRead (v :: items) outer
  | .object members key :: outer => .memberRead ((key, v) :: members) outer

/-- After the first token of a value. -/
def begin? (outer : List Frame) : Token → Option State
  | .null => some (complete .null outer)
  | .bool b => some (complete (.bool b) outer)
  | .number n => some (complete (.number n) outer)
  | .text s => some (complete (.text s) outer)
  | .openArray => some (.arrayOpened outer)
  | .openObject => some (.objectOpened outer)
  | _ => none

/-- After a token, unless it cannot stand there. -/
def step? : State → Token → Option State
  | .value outer, t => begin? outer t
  | .arrayOpened outer, .closeArray => some (complete (.array []) outer)
  | .arrayOpened outer, t => begin? (.array [] :: outer) t
  | .itemRead items outer, .comma => some (.value (.array items :: outer))
  | .itemRead items outer, .closeArray => some (complete (.array items.reverse) outer)
  | .objectOpened outer, .closeObject => some (complete (.object []) outer)
  | .objectOpened outer, .text key => some (.keyRead [] key outer)
  | .nextKey members outer, .text key => some (.keyRead members key outer)
  | .keyRead members key outer, .colon => some (.value (.object members key :: outer))
  | .memberRead members outer, .comma => some (.nextKey members outer)
  | .memberRead members outer, .closeObject => some (complete (.object members.reverse) outer)
  | _, _ => none

/-- After all tokens of a text. -/
def run? : State → List Char → Option State
  | st, [] => some st
  | st, c :: s =>
    if isSpace c then run? st s
    else
      match _h : token? (c :: s) with
      | some (t, rest) =>
        match st.step? t with
        | some st => run? st rest
        | none => none
      | none => none
  termination_by _ s => s.length
  decreasing_by
    · simp
    · exact length_of_token? _h

/-- The value that was read, if nothing is missing. -/
def result? : State → Option Json
  | .read v => some v
  | _ => none

end State

/-- The value that a text holds. -/
def read? (s : List Char) : Option Json := ((State.value []).run? s).bind State.result?

/-- The value that a string holds. -/
def parse? (s : String) : Option Json := read? s.toList

end SelectorRename.Json
