import QuorumLimiter.Lib.JsonText

/-!
JSON as it is read: a parser over bytes that tells a text that can no longer become a
value from one that only has not ended. `Parses` and `ParsesUpTo` say that a parser
reads a written text back, and they compose along the grammar.
-/

namespace Json

open JsonText

variable {α β : Type}

def utf8 (text : List Char) : List UInt8 := text.flatMap String.utf8EncodeChar

def byte (c : Char) : UInt8 := UInt8.ofNat c.toNat

section Parsers

/-- No value begins like this, the value has not ended, or a value with what follows. -/
inductive Outcome (α : Type)
  | malformed
  | incomplete
  | done (value : α) (rest : List UInt8)

def Outcome.bind : Outcome α → (α → List UInt8 → Outcome β) → Outcome β
  | .malformed, _ => .malformed
  | .incomplete, _ => .incomplete
  | .done value rest, next => next value rest

def Outcome.map (f : α → β) (outcome : Outcome α) : Outcome β :=
  outcome.bind fun value rest => .done (f value) rest

def Parser (α : Type) := List UInt8 → Outcome α

instance : Monad Parser where
  pure value := fun text => .done value text
  bind first next := fun text => (first text).bind next

def fail : Parser α := fun _ => .malformed

def next : Parser UInt8
  | [] => .incomplete
  | b :: rest => .done b rest

def expect (c : Char) : Parser Unit := do
  let b ← next
  if b = byte c then return () else fail

def space : Parser Unit := fun text => .done () (text.dropWhile isSpace)

def word : List Char → Parser Unit
  | [] => pure ()
  | c :: rest => do
      expect c
      word rest

def kept (parser : Parser α) : Parser (List UInt8 × α) := fun text =>
  (parser text).bind fun value rest => .done (text.take (text.length - rest.length), value) rest

/-- Items with commas between them, up to the closing bracket. Every round takes at
least one byte, so as many rounds as there are bytes are enough. -/
def series (item : Parser α) (close : Char) : Nat → Parser (List α)
  | 0 => fail
  | rounds + 1 => do
      let first ← item
      space
      let b ← next
      if b = byte ',' then do
        space
        let rest ← series item close rounds
        return first :: rest
      else if b = byte close then return [first]
      else fail

def enclosed (item : Parser α) (close : Char) : Parser (List α)
  | [] => .incomplete
  | b :: rest =>
      if b = byte close then .done [] rest
      else series item close ((b :: rest).length + 1) (b :: rest)

def bracketed (item : Parser α) (close : Char) : Parser (List α) := do
  space
  enclosed item close

end Parsers

section Lexemes

/-- Inside a string: at a character, after a backslash, or at a hexadecimal digit with
so many still to come after it. -/
inductive StringState
  | plain
  | escaped
  | hex (owed : Nat)
  deriving DecidableEq, Repr

def isHex (b : UInt8) : Bool :=
  (48 ≤ b && b ≤ 57) || (97 ≤ b && b ≤ 102) || (65 ≤ b && b ≤ 70)

def StringState.step : StringState → UInt8 → Option StringState
  | .plain, b =>
      if b = byte '\\' then some .escaped else if b < 32 then none else some .plain
  | .escaped, b =>
      if b = byte 'u' then some (.hex 3)
      else if b ∈ "\"\\/bfnrt".toList.map byte then some .plain
      else none
  | .hex owed, b =>
      if isHex b then
        match owed with
        | 0 => some .plain
        | owed + 1 => some (.hex owed)
      else none

def contents : StringState → Parser (List UInt8)
  | _, [] => .incomplete
  | state, b :: rest =>
      if state = .plain ∧ b = byte '"' then .done [] rest
      else
        match state.step b with
        | some after => (contents after rest).map (b :: ·)
        | none => .malformed

inductive NumberState
  | start
  | sign
  | zero
  | digits
  | point
  | fraction
  | e
  | exponentSign
  | exponent
  deriving DecidableEq, Repr

def isDigit (b : UInt8) : Bool := 48 ≤ b && b ≤ 57

def NumberState.accepts : NumberState → Bool
  | .zero | .digits | .fraction | .exponent => true
  | _ => false

def NumberState.step (state : NumberState) (b : UInt8) : Option NumberState :=
  match state with
  | .start =>
      if b = byte '-' then some .sign else if b = 48 then some .zero
      else if isDigit b then some .digits else none
  | .sign => if b = 48 then some .zero else if isDigit b then some .digits else none
  | .zero =>
      if b = byte '.' then some .point
      else if b = byte 'e' ∨ b = byte 'E' then some .e else none
  | .digits =>
      if isDigit b then some .digits else if b = byte '.' then some .point
      else if b = byte 'e' ∨ b = byte 'E' then some .e else none
  | .point => if isDigit b then some .fraction else none
  | .fraction =>
      if isDigit b then some .fraction
      else if b = byte 'e' ∨ b = byte 'E' then some .e else none
  | .e =>
      if b = byte '+' ∨ b = byte '-' then some .exponentSign
      else if isDigit b then some .exponent else none
  | .exponentSign => if isDigit b then some .exponent else none
  | .exponent => if isDigit b then some .exponent else none

def numeral : NumberState → Parser (List UInt8)
  | state, [] => if state.accepts then .done [] [] else .incomplete
  | state, b :: rest =>
      match state.step b with
      | some after => (numeral after rest).map (b :: ·)
      | none => if state.accepts then .done [] (b :: rest) else .malformed

/-- The characters the bytes spell; a byte that begins none stands for U+FFFD. -/
def runes : Nat → List UInt8 → List Char
  | 0, _ => []
  | _ + 1, [] => []
  | rounds + 1, b :: rest =>
      match (b :: rest).toByteArray.utf8DecodeChar? 0 with
      | some c => c :: runes rounds ((b :: rest).drop c.utf8Size)
      | none => '�' :: runes rounds rest

def hexValue (c : Char) : Nat :=
  if c.isDigit then c.toNat - '0'.toNat
  else if 'a' ≤ c ∧ c ≤ 'f' then c.toNat - 'a'.toNat + 10
  else c.toNat - 'A'.toNat + 10

def unicode (a b c d : Char) : Nat :=
  ((hexValue a * 16 + hexValue b) * 16 + hexValue c) * 16 + hexValue d

def isHigh (code : Nat) : Bool := 0xD800 ≤ code && code < 0xDC00

def isLow (code : Nat) : Bool := 0xDC00 ≤ code && code < 0xE000

def paired (high low : Nat) : Option Char :=
  if isHigh high && isLow low then
    some (Char.ofNat ((high - 0xD800) * 0x400 + (low - 0xDC00) + 0x10000))
  else none

def unescaped (c : Char) : Char :=
  if c = 'b' then Char.ofNat 8
  else if c = 'f' then Char.ofNat 12
  else if c = 'n' then '\n'
  else if c = 'r' then '\r'
  else if c = 't' then '\t'
  else c

/-- The first half of a pair that the second does not follow. -/
def lone : Option Nat → List Char
  | some _ => ['�']
  | none => []

/-- The text of a string's contents. The first half of a surrogate pair is kept for the
second; half a pair stands for U+FFFD. -/
def unquote : Option Nat → List Char → List Char
  | pending, '\\' :: 'u' :: a :: b :: c :: d :: rest =>
      match pending.bind (paired · (unicode a b c d)) with
      | some both => both :: unquote none rest
      | none =>
          lone pending ++
            if isHigh (unicode a b c d) then unquote (some (unicode a b c d)) rest
            else if isLow (unicode a b c d) then '�' :: unquote none rest
            else Char.ofNat (unicode a b c d) :: unquote none rest
  | pending, '\\' :: c :: rest => lone pending ++ unescaped c :: unquote none rest
  | pending, c :: rest => lone pending ++ c :: unquote none rest
  | pending, [] => lone pending

def decodeString (raw : List UInt8) : String := String.ofList (unquote none (runes raw.length raw))

def quoted : Parser String := do
  expect '"'
  let raw ← contents .plain
  return decodeString raw

end Lexemes

section Values

structure Member (ν : Type) where
  key : String
  text : List UInt8
  value : ν

inductive Value
  | null
  | bool (value : Bool)
  | number (literal : List UInt8)
  | string (text : String)
  | array (items : List Value)
  | object (members : List (Member Value))

def pair (value : Parser Value) : Parser (Member Value) := do
  let key ← quoted
  space
  expect ':'
  space
  let (text, value) ← kept value
  return ⟨key, text, value⟩

def scalar : Parser Value
  | [] => .incomplete
  | b :: rest =>
      if b = byte '"' then (contents .plain rest).map fun raw => .string (decodeString raw)
      else if b = byte 't' then (word ['r', 'u', 'e'] rest).map fun _ => .bool true
      else if b = byte 'f' then (word ['a', 'l', 's', 'e'] rest).map fun _ => .bool false
      else if b = byte 'n' then (word ['u', 'l', 'l'] rest).map fun _ => .null
      else if b = byte '-' ∨ isDigit b then (numeral .start (b :: rest)).map .number
      else .malformed

/-- A value with at most so many brackets open at once. -/
def value : Nat → Parser Value
  | _, [] => .incomplete
  | depth, b :: rest =>
      if b = byte '\x7b' then
        match depth with
        | 0 => .malformed
        | depth + 1 => (bracketed (pair (value depth)) '\x7d' rest).map .object
      else if b = byte '[' then
        match depth with
        | 0 => .malformed
        | depth + 1 => (bracketed (value depth) ']' rest).map .array
      else scalar (b :: rest)

end Values

section Rules

variable {parser : Parser α} {after : α → Parser β} {left right text : List UInt8} {a : α} {b : β}

/-- The parser asks for more, or was content with all there was. -/
def Outcome.Starved : Outcome α → Prop
  | .malformed => False
  | .incomplete => True
  | .done _ rest => rest = []

/-- What may follow a number in a list. -/
def Boundary (rest : List UInt8) : Prop :=
  ∀ b ∈ rest.head?, b = byte ',' ∨ b = byte ']' ∨ b = byte '\x7d'

/-- The text is read to its end whatever follows, and no earlier. -/
structure Parses (parser : Parser α) (text : List UInt8) (a : α) : Prop where
  whole : ∀ rest, parser (text ++ rest) = .done a rest
  cut : ∀ n < text.length, parser (text.take n) = .incomplete

/-- The text is read to its end if nothing follows that would go on with it. -/
structure ParsesUpTo (parser : Parser α) (text : List UInt8) (a : α) : Prop where
  whole : ∀ rest, Boundary rest → parser (text ++ rest) = .done a rest
  cut : ∀ n < text.length, (parser (text.take n)).Starved

/-- The text begins with something that is neither white space nor a closing bracket. -/
def Solid (text : List UInt8) : Prop :=
  ∃ b rest, text = b :: rest ∧ isSpace b = false ∧ b ≠ byte ']' ∧ b ≠ byte '\x7d'

theorem bind_apply (first : Parser α) (next : α → Parser β) (text : List UInt8) :
    (first >>= next) text = (first text).bind next := rfl

theorem Parses.upTo (parses : Parses parser text a) : ParsesUpTo parser text a := by
  refine ⟨fun rest _ => parses.whole rest, fun n short => ?_⟩
  rw [parses.cut n short]
  trivial

theorem boundary_nil : Boundary [] := by
  rintro b ⟨⟩

theorem boundary_cons {b : UInt8} (rest : List UInt8)
    (ends : b = byte ',' ∨ b = byte ']' ∨ b = byte '\x7d') : Boundary (b :: rest) := by
  rintro _ ⟨⟩
  exact ends

theorem take_append_short {n : Nat} (short : n < left.length) :
    (left ++ right).take n = left.take n :=
  List.take_append_of_le_length (Nat.le_of_lt short)

theorem take_append_long {n : Nat} (long : left.length ≤ n) :
    (left ++ right).take n = left ++ right.take (n - left.length) := by
  rw [List.take_append, List.take_of_length_le long]

theorem parses_bind (first : Parses parser left a) (second : Parses (after a) right b) :
    Parses (parser >>= after) (left ++ right) b := by
  refine ⟨fun rest => ?_, fun n short => ?_⟩
  · rw [bind_apply, List.append_assoc, first.whole]
    exact second.whole rest
  · rw [bind_apply]
    rcases Nat.lt_or_ge n left.length with early | late
    · rw [take_append_short early, first.cut n early]
      rfl
    · rw [List.length_append] at short
      rw [take_append_long late, first.whole]
      exact second.cut _ (by omega)

theorem upTo_bind (first : Parses parser left a) (second : ParsesUpTo (after a) right b) :
    ParsesUpTo (parser >>= after) (left ++ right) b := by
  refine ⟨fun rest ends => ?_, fun n short => ?_⟩
  · rw [bind_apply, List.append_assoc, first.whole]
    exact second.whole rest ends
  · rw [bind_apply]
    rcases Nat.lt_or_ge n left.length with early | late
    · rw [take_append_short early, first.cut n early]
      trivial
    · rw [List.length_append] at short
      rw [take_append_long late, first.whole]
      exact second.cut _ (by omega)

theorem parses_map (parses : Parses parser text a) (f : α → β) :
    Parses (fun input => (parser input).map f) text (f a) := by
  refine ⟨fun rest => ?_, fun n short => ?_⟩
  · show (parser (text ++ rest)).map f = _
    rw [parses.whole]
    rfl
  · show (parser (text.take n)).map f = _
    rw [parses.cut n short]
    rfl

theorem upTo_map (parses : ParsesUpTo parser text a) (f : α → β) :
    ParsesUpTo (fun input => (parser input).map f) text (f a) := by
  refine ⟨fun rest ends => ?_, fun n short => ?_⟩
  · show (parser (text ++ rest)).map f = _
    rw [parses.whole rest ends]
    rfl
  · have starved := parses.cut n short
    show ((parser (text.take n)).map f).Starved
    cases outcome : parser (text.take n) with
    | malformed => simp [outcome, Outcome.Starved] at starved
    | incomplete => trivial
    | done value rest =>
        rw [outcome] at starved
        exact starved

theorem parses_expect (c : Char) : Parses (expect c) [byte c] () := by
  refine ⟨fun rest => ?_, fun n short => ?_⟩
  · show (if byte c = byte c then (pure () : Parser Unit) else fail) rest = _
    rw [if_pos rfl]
    rfl
  · obtain rfl : n = 0 := by simpa using short
    rfl

theorem parses_word (letters : List Char) : Parses (word letters) (letters.map byte) () := by
  induction letters with
  | nil => exact ⟨fun _ => rfl, fun n short => absurd short (Nat.not_lt_zero n)⟩
  | cons c rest ih => exact parses_bind (parses_expect c) ih

theorem space_solid (solid : Solid text) (rest : List UInt8) :
    space (text ++ rest) = .done () (text ++ rest) := by
  obtain ⟨b, tail, rfl, dense, _⟩ := solid
  simp [space, dense]

theorem space_take (solid : Solid text) (n : Nat) :
    space (text.take n) = .done () (text.take n) := by
  obtain ⟨b, tail, rfl, dense, _⟩ := solid
  cases n with
  | zero => rfl
  | succ n => simp [space, dense]

theorem upTo_space (solid : Solid text) (parses : ParsesUpTo parser text a) :
    ParsesUpTo (space >>= fun _ => parser) text a := by
  refine ⟨fun rest ends => ?_, fun n short => ?_⟩
  · rw [bind_apply, space_solid solid]
    exact parses.whole rest ends
  · rw [bind_apply, space_take solid]
    exact parses.cut n short

theorem parses_space (solid : Solid text) (parses : Parses parser text a) :
    Parses (space >>= fun _ => parser) text a := by
  refine ⟨fun rest => ?_, fun n short => ?_⟩
  · rw [bind_apply, space_solid solid]
    exact parses.whole rest
  · rw [bind_apply, space_take solid]
    exact parses.cut n short

theorem upTo_kept (parses : ParsesUpTo parser text a) : ParsesUpTo (kept parser) text (text, a) := by
  refine ⟨fun rest ends => ?_, fun n short => ?_⟩
  · have taken : (text ++ rest).take ((text ++ rest).length - rest.length) = text := by
      rw [List.length_append, Nat.add_sub_cancel]
      exact List.take_left
    rw [kept, parses.whole rest ends]
    exact congrArg (fun read => Outcome.done (read, a) rest) taken
  · have starved := parses.cut n short
    rw [kept]
    cases outcome : parser (text.take n) with
    | malformed => simp [outcome, Outcome.Starved] at starved
    | incomplete => trivial
    | done value rest =>
        rw [outcome] at starved
        exact starved

end Rules

section Series

variable {item : Parser α} {close : Char} {rounds : Nat}

def joined (close : Char) : List (List UInt8) → List UInt8
  | [] => [byte close]
  | [text] => text ++ [byte close]
  | text :: more => text ++ byte ',' :: joined close more

theorem series_read {text rest : List UInt8} {first : α} (read : item text = .done first rest) :
    series item close (rounds + 1) text =
      (next (rest.dropWhile isSpace)).bind fun b rest =>
        if b = byte ',' then
          (series item close rounds (rest.dropWhile isSpace)).map (first :: ·)
        else if b = byte close then .done [first] rest
        else .malformed := by
  rw [series, bind_apply, read]
  show (next (rest.dropWhile isSpace)).bind _ = _
  congr 1
  funext b rest
  split
  · rfl
  · split <;> rfl

/-- Every item is read back, and none begins like the closing bracket. -/
def Items (item : Parser α) (items : List (List UInt8 × α)) : Prop :=
  ∀ written ∈ items, Solid written.1 ∧ ParsesUpTo item written.1 written.2

theorem joined_solid (close : Char) (items : List (List UInt8 × α)) (some : items ≠ [])
    (each : Items item items) : Solid (joined close (items.map Prod.fst)) := by
  cases items with
  | nil => exact absurd rfl some
  | cons first more =>
      obtain ⟨⟨b, rest, begins, dense⟩, _⟩ := each first List.mem_cons_self
      cases more with
      | nil => exact ⟨b, rest ++ [byte close], by simp [joined, begins], dense⟩
      | cons second more =>
          exact ⟨b, rest ++ byte ',' :: joined close ((second :: more).map Prod.fst),
            by simp [joined, begins], dense⟩

theorem series_whole (closes : close = ']' ∨ close = '\x7d') (items : List (List UInt8 × α))
    (some : items ≠ []) (each : Items item items) (enough : items.length ≤ rounds)
    (rest : List UInt8) :
    series item close rounds (joined close (items.map Prod.fst) ++ rest) =
      .done (items.map Prod.snd) rest := by
  induction items generalizing rounds with
  | nil => exact absurd rfl some
  | cons first more ih =>
      obtain ⟨rounds, rfl⟩ : ∃ fewer, rounds = fewer + 1 := ⟨rounds - 1, by
        rw [List.length_cons] at enough
        omega⟩
      obtain ⟨solid, reads⟩ := each first List.mem_cons_self
      cases more with
      | nil =>
          have ends : Boundary (byte close :: rest) :=
            boundary_cons rest (by rcases closes with rfl | rfl <;> simp)
          have read := reads.whole _ ends
          have text : joined close ([first].map Prod.fst) ++ rest = first.1 ++ byte close :: rest := by
            simp [joined]
          rw [text, series_read read]
          rcases closes with rfl | rfl <;> rfl
      | cons second more =>
          have tail : Items item (second :: more) := fun written member =>
            each written (List.mem_cons_of_mem _ member)
          have read := reads.whole _ (boundary_cons
            (joined close ((second :: more).map Prod.fst) ++ rest) (Or.inl rfl))
          have text : joined close ((first :: second :: more).map Prod.fst) ++ rest =
              first.1 ++ byte ',' :: (joined close ((second :: more).map Prod.fst) ++ rest) := by
            simp [joined]
          have dense : (joined close ((second :: more).map Prod.fst) ++ rest).dropWhile isSpace =
              joined close ((second :: more).map Prod.fst) ++ rest := by
            obtain ⟨b, later, begins, dense, _⟩ :=
              joined_solid close (second :: more) (List.cons_ne_nil _ _) tail
            rw [begins, List.cons_append, List.dropWhile_cons_of_neg (by simp [dense])]
          rw [text, series_read read]
          show (series item close rounds ((joined close _ ++ rest).dropWhile isSpace)).map _ = _
          rw [dense, ih (List.cons_ne_nil _ _) tail (by simpa using enough)]
          rfl

theorem series_starved {text : List UInt8} (starved : (item text).Starved) :
    series item close (rounds + 1) text = .incomplete := by
  cases outcome : item text with
  | malformed => simp [outcome, Outcome.Starved] at starved
  | incomplete =>
      rw [series, bind_apply, outcome]
      rfl
  | done value rest =>
      rw [outcome] at starved
      obtain rfl : rest = [] := starved
      rw [series_read outcome]
      rfl

theorem upTo_starved {text : List UInt8} {a : α} (reads : ParsesUpTo item text a) {n : Nat}
    (within : n ≤ text.length) : (item (text.take n)).Starved := by
  rcases Nat.lt_or_eq_of_le within with short | rfl
  · exact reads.cut n short
  · have whole := reads.whole [] boundary_nil
    rw [List.append_nil] at whole
    rw [List.take_length, whole]
    rfl

theorem series_cut (items : List (List UInt8 × α)) (some : items ≠ []) (each : Items item items)
    {n : Nat} (short : n < (joined close (items.map Prod.fst)).length) (enough : n < rounds) :
    series item close rounds ((joined close (items.map Prod.fst)).take n) = .incomplete := by
  induction items generalizing rounds n with
  | nil => exact absurd rfl some
  | cons first more ih =>
      obtain ⟨rounds, rfl⟩ : ∃ fewer, rounds = fewer + 1 := ⟨rounds - 1, by omega⟩
      obtain ⟨⟨b, begins, start, _⟩, reads⟩ := each first List.mem_cons_self
      rcases Nat.lt_or_ge first.1.length n with late | early
      · cases more with
        | nil =>
            simp only [List.map_cons, List.map_nil, joined, List.length_append,
              List.length_singleton] at short
            omega
        | cons second more =>
            have tail : Items item (second :: more) := fun written member =>
              each written (List.mem_cons_of_mem _ member)
            have solid := joined_solid close (second :: more) (List.cons_ne_nil _ _) tail
            have text : (joined close ((first :: second :: more).map Prod.fst)) =
                first.1 ++ byte ',' :: joined close ((second :: more).map Prod.fst) := rfl
            obtain ⟨m, rfl⟩ : ∃ m, n = first.1.length + (m + 1) :=
              ⟨n - first.1.length - 1, by omega⟩
            rw [text, List.length_append, List.length_cons] at short
            have length : first.1.length = begins.length + 1 := by rw [start, List.length_cons]
            have read := reads.whole _ (boundary_cons
              ((joined close ((second :: more).map Prod.fst)).take m) (Or.inl rfl))
            rw [text, take_append_long (Nat.le_add_right _ _), Nat.add_sub_cancel_left,
              List.take_succ_cons, series_read read]
            show (series item close rounds (((joined close _).take m).dropWhile isSpace)).map _ = _
            have dense : ((joined close ((second :: more).map Prod.fst)).take m).dropWhile isSpace =
                (joined close ((second :: more).map Prod.fst)).take m := by
              simpa [space] using space_take solid m
            rw [dense, ih (List.cons_ne_nil _ _) tail (by omega) (by omega)]
            rfl
      · have taken : (joined close ((first :: more).map Prod.fst)).take n = first.1.take n := by
          cases more <;> exact List.take_append_of_le_length early
        rw [taken]
        exact series_starved (upTo_starved reads early)

theorem joined_length (close : Char) (texts : List (List UInt8)) :
    texts.length ≤ (joined close texts).length := by
  induction texts with
  | nil => exact Nat.zero_le _
  | cons first more ih =>
      cases more with
      | nil => simp [joined]
      | cons second more =>
          simp only [joined, List.length_append, List.length_cons] at ih ⊢
          omega

theorem parses_enclosed (closes : close = ']' ∨ close = '\x7d') (items : List (List UInt8 × α))
    (some : items ≠ []) (each : Items item items) :
    Parses (enclosed item close) (joined close (items.map Prod.fst)) (items.map Prod.snd) := by
  obtain ⟨b, later, begins, _, notBracket, notBrace⟩ := joined_solid close items some each
  have inside : b ≠ byte close := by rcases closes with rfl | rfl <;> assumption
  refine ⟨fun rest => ?_, fun n short => ?_⟩
  · have enough : items.length ≤ (joined close (items.map Prod.fst) ++ rest).length + 1 := by
      have least := joined_length close (items.map Prod.fst)
      rw [List.length_map] at least
      rw [List.length_append]
      omega
    have read := series_whole closes items some each enough rest
    rw [begins, List.cons_append] at read ⊢
    rw [enclosed, if_neg inside]
    exact read
  · have size : ((joined close (items.map Prod.fst)).take n).length = n := by
      rw [List.length_take]
      omega
    have read := series_cut items some each short (Nat.lt_succ_self n)
    rw [← size] at read
    cases n with
    | zero => rfl
    | succ n =>
        rw [size, begins, List.take_succ_cons] at read
        rw [begins, List.take_succ_cons] at size ⊢
        rw [enclosed, if_neg inside, size]
        exact read

theorem parses_bracketed (closes : close = ']' ∨ close = '\x7d') (items : List (List UInt8 × α))
    (each : Items item items) :
    Parses (bracketed item close) (joined close (items.map Prod.fst)) (items.map Prod.snd) := by
  by_cases empty : items = []
  · subst empty
    refine ⟨fun rest => ?_, fun n short => ?_⟩
    · rcases closes with rfl | rfl <;> rfl
    · obtain rfl : n = 0 := by simpa [joined] using short
      rfl
  · exact parses_space (joined_solid close items empty each) (parses_enclosed closes items empty each)

end Series

end Json
