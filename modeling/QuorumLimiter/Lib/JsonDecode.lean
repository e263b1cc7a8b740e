import QuorumLimiter.Lib.JsonWritten

/-!
Storing JSON values into typed places: a number into an integer of 64 bits, an array
into a list, the members of an object into the fields of a record, found by name in any
order. `null` leaves a place as it is. Numbers, texts and bytes that were written are
stored back as they were.
-/

namespace Json

open JsonText

variable {α β : Type}

section Decoders

/-- What a place that holds `old` holds after a value is stored into it; `none` if the
value is of another kind. -/
abbrev Decoder (α : Type) := Value → α → Option α

def natOf (literal : List UInt8) : Option Nat :=
  if literal ≠ [] ∧ literal.all isDigit then
    some (Nat.ofDigitChars 10 (literal.map fun b => Char.ofNat b.toNat) 0)
  else none

def integerOf : List UInt8 → Option Int
  | [] => none
  | b :: rest =>
      if b = byte '-' then (natOf rest).map fun n => -(n : Int)
      else (natOf (b :: rest)).map fun n => (n : Int)

def asString : Decoder String
  | .null, old => some old
  | .string text, _ => some text
  | _, _ => none

def asBool : Decoder Bool
  | .null, old => some old
  | .bool value, _ => some value
  | _, _ => none

def asInt64 : Decoder Int64
  | .null, old => some old
  | .number literal, _ =>
      (integerOf literal).bind fun n =>
        if -2 ^ 63 ≤ n ∧ n < 2 ^ 63 then some (Int64.ofInt n) else none
  | _, _ => none

def asNat (bits : Nat) : Decoder Nat
  | .null, old => some old
  | .number literal, _ => (natOf literal).bind fun n => if n < 2 ^ bits then some n else none
  | _, _ => none

def asUInt64 : Decoder UInt64 := fun value old =>
  (asNat 64 value old.toNat).map UInt64.ofNat

def asUInt32 : Decoder UInt32 := fun value old =>
  (asNat 32 value old.toNat).map UInt32.ofNat

def sextet (c : Char) : Option Nat :=
  if 'A' ≤ c ∧ c ≤ 'Z' then some (c.toNat - 'A'.toNat)
  else if 'a' ≤ c ∧ c ≤ 'z' then some (c.toNat - 'a'.toNat + 26)
  else if c.isDigit then some (c.toNat - '0'.toNat + 52)
  else if c = '+' then some 62
  else if c = '/' then some 63
  else none

/-- Four characters at a time, the last group padded. -/
def quads : List Char → Option (List UInt8)
  | [] => some []
  | [a, b, '=', '='] => do
      let a ← sextet a
      let b ← sextet b
      return [UInt8.ofNat (a * 4 + b / 16)]
  | [a, b, c, '='] => do
      let a ← sextet a
      let b ← sextet b
      let c ← sextet c
      return [UInt8.ofNat (a * 4 + b / 16), UInt8.ofNat (b % 16 * 16 + c / 4)]
  | a :: b :: c :: d :: rest => do
      let a ← sextet a
      let b ← sextet b
      let c ← sextet c
      let d ← sextet d
      let rest ← quads rest
      return UInt8.ofNat (a * 4 + b / 16) :: UInt8.ofNat (b % 16 * 16 + c / 4) ::
        UInt8.ofNat (c % 4 * 64 + d) :: rest
  | _ => none

/-- Line breaks in between do not count. -/
def decodeBase64 (text : List Char) : Option (List UInt8) :=
  quads (text.filter fun c => c ≠ '\r' ∧ c ≠ '\n')

def asBytes : Decoder (List UInt8)
  | .null, _ => some []
  | .string text, _ => decodeBase64 text.toList
  | _, _ => none

/-- Items are stored into what was at their places before. -/
def asItems (item : Decoder α) (zero : α) : List Value → List α → Option (List α)
  | [], _ => some []
  | first :: rest, old => do
      let stored ← item first (old.headD zero)
      let more ← asItems item zero rest old.tail
      return stored :: more

def asList (item : Decoder α) (zero : α) : Decoder (List α)
  | .null, _ => some []
  | .array items, old => asItems item zero items old
  | _, _ => none

end Decoders

section Records

/-- A field of a record, and how a member of that name is stored into it. -/
structure FieldOf (α : Type) where
  name : String
  store : Member Value → α → Option α

/-- Letters that differ only in case become one; the Kelvin sign and the long s are
cases of K and S. -/
def foldCase (c : Char) : Char :=
  if c = 'K' then 'K' else if c = 'ſ' then 'S' else c.toUpper

/-- The field of that very name, or else of that name in other case. -/
def lookup (fields : List (FieldOf α)) (key : String) : Option (FieldOf α) :=
  (fields.find? fun field => field.name = key).or
    (fields.find? fun field => field.name.toList.map foldCase = key.toList.map foldCase)

/-- A member of an unknown name is an error, or is left out. -/
def storeMember (strict : Bool) (fields : List (FieldOf α)) (old : α) (member : Member Value) :
    Option α :=
  match lookup fields member.key with
  | some field => field.store member old
  | none => if strict then none else some old

def asRecord (strict : Bool) (fields : List (FieldOf α)) : Decoder α
  | .null, old => some old
  | .object members, old => members.foldlM (storeMember strict fields) old
  | _, _ => none

/-- So many brackets may be open at once. -/
def maxDepth : Nat := 10000

def unmarshal (decode : Decoder α) (zero : α) (bytes : List UInt8) : Option α :=
  match (space >>= fun _ => value maxDepth) bytes with
  | .done v rest => if rest.all isSpace then decode v zero else none
  | _ => none

def readValue (decode : Decoder α) (zero : α) (bytes : List UInt8) : Read α :=
  match (space >>= fun _ => value maxDepth) bytes with
  | .malformed => .malformed
  | .incomplete => .incomplete
  | .done v rest => .value (decode v zero) rest

end Records

section Stored

theorem natOf_number (n : Nat) : natOf (utf8 (number n)) = some n := by
  have all := toDigits_all n
  obtain ⟨b, tail, starts, _⟩ := number_begins n
  have digits : (utf8 (number n)).all isDigit = true := by
    rw [List.all_eq_true, number_digits, utf8_digits all]
    intro b member
    obtain ⟨c, known, rfl⟩ := List.mem_map.mp member
    exact byte_digit (all c known)
  have chars : (utf8 (number n)).map (fun b => Char.ofNat b.toNat) = Nat.toDigits 10 n := by
    rw [number_digits, utf8_digits all, List.map_map]
    refine (List.map_congr_left fun c member => ?_).trans (List.map_id _)
    show Char.ofNat (byte c).toNat = c
    rw [byte_toNat (digit_ascii (all c member)), Char.ofNat_toNat]
  rw [natOf, if_pos ⟨by rw [starts]; exact List.cons_ne_nil _ _, digits⟩, chars,
    Nat.ofDigitChars_ten_toDigits]

theorem integerOf_integer (value : Int) : integerOf (utf8 (integer value)) = some value := by
  cases value with
  | ofNat n =>
      obtain ⟨b, tail, starts, digit⟩ := number_begins n
      have minus : b ≠ byte '-' := by
        rintro rfl
        exact absurd digit (by decide)
      show integerOf (utf8 (number n)) = _
      have whole := natOf_number n
      rw [starts] at whole ⊢
      rw [integerOf, if_neg minus, whole]
      rfl
  | negSucc m =>
      rw [integer_negative, utf8_cons_ascii (by decide), integerOf, if_pos rfl, natOf_number]
      rfl

@[simp] theorem asInt64_integer (n old : Int64) :
    asInt64 (.number (utf8 (integer n.toInt))) old = some n := by
  have low := n.le_toInt
  have high := n.toInt_lt
  rw [asInt64, integerOf_integer, Option.bind_some, if_pos ⟨low, high⟩, Int64.ofInt_toInt]

theorem asNat_number {n bits : Nat} (fits : n < 2 ^ bits) (old : Nat) :
    asNat bits (.number (utf8 (number n))) old = some n := by
  rw [asNat, natOf_number, Option.bind_some, if_pos fits]

@[simp] theorem asUInt64_number (n old : UInt64) :
    asUInt64 (.number (utf8 (number n.toNat))) old = some n := by
  rw [asUInt64, asNat_number n.toNat_lt, Option.map_some, UInt64.ofNat_toNat]

@[simp] theorem asUInt32_number (n old : UInt32) :
    asUInt32 (.number (utf8 (number n.toNat))) old = some n := by
  rw [asUInt32, asNat_number n.toNat_lt, Option.map_some, UInt32.ofNat_toNat]

theorem sextet_symbol : ∀ n < 64, sextet (symbol n) = some n := by decide +kernel

theorem symbol_plain : ∀ n < 64, symbol n ≠ '=' ∧ symbol n ≠ '\r' ∧ symbol n ≠ '\n' ∧
    escape (symbol n) = [symbol n] := by decide +kernel

theorem quads_more {a b c d : Char} (full : d ≠ '=') (rest : List Char) :
    quads (a :: b :: c :: d :: rest) = (do
      let a ← sextet a
      let b ← sextet b
      let c ← sextet c
      let d ← sextet d
      let rest ← quads rest
      return UInt8.ofNat (a * 4 + b / 16) :: UInt8.ofNat (b % 16 * 16 + c / 4) ::
        UInt8.ofNat (c % 4 * 64 + d) :: rest) := by
  rw [quads]
  · intro _ padding
    exact absurd padding full
  · intro padding
    exact absurd padding full

theorem quads_base64 (bytes : List UInt8) : quads (base64 bytes) = some bytes := by
  fun_induction base64 bytes with
  | case1 => rfl
  | case2 a =>
      have small := a.toNat_lt
      rw [quads, sextet_symbol _ (by omega), sextet_symbol _ (by omega)]
      show some [UInt8.ofNat (a.toNat / 4 * 4 + a.toNat % 4 * 16 / 16)] = _
      rw [show a.toNat / 4 * 4 + a.toNat % 4 * 16 / 16 = a.toNat by omega, UInt8.ofNat_toNat]
  | case3 a b =>
      have smallA := a.toNat_lt
      have smallB := b.toNat_lt
      have filled := (symbol_plain (b.toNat % 16 * 4) (by omega)).1
      rw [quads, sextet_symbol _ (by omega), sextet_symbol _ (by omega),
        sextet_symbol _ (by omega)]
      · show some [UInt8.ofNat (a.toNat / 4 * 4 + (a.toNat % 4 * 16 + b.toNat / 16) / 16),
          UInt8.ofNat ((a.toNat % 4 * 16 + b.toNat / 16) % 16 * 16 + b.toNat % 16 * 4 / 4)] = _
        rw [show a.toNat / 4 * 4 + (a.toNat % 4 * 16 + b.toNat / 16) / 16 = a.toNat by omega,
          show (a.toNat % 4 * 16 + b.toNat / 16) % 16 * 16 + b.toNat % 16 * 4 / 4 = b.toNat by omega,
          UInt8.ofNat_toNat, UInt8.ofNat_toNat]
      · exact filled
  | case4 a b c rest ih =>
      have smallA := a.toNat_lt
      have smallB := b.toNat_lt
      have smallC := c.toNat_lt
      have filled := (symbol_plain (c.toNat % 64) (by omega)).1
      rw [quads_more filled, sextet_symbol _ (by omega), sextet_symbol _ (by omega),
        sextet_symbol _ (by omega), sextet_symbol _ (by omega), ih]
      show some (UInt8.ofNat (a.toNat / 4 * 4 + (a.toNat % 4 * 16 + b.toNat / 16) / 16) ::
        UInt8.ofNat ((a.toNat % 4 * 16 + b.toNat / 16) % 16 * 16 +
          (b.toNat % 16 * 4 + c.toNat / 64) / 4) ::
        UInt8.ofNat ((b.toNat % 16 * 4 + c.toNat / 64) % 4 * 64 + c.toNat % 64) :: rest) = _
      rw [show a.toNat / 4 * 4 + (a.toNat % 4 * 16 + b.toNat / 16) / 16 = a.toNat by omega,
        show (a.toNat % 4 * 16 + b.toNat / 16) % 16 * 16 + (b.toNat % 16 * 4 + c.toNat / 64) / 4 =
          b.toNat by omega,
        show (b.toNat % 16 * 4 + c.toNat / 64) % 4 * 64 + c.toNat % 64 = c.toNat by omega,
        UInt8.ofNat_toNat, UInt8.ofNat_toNat, UInt8.ofNat_toNat]

theorem base64_plain (bytes : List UInt8) :
    ∀ c ∈ base64 bytes, c ≠ '\r' ∧ c ≠ '\n' ∧ escape c = [c] := by
  have pad : '=' ≠ '\r' ∧ '=' ≠ '\n' ∧ escape '=' = ['='] := by decide
  fun_induction base64 bytes with
  | case1 => rintro c ⟨⟩
  | case2 a =>
      have smallA := a.toNat_lt
      simp only [List.forall_mem_cons]
      exact ⟨(symbol_plain _ (by omega)).2, (symbol_plain _ (by omega)).2, pad, pad, by simp⟩
  | case3 a b =>
      have smallA := a.toNat_lt
      have smallB := b.toNat_lt
      simp only [List.forall_mem_cons]
      exact ⟨(symbol_plain _ (by omega)).2, (symbol_plain _ (by omega)).2,
        (symbol_plain _ (by omega)).2, pad, by simp⟩
  | case4 a b c rest ih =>
      have smallA := a.toNat_lt
      have smallB := b.toNat_lt
      have smallC := c.toNat_lt
      simp only [List.forall_mem_cons]
      exact ⟨(symbol_plain _ (by omega)).2, (symbol_plain _ (by omega)).2,
        (symbol_plain _ (by omega)).2, (symbol_plain _ (by omega)).2, ih⟩

theorem writes_base64 {depth : Nat} (bytes : List UInt8) :
    Writes depth ('"' :: (base64 bytes ++ ['"'])) (.string (String.ofList (base64 bytes))) := by
  have plain : Plain (String.ofList (base64 bytes)) := by
    intro c member
    rw [String.toList_ofList] at member
    exact (base64_plain bytes c member).2.2
  have writes : Writes depth _ _ := writes_string (String.ofList (base64 bytes))
  rw [string, plain_escape plain, String.toList_ofList] at writes
  exact writes

@[simp] theorem asBytes_base64 (bytes old : List UInt8) :
    asBytes (.string (String.ofList (base64 bytes))) old = some bytes := by
  have unbroken : (base64 bytes).filter (fun c => c ≠ '\r' ∧ c ≠ '\n') = base64 bytes := by
    rw [List.filter_eq_self]
    intro c member
    obtain ⟨feed, line, _⟩ := base64_plain bytes c member
    simp [feed, line]
  rw [asBytes, String.toList_ofList, decodeBase64, unbroken, quads_base64]

theorem asItems_written {item : Decoder α} {zero : α} {read : α → Value} (values : List α)
    (each : ∀ value ∈ values, item (read value) zero = some value) :
    asItems item zero (values.map read) [] = some values := by
  induction values with
  | nil => rfl
  | cons first rest ih =>
      rw [List.map_cons, asItems, List.headD_nil, each first List.mem_cons_self,
        Option.bind_eq_bind, Option.bind_some, List.tail_nil,
        ih fun value member => each value (List.mem_cons_of_mem _ member)]
      rfl

end Stored

section Records

variable {fields : List (FieldOf α)} {strict : Bool}

theorem lookup_name (distinct : (fields.map FieldOf.name).Nodup) {field : FieldOf α}
    (listed : field ∈ fields) : lookup fields field.name = some field := by
  have found : fields.find? (fun other => other.name = field.name) = some field := by
    induction fields with
    | nil => cases listed
    | cons first rest ih =>
        obtain ⟨fresh, distinct⟩ := List.nodup_cons.mp distinct
        rcases List.mem_cons.mp listed with rfl | later
        · simp
        · have other : first.name ≠ field.name := by
            intro same
            rw [same] at fresh
            exact fresh (List.mem_map_of_mem later)
          rw [List.find?_cons_of_neg (by simpa using other)]
          exact ih distinct later
  rw [lookup, found]
  rfl

theorem unmarshal_written {depth : Nat} {text : List Char} {v : Value} (decode : Decoder α)
    (zero : α) (writes : Writes depth text v) (deep : depth = maxDepth) :
    unmarshal decode zero (utf8 text) = decode v zero := by
  subst deep
  have read := (upTo_space writes.solid writes.reads).whole [] boundary_nil
  rw [List.append_nil] at read
  rw [unmarshal, read]
  rfl

end Records

end Json
