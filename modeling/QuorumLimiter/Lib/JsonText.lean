import Mathlib.Algebra.BigOperators.Group.List.Basic
import Mathlib.Algebra.GroupWithZero.Nat

/-!
JSON as it is written, and how many bytes it takes: objects, arrays, strings with
their escapes, and byte strings in base64. A body is read back through a limit on
its bytes.
-/

namespace JsonText

/-- The bytes a text takes in UTF-8. -/
def size (text : List Char) : Nat := (text.map Char.utf8Size).sum

def hexDigit (value : Nat) : Char := "0123456789abcdef".toList.getD value '0'

/-- One character inside a string. Angle brackets, ampersands and the two line
separators are escaped as well. -/
def escape (c : Char) : List Char :=
  if c = '"' then ['\\', '"']
  else if c = '\\' then ['\\', '\\']
  else if c = '\n' then ['\\', 'n']
  else if c = '\r' then ['\\', 'r']
  else if c = '\t' then ['\\', 't']
  else if c.toNat = 8 then ['\\', 'b']
  else if c.toNat = 12 then ['\\', 'f']
  else if c.toNat < 32 ∨ c = '<' ∨ c = '>' ∨ c = '&' then
    ['\\', 'u', '0', '0', hexDigit (c.toNat / 16), hexDigit (c.toNat % 16)]
  else if c.toNat = 0x2028 ∨ c.toNat = 0x2029 then
    ['\\', 'u', '2', '0', '2', hexDigit (c.toNat % 16)]
  else [c]

def string (text : String) : List Char := '"' :: (text.toList.flatMap escape ++ ['"'])

def number (value : Nat) : List Char := (toString value).toList

def integer (value : Int) : List Char := (toString value).toList

def boolean (value : Bool) : List Char := if value then "true".toList else "false".toList

def field (name : String) (value : List Char) : List Char := '"' :: (name.toList ++ '"' :: ':' :: value)

def object (fields : List (List Char)) : List Char :=
  '\x7b' :: (List.intercalate [','] fields ++ ['\x7d'])

def array (items : List (List Char)) : List Char := '[' :: (List.intercalate [','] items ++ [']'])

def symbol (value : Nat) : Char :=
  "ABCDEFGHIJKLMNOPQRSTUVWXYZabcdefghijklmnopqrstuvwxyz0123456789+/".toList.getD value 'A'

/-- Three bytes at a time, the last group padded. -/
def base64 : List UInt8 → List Char
  | [] => []
  | [a] => [symbol (a.toNat / 4), symbol (a.toNat % 4 * 16), '=', '=']
  | [a, b] =>
      [symbol (a.toNat / 4), symbol (a.toNat % 4 * 16 + b.toNat / 16), symbol (b.toNat % 16 * 4), '=']
  | a :: b :: c :: rest =>
      symbol (a.toNat / 4) :: symbol (a.toNat % 4 * 16 + b.toNat / 16) ::
        symbol (b.toNat % 16 * 4 + c.toNat / 64) :: symbol (c.toNat % 64) :: base64 rest

section Sizes

@[simp] theorem size_nil : size [] = 0 := rfl

@[simp] theorem size_cons (c : Char) (rest : List Char) : size (c :: rest) = c.utf8Size + size rest := by
  simp [size]

@[simp] theorem size_append (left right : List Char) : size (left ++ right) = size left + size right := by
  simp [size]

theorem size_le (text : List Char) : size text ≤ text.length * 4 := by
  induction text with
  | nil => exact Nat.le_refl _
  | cons c rest ih =>
      have width := c.utf8Size_le_four
      rw [size_cons, List.length_cons]
      omega

theorem size_replicate (count : Nat) (c : Char) :
    size (List.replicate count c) = count * c.utf8Size := by
  simp [size]

theorem size_intercalate (items : List (List Char)) :
    size (List.intercalate [','] items) = (items.map size).sum + (items.length - 1) := by
  induction items with
  | nil => rfl
  | cons first rest ih =>
      cases rest with
      | nil => simp [List.intercalate]
      | cons second more =>
          rw [List.intercalate_cons_cons, size_append, size_append, ih]
          simp only [size_cons, size_nil, List.map_cons, List.sum_cons, List.length_cons,
            show (',').utf8Size = 1 from rfl]
          omega

theorem symbol_utf8Size (value : Nat) : (symbol value).utf8Size = 1 := by
  rcases Nat.lt_or_ge value 64 with inside | outside
  · have listed : ∀ value < 64, (symbol value).utf8Size = 1 := by decide +kernel
    exact listed value inside
  · rw [symbol, List.getD_eq_getElem?_getD, List.getElem?_eq_none outside]
    rfl

theorem size_base64 (bytes : List UInt8) : size (base64 bytes) = 4 * ((bytes.length + 2) / 3) := by
  fun_induction base64 bytes with
  | case1 => rfl
  | case2 a =>
      simp only [size_cons, symbol_utf8Size, size_nil, List.length_cons, List.length_nil,
        show ('=').utf8Size = 1 from rfl]
  | case3 a b =>
      simp only [size_cons, symbol_utf8Size, size_nil, List.length_cons, List.length_nil,
        show ('=').utf8Size = 1 from rfl]
  | case4 a b c rest ih =>
      simp only [size_cons, symbol_utf8Size, ih, List.length_cons]
      omega

theorem size_field (name : String) (value : List Char) :
    size (field name value) = size name.toList + 3 + size value := by
  simp only [field, size_cons, size_append, show ('"').utf8Size = 1 from rfl,
    show (':').utf8Size = 1 from rfl]
  omega

theorem size_object (fields : List (List Char)) :
    size (object fields) = (fields.map size).sum + (fields.length - 1) + 2 := by
  simp only [object, size_cons, size_append, size_nil, size_intercalate,
    show ('\x7b').utf8Size = 1 from rfl, show ('\x7d').utf8Size = 1 from rfl]
  omega

theorem size_array (items : List (List Char)) :
    size (array items) = (items.map size).sum + (items.length - 1) + 2 := by
  simp only [array, size_cons, size_append, size_nil, size_intercalate,
    show ('[').utf8Size = 1 from rfl, show (']').utf8Size = 1 from rfl]
  omega

theorem size_string_replicate (count : Nat) (c : Char) (plain : escape c = [c]) :
    size (string (String.ofList (List.replicate count c))) = count * c.utf8Size + 2 := by
  have escaped : (List.replicate count c).flatMap escape = List.replicate count c := by
    induction count with
    | zero => rfl
    | succ count ih => rw [List.replicate_succ, List.flatMap_cons, ih, plain]; rfl
  simp only [string, String.toList_ofList, escaped, size_cons, size_append, size_nil,
    size_replicate, show ('"').utf8Size = 1 from rfl]
  omega

theorem size_encoded (text : List Char) :
    (String.ofList text).toByteArray.data.toList.length = size text := by
  rw [String.toByteArray_ofList, List.utf8Encode, List.data_toByteArray]
  induction text with
  | nil => rfl
  | cons c rest ih =>
      rw [List.flatMap_cons, List.length_append, String.length_utf8EncodeChar, size_cons]
      rw [ih]

end Sizes

section Reading

/-- What a streaming decoder makes of the bytes it was given: a syntax error, a
value that has not ended, or the first value with what follows it. The value may
still fail to have the wanted fields. -/
inductive Read (α : Type)
  | malformed
  | incomplete
  | value (decoded : Option α) (rest : List UInt8)

inductive ReadError
  | tooLarge
  | invalid
  deriving DecidableEq, Repr

def isSpace (b : UInt8) : Bool := b = 32 ∨ b = 9 ∨ b = 10 ∨ b = 13

/-- Whether another value may follow: a closing bracket does not count. -/
def more (rest : List UInt8) : Bool :=
  match rest.dropWhile isSpace with
  | [] => false
  | b :: _ => b ≠ 93 ∧ b ≠ 125

/-- One value and nothing after it, out of the first `limit` bytes. Only a decoder
that asks for more than these learns that the body goes on. -/
def readLimited {α : Type} (limit : Nat) (read : List UInt8 → Read α) (body : List UInt8) :
    Except ReadError α :=
  match read (body.take limit) with
  | .malformed => .error .invalid
  | .incomplete => .error (if body.length > limit then .tooLarge else .invalid)
  | .value none _ => .error .invalid
  | .value (some value) rest => if more rest then .error .invalid else .ok value

/-- A decoder gets a value back from its text, and not before the text has ended. -/
structure Reads {α : Type} (read : List UInt8 → Read α) (text : List UInt8) (value : α) :
    Prop where
  cut : ∀ n < text.length, read (text.take n) = .incomplete
  whole : read text = .value (some value) []

theorem readLimited_eq {α : Type} {read : List UInt8 → Read α} {text : List UInt8} {value : α}
    (limit : Nat) (reads : Reads read text value) :
    readLimited limit read text =
      if text.length ≤ limit then .ok value else .error .tooLarge := by
  unfold readLimited
  rcases Nat.lt_or_ge limit text.length with exceeds | fits
  · rw [reads.cut limit exceeds, if_neg (Nat.not_le.mpr exceeds)]
    simp only [if_pos exceeds]
  · rw [List.take_of_length_le fits, reads.whole, if_pos fits]
    rfl

def decoderOf {α : Type} (text : List UInt8) (value : α) (bytes : List UInt8) : Read α :=
  if bytes.length < text.length then .incomplete
  else if bytes = text then .value (some value) []
  else .malformed

theorem decoderOf_reads {α : Type} (text : List UInt8) (value : α) :
    Reads (decoderOf text value) text value where
  cut n short := by
    have cutShort : (text.take n).length < text.length := by
      rw [List.length_take]
      omega
    rw [decoderOf, if_pos cutShort]
  whole := by simp [decoderOf]

end Reading

end JsonText
