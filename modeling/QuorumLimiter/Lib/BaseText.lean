import Mathlib.Data.List.Basic
import QuorumLimiter.Lib.JsonText

/-!
Bytes as text: their bits, highest first, are cut into digits of a fixed width, the last
one filled up with zeros, and every digit is written as a character of an alphabet.
-/

namespace BaseText

def bits (byte : UInt8) : List Bool := (List.range 8).map fun place => byte.toNat.testBit (7 - place)

/-- The number that the bits spell when zeros follow up to the width. -/
def value (width : Nat) (digit : List Bool) : Nat :=
  digit.foldl (fun value bit => 2 * value + bit.toNat) 0 * 2 ^ (width - digit.length)

def digits (width : Nat) : Nat → List Bool → List Nat
  | 0, _ => []
  | count + 1, rest => value width (rest.take width) :: digits width count (rest.drop width)

def encodedLen (width length : Nat) : Nat := (8 * length + width - 1) / width

/-- The text of the bytes, without padding. -/
def encode (alphabet : List Char) (width : Nat) (bytes : List UInt8) : List Char :=
  (digits width (encodedLen width bytes.length) (bytes.flatMap bits)).map (alphabet.getD · 'A')

theorem digits_length (width count : Nat) (rest : List Bool) :
    (digits width count rest).length = count := by
  induction count generalizing rest with
  | zero => rfl
  | succ count ih => rw [digits, List.length_cons, ih]

theorem encode_length (alphabet : List Char) (width : Nat) (bytes : List UInt8) :
    (encode alphabet width bytes).length = encodedLen width bytes.length := by
  rw [encode, List.length_map, digits_length]

/-- Every character is of the alphabet, or the one that stands for a missing digit. -/
theorem encode_all {alphabet : List Char} {allowed : Char → Bool}
    (letters : alphabet.all allowed = true) (fill : allowed 'A' = true) (width : Nat)
    (bytes : List UInt8) : (encode alphabet width bytes).all allowed = true := by
  rw [List.all_eq_true]
  intro c member
  obtain ⟨digit, _, rfl⟩ := List.mem_map.mp member
  rw [List.getD_eq_getElem?_getD]
  cases found : alphabet[digit]? with
  | none => exact fill
  | some c => exact List.all_eq_true.mp letters c (List.mem_of_getElem? found)

/-- One byte for each character, if the alphabet is ASCII. -/
theorem size_encode {alphabet : List Char} (ascii : (alphabet.all fun c => c.utf8Size = 1) = true)
    (width : Nat) (bytes : List UInt8) :
    JsonText.size (encode alphabet width bytes) = encodedLen width bytes.length := by
  have single : ∀ c ∈ encode alphabet width bytes, c.utf8Size = 1 := fun c member =>
    of_decide_eq_true (List.all_eq_true.mp (encode_all ascii (by decide) width bytes) c member)
  rw [JsonText.size, List.map_congr_left single, ← encode_length alphabet, List.map_const',
    List.sum_replicate]
  simp

end BaseText
