import Mathlib.Data.List.Lex
import Mathlib.Order.Defs.LinearOrder
import QuorumLimiter.Lib.BigEndian

/-!
Composite keys. Each part is preceded by its length in two bytes, so keys are
unambiguous whatever bytes the parts contain.
-/

instance byteOrder : LinearOrder UInt8 where
  le_refl := UInt8.le_refl
  le_trans _ _ _ := UInt8.le_trans
  le_antisymm _ _ := UInt8.le_antisymm
  le_total := UInt8.le_total
  lt_iff_le_not_ge _ _ := by
    rw [UInt8.not_le]
    exact ⟨fun below => ⟨UInt8.le_of_lt below, below⟩, And.right⟩
  toDecidableLE := inferInstance

namespace QuorumLimiter

abbrev Bytes := List UInt8

/-- A Go string as the bytes of its UTF-8 encoding. -/
def bytesOf (text : String) : Bytes := text.toByteArray.data.toList

inductive StoreError
  | keyPartTooLong (length : Nat)
  | malformedKey
  | keyRequired
  | keyTooLarge
  deriving DecidableEq, Repr

def u64 (value : Nat) : Bytes := BigEndian.encode 8 value

def parseU64 (key : Bytes) : Nat := if key.length ≠ 8 then 0 else BigEndian.decode key

def maxKeyPartLen : Nat := 65535

def putUint16 (value : Nat) : Bytes := [UInt8.ofNat (value / 256), UInt8.ofNat value]

def uint16 (high low : UInt8) : Nat := high.toNat * 256 + low.toNat

def encodePart (part : Bytes) : Bytes := putUint16 part.length ++ part

def compositeKey (parts : List Bytes) : Except StoreError Bytes :=
  match parts.find? fun part => part.length > maxKeyPartLen with
  | some part => .error (.keyPartTooLong part.length)
  | none => .ok (parts.flatMap encodePart)

/-- The loop of `splitCompositeKey`; `rounds` bounds the parts left. -/
def splitParts : Nat → Bytes → Except StoreError (List Bytes)
  | _, [] => .ok []
  | rounds + 1, high :: low :: rest =>
      if rest.length < uint16 high low then .error .malformedKey
      else
        match splitParts rounds (rest.drop (uint16 high low)) with
        | .error error => .error error
        | .ok parts => .ok (rest.take (uint16 high low) :: parts)
  | _, _ => .error .malformedKey

def splitCompositeKey (key : Bytes) : Except StoreError (List Bytes) := splitParts key.length key

section Keys

theorem parseU64_u64 {value : Nat} (fits : value < 2 ^ 64) : parseU64 (u64 value) = value := by
  rw [parseU64, u64, if_neg (not_not.mpr (BigEndian.encode_length 8 value)),
    BigEndian.decode_encode 8 value fits]

/-- Keys of log indexes are in the order of the indexes. -/
theorem u64_lt_iff {left right : Nat} (first : left < 2 ^ 64) (second : right < 2 ^ 64) :
    u64 left < u64 right ↔ left < right := BigEndian.encode_lt_iff first second

theorem uint16_putUint16 (value : Nat) (bound : value ≤ maxKeyPartLen) :
    uint16 (UInt8.ofNat (value / 256)) (UInt8.ofNat value) = value := by
  rw [maxKeyPartLen] at bound
  simp only [uint16, UInt8.toNat_ofNat']
  omega

theorem compositeKey_eq_ok_iff (parts : List Bytes) (key : Bytes) :
    compositeKey parts = .ok key ↔ (∀ part ∈ parts, part.length ≤ maxKeyPartLen) ∧
      key = parts.flatMap encodePart := by
  unfold compositeKey
  split
  · rename_i part found
    constructor
    · rintro ⟨⟩
    · rintro ⟨short, _⟩
      have long := List.find?_some found
      have bound := short part (List.mem_of_find?_eq_some found)
      simp only [gt_iff_lt, decide_eq_true_eq] at long
      omega
  · rename_i absent
    have short : ∀ part ∈ parts, part.length ≤ maxKeyPartLen := by
      intro part member
      have kept := List.find?_eq_none.mp absent part member
      simpa using kept
    constructor
    · rintro ⟨⟩
      exact ⟨short, rfl⟩
    · rintro ⟨_, rfl⟩
      rfl

theorem splitParts_cons (rounds : Nat) (part rest : Bytes) (bound : part.length ≤ maxKeyPartLen) :
    splitParts (rounds + 1) (encodePart part ++ rest) =
      match splitParts rounds rest with
      | .error error => .error error
      | .ok parts => .ok (part :: parts) := by
  simp only [encodePart, putUint16, List.cons_append, List.nil_append, splitParts,
    uint16_putUint16 _ bound, List.length_append]
  rw [if_neg (by omega), List.drop_left, List.take_left]

theorem splitParts_encoded (parts : List Bytes) (rounds : Nat)
    (short : ∀ part ∈ parts, part.length ≤ maxKeyPartLen) (enough : parts.length ≤ rounds) :
    splitParts rounds (parts.flatMap encodePart) = .ok parts := by
  induction parts generalizing rounds with
  | nil => cases rounds <;> rfl
  | cons part rest ih =>
      rw [List.length_cons] at enough
      obtain ⟨fewer, rfl⟩ : ∃ fewer, rounds = fewer + 1 := ⟨rounds - 1, by omega⟩
      rw [List.flatMap_cons, splitParts_cons _ _ _ (short part (by simp)),
        ih fewer (fun other member => short other (by simp [member])) (by omega)]

theorem encoded_length (parts : List Bytes) : parts.length ≤ (parts.flatMap encodePart).length := by
  induction parts with
  | nil => exact Nat.le_refl _
  | cons part rest ih =>
      simp only [List.flatMap_cons, List.length_append, List.length_cons, encodePart, putUint16]
      omega

theorem split_compositeKey (parts : List Bytes) (key : Bytes)
    (encoded : compositeKey parts = .ok key) : splitCompositeKey key = .ok parts := by
  obtain ⟨short, rfl⟩ := (compositeKey_eq_ok_iff parts key).mp encoded
  exact splitParts_encoded parts _ short (encoded_length parts)

theorem putUint16_uint16 (high low : UInt8) : putUint16 (uint16 high low) = [high, low] := by
  have highBound := high.toNat_lt
  have lowBound := low.toNat_lt
  simp only [putUint16, uint16, List.cons.injEq, and_true, ← UInt8.toNat_inj, UInt8.toNat_ofNat']
  omega

theorem uint16_le (high low : UInt8) : uint16 high low ≤ maxKeyPartLen := by
  have highBound := high.toNat_lt
  have lowBound := low.toNat_lt
  rw [uint16, maxKeyPartLen]
  omega

theorem splitParts_accepts (rounds : Nat) (key : Bytes) (parts : List Bytes)
    (accepted : splitParts rounds key = .ok parts) :
    (∀ part ∈ parts, part.length ≤ maxKeyPartLen) ∧ key = parts.flatMap encodePart := by
  -- What the loop accepts, part by part, is what the encoder writes for those parts.
  induction rounds generalizing key parts with
  | zero =>
      cases key with
      | nil =>
          cases accepted
          exact ⟨by simp, rfl⟩
      | cons byte rest => cases rest <;> cases accepted
  | succ rounds ih =>
      match key, accepted with
      | [], accepted =>
          cases accepted
          exact ⟨by simp, rfl⟩
      | [_], accepted => cases accepted
      | high :: low :: rest, accepted =>
          rw [splitParts] at accepted
          by_cases short : rest.length < uint16 high low
          · rw [if_pos short] at accepted
            cases accepted
          · rw [if_neg short] at accepted
            cases later : splitParts rounds (rest.drop (uint16 high low)) with
            | error error =>
                rw [later] at accepted
                cases accepted
            | ok more =>
                rw [later] at accepted
                cases accepted
                obtain ⟨bounds, same⟩ := ih _ _ later
                have length : (rest.take (uint16 high low)).length = uint16 high low := by
                  rw [List.length_take]
                  omega
                constructor
                · intro part member
                  rcases List.mem_cons.mp member with rfl | old
                  · rw [length]
                    exact uint16_le high low
                  · exact bounds part old
                · rw [List.flatMap_cons, ← same, encodePart, length, putUint16_uint16]
                  simp

theorem splitParts_enough (rounds more : Nat) (key : Bytes) (enough : key.length ≤ rounds)
    (extra : key.length ≤ more) : splitParts rounds key = splitParts more key := by
  -- Each round takes at least the two length bytes off the key, so rounds never run out.
  induction rounds generalizing key more with
  | zero =>
      have empty : key = [] := List.length_eq_zero_iff.mp (by omega)
      rw [empty]
      cases more <;> rfl
  | succ rounds ih =>
      match key, enough, extra with
      | [], _, _ => cases more <;> rfl
      | [_], _, extra =>
          rw [List.length_singleton] at extra
          obtain ⟨fewer, rfl⟩ : ∃ fewer, more = fewer + 1 := ⟨more - 1, by omega⟩
          rfl
      | high :: low :: rest, enough, extra =>
          simp only [List.length_cons] at enough extra
          obtain ⟨fewer, rfl⟩ : ∃ fewer, more = fewer + 1 := ⟨more - 1, by omega⟩
          have left : (rest.drop (uint16 high low)).length ≤ rest.length := by
            rw [List.length_drop]
            omega
          rw [splitParts, splitParts, ih fewer _ (by omega) (by omega)]

theorem splitCompositeKey_eq_ok_iff (key : Bytes) (parts : List Bytes) :
    splitCompositeKey key = .ok parts ↔ compositeKey parts = .ok key := by
  constructor
  · intro accepted
    exact (compositeKey_eq_ok_iff parts key).mpr (splitParts_accepts _ key parts accepted)
  · exact split_compositeKey parts key

theorem compositeKey_fails_iff (parts : List Bytes) :
    (∃ error, compositeKey parts = .error error) ↔ ∃ part ∈ parts, maxKeyPartLen < part.length := by
  constructor
  · rintro ⟨error, failed⟩
    by_contra absent
    push Not at absent
    have encoded := (compositeKey_eq_ok_iff parts _).mpr ⟨absent, rfl⟩
    rw [failed] at encoded
    cases encoded
  · rintro ⟨part, member, long⟩
    cases encoded : compositeKey parts with
    | error error => exact ⟨error, rfl⟩
    | ok key =>
        have short := ((compositeKey_eq_ok_iff parts key).mp encoded).1 part member
        omega

theorem compositeKey_injective (left right : List Bytes) (key : Bytes)
    (first : compositeKey left = .ok key) (second : compositeKey right = .ok key) :
    left = right :=
  Except.ok.inj ((split_compositeKey left key first).symm.trans (split_compositeKey right key second))

/-- The decoder undoes the encoder and accepts nothing else, within one round a byte. -/
theorem compositeKey_decodes_exactly :
    (∀ parts : List Bytes, (∀ part ∈ parts, part.length ≤ 65535) →
      ∃ key, compositeKey parts = .ok key ∧ splitCompositeKey key = .ok parts) ∧
    (∀ (left right : List Bytes) (key : Bytes), compositeKey left = .ok key →
      compositeKey right = .ok key → left = right) ∧
    (∀ parts : List Bytes, (∃ error, compositeKey parts = .error error) ↔
      ∃ part ∈ parts, 65535 < part.length) ∧
    (∀ (key : Bytes) (parts : List Bytes),
      splitCompositeKey key = .ok parts ↔ compositeKey parts = .ok key) ∧
    ∀ (key : Bytes) (rounds : Nat), key.length ≤ rounds →
      splitParts rounds key = splitCompositeKey key := by
  refine ⟨?_, compositeKey_injective, compositeKey_fails_iff, splitCompositeKey_eq_ok_iff, ?_⟩
  · intro parts short
    have encoded := (compositeKey_eq_ok_iff parts _).mpr ⟨short, rfl⟩
    exact ⟨_, encoded, split_compositeKey parts _ encoded⟩
  · intro key rounds enough
    exact splitParts_enough rounds key.length key enough (Nat.le_refl _)

theorem bytesOf_injective (left right : String) (same : bytesOf left = bytesOf right) :
    left = right :=
  String.toByteArray_inj.mp (ByteArray.ext (Array.toList_inj.mp same))

end Keys

end QuorumLimiter
