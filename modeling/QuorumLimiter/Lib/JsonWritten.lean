import QuorumLimiter.Lib.JsonParser

/-!
What is written is read back: strings with their escapes, numbers, words, arrays and
objects. `Writes` says it of a text and the value it stands for, one rule for each way
to write a value.
-/

namespace Json

open JsonText

variable {α β : Type}

section Strings

@[simp] theorem utf8_nil : utf8 [] = [] := rfl

@[simp] theorem utf8_append (left right : List Char) :
    utf8 (left ++ right) = utf8 left ++ utf8 right :=
  List.flatMap_append

theorem utf8_cons (c : Char) (rest : List Char) :
    utf8 (c :: rest) = String.utf8EncodeChar c ++ utf8 rest := rfl

theorem encodeChar_ascii {c : Char} (ascii : c.toNat < 128) :
    String.utf8EncodeChar c = [byte c] := by
  have small : c.val.toNat ≤ 127 := Nat.le_of_lt_succ ascii
  simp only [String.utf8EncodeChar, if_pos small]
  rfl

theorem utf8_cons_ascii {c : Char} (ascii : c.toNat < 128) (rest : List Char) :
    utf8 (c :: rest) = byte c :: utf8 rest := by
  rw [utf8_cons, encodeChar_ascii ascii]
  rfl

theorem byte_toNat {c : Char} (ascii : c.toNat < 128) : (byte c).toNat = c.toNat := by
  rw [byte, UInt8.toNat_ofNat']
  omega

/-- Where the bytes lead, if no quote and no error is among them. -/
def pass : StringState → List UInt8 → Option StringState
  | state, [] => some state
  | state, b :: rest =>
      if state = .plain ∧ b = byte '"' then none else (state.step b).bind (pass · rest)

theorem pass_append (state : StringState) (left right : List UInt8) :
    pass state (left ++ right) = (pass state left).bind (pass · right) := by
  induction left generalizing state with
  | nil => rfl
  | cons b rest ih =>
      simp only [List.cons_append, pass]
      split
      · rfl
      · cases state.step b with
        | none => rfl
        | some after => exact ih after

theorem contents_pass {state after : StringState} {text : List UInt8}
    (passes : pass state text = some after) (rest : List UInt8) :
    contents state (text ++ rest) = (contents after rest).map (text ++ ·) := by
  induction text generalizing state with
  | nil =>
      cases passes
      cases outcome : contents after rest <;> simp [Outcome.map, Outcome.bind, outcome]
  | cons b more ih =>
      rw [pass] at passes
      split at passes
      · contradiction
      · rename_i inside
        obtain ⟨step, stepped, passes⟩ := Option.bind_eq_some_iff.mp passes
        rw [List.cons_append, contents, if_neg inside, stepped]
        dsimp only
        rw [ih passes]
        cases contents after rest <;> rfl

/-- A string's contents with the closing quote. -/
theorem parses_contents {text : List UInt8} (passes : pass .plain text = some .plain) :
    Parses (contents .plain) (text ++ [byte '"']) text := by
  refine ⟨fun rest => ?_, fun n short => ?_⟩
  · rw [List.append_assoc, contents_pass passes]
    show Outcome.done (text ++ []) rest = _
    rw [List.append_nil]
  · rw [List.length_append, List.length_singleton] at short
    rw [List.take_append_of_le_length (Nat.le_of_lt_succ short)]
    obtain ⟨state, part⟩ : ∃ state, pass .plain (text.take n) = some state := by
      rw [← List.take_append_drop n text, pass_append] at passes
      obtain ⟨state, part, _⟩ := Option.bind_eq_some_iff.mp passes
      exact ⟨state, part⟩
    have whole := contents_pass part []
    rw [List.append_nil] at whole
    rw [whole]
    cases state <;> rfl

theorem pass_plain {text : List UInt8}
    (plain : ∀ b ∈ text, 32 ≤ b ∧ b ≠ byte '"' ∧ b ≠ byte '\\') :
    pass .plain text = some .plain := by
  induction text with
  | nil => rfl
  | cons b rest ih =>
      obtain ⟨printable, quote, slash⟩ := plain b List.mem_cons_self
      rw [pass, if_neg (fun both => quote both.2), StringState.step, if_neg slash,
        if_neg (by simpa using printable)]
      exact ih fun b member => plain b (List.mem_cons_of_mem _ member)

theorem encodeChar_plain {c : Char} (printable : 32 ≤ c.toNat) (quote : c ≠ '"')
    (slash : c ≠ '\\') :
    ∀ b ∈ String.utf8EncodeChar c, 32 ≤ b ∧ b ≠ byte '"' ∧ b ≠ byte '\\' := by
  rcases Nat.lt_or_ge c.toNat 128 with ascii | wide
  · rw [encodeChar_ascii ascii]
    intro b member
    obtain rfl := List.mem_singleton.mp member
    have same := byte_toNat ascii
    refine ⟨?_, ?_, ?_⟩
    · rw [UInt8.le_iff_toNat_le, same]
      exact printable
    · intro equal
      apply quote
      have code := congrArg UInt8.toNat equal
      rw [same] at code
      exact Char.ext (UInt32.toNat_inj.mp code)
    · intro equal
      apply slash
      have code := congrArg UInt8.toNat equal
      rw [same] at code
      exact Char.ext (UInt32.toNat_inj.mp code)
  · have high : ∀ b ∈ String.utf8EncodeChar c, 128 ≤ b.toNat := by
      have above : ¬ c.val.toNat ≤ 127 := Nat.not_le.mpr wide
      intro b member
      simp only [String.utf8EncodeChar, if_neg above] at member
      split at member
      · simp only [List.mem_cons, List.not_mem_nil, or_false] at member
        rcases member with rfl | rfl <;> rw [UInt8.toNat_ofNat'] <;> omega
      · split at member
        · simp only [List.mem_cons, List.not_mem_nil, or_false] at member
          rcases member with rfl | rfl | rfl <;> rw [UInt8.toNat_ofNat'] <;> omega
        · simp only [List.mem_cons, List.not_mem_nil, or_false] at member
          rcases member with rfl | rfl | rfl | rfl <;> rw [UInt8.toNat_ofNat'] <;> omega
    intro b member
    have least := high b member
    refine ⟨?_, ?_, ?_⟩
    · rw [UInt8.le_iff_toNat_le]
      exact Nat.le_trans (by decide) least
    · rintro rfl
      exact absurd least (by decide)
    · rintro rfl
      exact absurd least (by decide)

theorem unicode_written : ∀ n < 128,
    pass .plain (utf8 ['\\', 'u', '0', '0', hexDigit (n / 16), hexDigit (n % 16)]) = some .plain ∧
      unicode '0' '0' (hexDigit (n / 16)) (hexDigit (n % 16)) = n := by
  decide +kernel

theorem separator_written (n : Nat) (separator : n = 0x2028 ∨ n = 0x2029) :
    pass .plain (utf8 ['\\', 'u', '2', '0', '2', hexDigit (n % 16)]) = some .plain ∧
      unicode '2' '0' '2' (hexDigit (n % 16)) = n := by
  rcases separator with rfl | rfl <;> decide +kernel

theorem pass_escape (c : Char) : pass .plain (utf8 (escape c)) = some .plain := by
  unfold escape
  split
  · decide
  split
  · decide
  split
  · decide
  split
  · decide
  split
  · decide
  split
  · decide
  split
  · decide
  split
  · rename_i special
    have ascii : c.toNat < 128 := by
      rcases special with low | rfl | rfl | rfl
      · omega
      all_goals decide
    exact (unicode_written c.toNat ascii).1
  split
  · rename_i separator
    exact (separator_written c.toNat separator).1
  · rename_i quote slash _ _ _ _ _ special _
    rw [utf8, List.flatMap_singleton]
    exact pass_plain (encodeChar_plain (by omega) quote slash)

theorem pass_string (text : List Char) : pass .plain (utf8 (text.flatMap escape)) = some .plain := by
  induction text with
  | nil => rfl
  | cons c rest ih =>
      rw [List.flatMap_cons, utf8_append, pass_append, pass_escape]
      exact ih

theorem unquote_unicode {a b c d : Char} {code : Nat} (value : unicode a b c d = code)
    (single : code < 0xD800 ∨ 0xE000 ≤ code) (rest : List Char) :
    unquote none ('\\' :: 'u' :: a :: b :: c :: d :: rest) = Char.ofNat code :: unquote none rest := by
  have high : isHigh code = false := by
    simp only [isHigh, Bool.and_eq_false_iff, decide_eq_false_iff_not]
    omega
  have low : isLow code = false := by
    simp only [isLow, Bool.and_eq_false_iff, decide_eq_false_iff_not]
    omega
  rw [unquote, value]
  simp [high, low, lone]

theorem unquote_plain {c : Char} (slash : c ≠ '\\') (rest : List Char) :
    unquote none (c :: rest) = c :: unquote none rest := by
  rw [unquote.eq_def]
  split
  · rename_i equal
    cases equal
    exact absurd rfl slash
  · rename_i equal
    cases equal
    exact absurd rfl slash
  · rename_i equal
    cases equal
    rfl
  · rename_i equal
    cases equal

theorem unquote_escape (c : Char) (rest : List Char) :
    unquote none (escape c ++ rest) = c :: unquote none rest := by
  unfold escape
  split
  · subst c
    rfl
  split
  · subst c
    rfl
  split
  · subst c
    rfl
  split
  · subst c
    rfl
  split
  · subst c
    rfl
  split
  · rename_i backspace
    rw [← Char.ofNat_toNat c, backspace]
    rfl
  split
  · rename_i formFeed
    rw [← Char.ofNat_toNat c, formFeed]
    rfl
  split
  · rename_i special
    have ascii : c.toNat < 128 := by
      rcases special with low | rfl | rfl | rfl
      · omega
      all_goals decide
    have value := (unicode_written c.toNat ascii).2
    have read := unquote_unicode value (Or.inl (by omega)) rest
    rwa [Char.ofNat_toNat] at read
  split
  · rename_i separator
    have value := (separator_written c.toNat separator).2
    have read := unquote_unicode value (Or.inl (by omega)) rest
    rwa [Char.ofNat_toNat] at read
  · rename_i slash _ _ _ _ _ _ _
    exact unquote_plain slash rest

theorem unquote_string (text : List Char) : unquote none (text.flatMap escape) = text := by
  induction text with
  | nil => rfl
  | cons c rest ih => rw [List.flatMap_cons, unquote_escape, ih]

theorem runes_utf8 (text : List Char) {rounds : Nat} (enough : text.length ≤ rounds) :
    runes rounds (utf8 text) = text := by
  induction text generalizing rounds with
  | nil => cases rounds <;> rfl
  | cons c rest ih =>
      obtain ⟨rounds, rfl⟩ : ∃ fewer, rounds = fewer + 1 := ⟨rounds - 1, by
        rw [List.length_cons] at enough
        omega⟩
      have decoded : (utf8 (c :: rest)).toByteArray.utf8DecodeChar? 0 = some c :=
        List.utf8DecodeChar?_utf8Encode_cons
      have dropped : (utf8 (c :: rest)).drop c.utf8Size = utf8 rest := by
        rw [utf8_cons, ← String.length_utf8EncodeChar]
        exact List.drop_left
      cases bytes : utf8 (c :: rest) with
      | nil =>
          have size := congrArg List.length bytes
          rw [utf8_cons, List.length_append, String.length_utf8EncodeChar] at size
          have positive := c.utf8Size_pos
          rw [List.length_nil] at size
          omega
      | cons b more =>
          rw [bytes] at decoded dropped
          rw [runes, decoded]
          dsimp only
          rw [dropped, ih (by simpa using enough)]

theorem length_utf8 (text : List Char) : text.length ≤ (utf8 text).length := by
  induction text with
  | nil => exact Nat.le_refl _
  | cons c rest ih =>
      have positive := c.utf8Size_pos
      rw [utf8_cons, List.length_append, String.length_utf8EncodeChar, List.length_cons]
      omega

theorem decodeString_written (text : String) :
    decodeString (utf8 (text.toList.flatMap escape)) = text := by
  rw [decodeString, runes_utf8 _ (length_utf8 _), unquote_string, String.ofList_toList]

/-- Names of fields are written as they are. -/
def Plain (name : String) : Prop := ∀ c ∈ name.toList, escape c = [c]

instance (name : String) : Decidable (Plain name) := List.decidableBAll _ _

theorem plain_escape {name : String} (plain : Plain name) :
    name.toList.flatMap escape = name.toList := by
  have same (text : List Char) (each : ∀ c ∈ text, escape c = [c]) : text.flatMap escape = text := by
    induction text with
    | nil => rfl
    | cons c rest ih =>
        rw [List.flatMap_cons, each c List.mem_cons_self,
          ih fun c member => each c (List.mem_cons_of_mem _ member)]
        rfl
  exact same name.toList plain

theorem utf8_string (text : String) :
    utf8 (string text) = byte '"' :: (utf8 (text.toList.flatMap escape) ++ [byte '"']) := by
  rw [string, utf8_cons_ascii (by decide), utf8_append, utf8_cons_ascii (by decide), utf8_nil]

theorem parses_quoted (text : String) : Parses quoted (utf8 (string text)) text := by
  have body := parses_map (parses_contents (pass_string text.toList)) decodeString
  rw [decodeString_written] at body
  rw [utf8_string]
  exact parses_bind (parses_expect '"') body

end Strings

section Numbers

variable {text rest : List UInt8}

theorem numeral_digits (digits : ∀ b ∈ text, isDigit b) (rest : List UInt8) :
    numeral .digits (text ++ rest) = (numeral .digits rest).map (text ++ ·) := by
  induction text with
  | nil => cases outcome : numeral .digits rest <;> simp [Outcome.map, Outcome.bind, outcome]
  | cons b more ih =>
      rw [List.cons_append, numeral, NumberState.step, if_pos (digits b List.mem_cons_self)]
      dsimp only
      rw [ih fun b member => digits b (List.mem_cons_of_mem _ member)]
      cases numeral .digits rest <;> rfl

theorem numeral_boundary {state : NumberState} (accepts : state.accepts = true)
    (ends : Boundary rest) : numeral state rest = .done [] rest := by
  cases rest with
  | nil => rw [numeral, if_pos accepts]
  | cons b more =>
      have stops : state.step b = none := by
        rcases ends b rfl with rfl | rfl | rfl <;> cases state <;> rfl
      rw [numeral, stops]
      dsimp only
      rw [if_pos accepts]

/-- Digits from a state that takes the first of them. -/
theorem upTo_numeral {state : NumberState} {b : UInt8} (fresh : numeral state [] = .incomplete)
    (first : state.step b = some .digits ∨ state.step b = some .zero ∧ text = [])
    (digits : ∀ b ∈ text, isDigit b) : ParsesUpTo (numeral state) (b :: text) (b :: text) := by
  refine ⟨fun rest ends => ?_, fun n short => ?_⟩
  · rw [List.cons_append, numeral]
    rcases first with more | ⟨zero, rfl⟩
    · rw [more]
      dsimp only
      rw [numeral_digits digits, numeral_boundary rfl ends]
      show Outcome.done (b :: (text ++ [])) rest = _
      rw [List.append_nil]
    · rw [zero]
      dsimp only
      rw [List.nil_append, numeral_boundary rfl ends]
      rfl
  · cases n with
    | zero =>
        rw [List.take_zero, fresh]
        trivial
    | succ n =>
        rw [List.take_succ_cons, numeral]
        rcases first with more | ⟨zero, rfl⟩
        · have part : numeral .digits (text.take n ++ []) = _ :=
            numeral_digits (fun b member => digits b (List.mem_of_mem_take member)) []
          rw [List.append_nil] at part
          rw [more]
          dsimp only
          rw [part]
          rfl
        · rw [zero, List.take_nil]
          rfl

theorem toDigits_head {n : Nat} (positive : 0 < n) :
    ∃ d rest, Nat.toDigits 10 n = d :: rest ∧ d ≠ '0' := by
  induction n using Nat.strongRecOn with
  | ind n ih =>
      rcases Nat.lt_or_ge n 10 with small | large
      · refine ⟨n.digitChar, [], Nat.toDigits_of_lt_base small, ?_⟩
        have listed : ∀ n < 10, 0 < n → n.digitChar ≠ '0' := by decide
        exact listed n small positive
      · obtain ⟨d, rest, digits, leading⟩ := ih (n / 10) (by omega) (by omega)
        refine ⟨d, rest ++ [(n % 10).digitChar], ?_, leading⟩
        rw [Nat.toDigits_of_base_le (by omega) large, digits]
        rfl

theorem digit_ascii {c : Char} (digit : c.isDigit = true) : c.toNat < 128 := by
  simp only [Char.isDigit, Bool.and_eq_true, decide_eq_true_eq] at digit
  have high := digit.2
  rw [UInt32.le_iff_toNat_le] at high
  exact Nat.lt_of_le_of_lt high (by decide)

theorem byte_digit {c : Char} (digit : c.isDigit = true) : isDigit (byte c) = true := by
  have same := byte_toNat (digit_ascii digit)
  simp only [Char.isDigit, Bool.and_eq_true, decide_eq_true_eq] at digit
  obtain ⟨low, high⟩ := digit
  rw [ge_iff_le, UInt32.le_iff_toNat_le] at low
  rw [UInt32.le_iff_toNat_le] at high
  simp only [isDigit, Bool.and_eq_true, decide_eq_true_eq, UInt8.le_iff_toNat_le, same]
  exact ⟨low, high⟩

theorem utf8_digits {digits : List Char} (all : ∀ c ∈ digits, c.isDigit = true) :
    utf8 digits = digits.map byte := by
  induction digits with
  | nil => rfl
  | cons c rest ih =>
      rw [utf8_cons_ascii (digit_ascii (all c List.mem_cons_self)), List.map_cons,
        ih fun c member => all c (List.mem_cons_of_mem _ member)]

theorem number_digits (n : Nat) : number n = Nat.toDigits 10 n := by
  rw [number, Nat.toString_eq_ofList_toDigits, String.toList_ofList]

theorem toDigits_all (n : Nat) : ∀ c ∈ Nat.toDigits 10 n, c.isDigit = true :=
  fun _ member => Nat.isDigit_of_mem_toDigits (by decide) (by decide) member

theorem upTo_natural {state : NumberState} (begins : state = .start ∨ state = .sign) (n : Nat) :
    ParsesUpTo (numeral state) (utf8 (number n)) (utf8 (number n)) := by
  have all := toDigits_all n
  have fresh : numeral state [] = .incomplete := by rcases begins with rfl | rfl <;> rfl
  rw [number_digits, utf8_digits all]
  rcases Nat.eq_zero_or_pos n with rfl | positive
  · refine upTo_numeral fresh (Or.inr ⟨?_, rfl⟩) (by rintro b ⟨⟩)
    rcases begins with rfl | rfl <;> rfl
  · obtain ⟨d, rest, digits, leading⟩ := toDigits_head positive
    rw [digits] at all ⊢
    have digit := byte_digit (all d List.mem_cons_self)
    refine upTo_numeral fresh (Or.inl ?_) ?_
    · have minus : byte d ≠ byte '-' := by
        intro same
        rw [same] at digit
        exact absurd digit (by decide)
      have zero : byte d ≠ 48 := by
        intro same
        apply leading
        have code := congrArg UInt8.toNat same
        rw [byte_toNat (digit_ascii (all d List.mem_cons_self))] at code
        exact Char.ext (UInt32.toNat_inj.mp code)
      rcases begins with rfl | rfl
      · rw [NumberState.step, if_neg minus, if_neg zero, if_pos digit]
      · rw [NumberState.step, if_neg zero, if_pos digit]
    · intro b member
      obtain ⟨c, known, rfl⟩ := List.mem_map.mp member
      exact byte_digit (all c (List.mem_cons_of_mem _ known))

end Numbers

section Written

variable {depth : Nat}

/-- The text stands for the value, inside of not more than `depth` brackets. -/
structure Writes (depth : Nat) (text : List Char) (v : Value) : Prop where
  solid : Solid (utf8 text)
  reads : ParsesUpTo (value depth) (utf8 text) v

theorem parses_lead (whole : Parser β) {parser : Parser α} {b : UInt8} {text : List UInt8} {a : α}
    {f : α → β} (fresh : whole [] = .incomplete)
    (leads : ∀ rest, whole (b :: rest) = (parser rest).map f) (parses : Parses parser text a) :
    Parses whole (b :: text) (f a) := by
  refine ⟨fun rest => ?_, fun n short => ?_⟩
  · rw [List.cons_append, leads, parses.whole]
    rfl
  · cases n with
    | zero => exact fresh
    | succ n =>
        rw [List.take_succ_cons, leads, parses.cut n (by simpa using short)]
        rfl

theorem value_fresh (depth : Nat) : value depth [] = .incomplete := by cases depth <;> rfl

theorem writes_string (text : String) : Writes depth (string text) (.string text) := by
  have body := parses_contents (pass_string text.toList)
  have leads (rest : List UInt8) : value depth (byte '"' :: rest) =
      (contents .plain rest).map fun raw => .string (decodeString raw) := by cases depth <;> rfl
  have reads := parses_lead (value depth) (value_fresh depth) leads body
  rw [decodeString_written, ← utf8_string] at reads
  refine ⟨?_, reads.upTo⟩
  rw [utf8_string]
  exact ⟨_, _, rfl, by decide, by decide, by decide⟩

theorem writes_boolean (b : Bool) : Writes depth (boolean b) (.bool b) := by
  cases b with
  | true =>
      have leads (rest : List UInt8) : value depth (byte 't' :: rest) =
          (word ['r', 'u', 'e'] rest).map fun _ => .bool true := by cases depth <;> rfl
      exact ⟨⟨_, _, rfl, by decide, by decide, by decide⟩,
        (parses_lead (value depth) (value_fresh depth) leads (parses_word _)).upTo⟩
  | false =>
      have leads (rest : List UInt8) : value depth (byte 'f' :: rest) =
          (word ['a', 'l', 's', 'e'] rest).map fun _ => .bool false := by cases depth <;> rfl
      exact ⟨⟨_, _, rfl, by decide, by decide, by decide⟩,
        (parses_lead (value depth) (value_fresh depth) leads (parses_word _)).upTo⟩

theorem writes_null : Writes depth "null".toList .null := by
  have leads (rest : List UInt8) : value depth (byte 'n' :: rest) =
      (word ['u', 'l', 'l'] rest).map fun _ => .null := by cases depth <;> rfl
  exact ⟨⟨_, _, rfl, by decide, by decide, by decide⟩,
    (parses_lead (value depth) (value_fresh depth) leads (parses_word _)).upTo⟩

theorem value_number {b : UInt8} (begins : b = byte '-' ∨ isDigit b = true) (rest : List UInt8) :
    value depth (b :: rest) = (numeral .start (b :: rest)).map .number := by
  have other (c : Char) (not : ¬ (byte c = byte '-' ∨ isDigit (byte c) = true)) : b ≠ byte c := by
    rintro rfl
    exact not begins
  have scalars : value depth (b :: rest) = scalar (b :: rest) := by
    cases depth <;>
      rw [value, if_neg (other '\x7b' (by decide)), if_neg (other '[' (by decide))]
  rw [scalars, scalar, if_neg (other '"' (by decide)), if_neg (other 't' (by decide)),
    if_neg (other 'f' (by decide)), if_neg (other 'n' (by decide)), if_pos begins]

theorem writes_numeral {text : List Char} {b : UInt8} {tail : List UInt8}
    (begins : b = byte '-' ∨ isDigit b = true) (starts : utf8 text = b :: tail)
    (reads : ParsesUpTo (numeral .start) (utf8 text) (utf8 text)) :
    Writes depth text (.number (utf8 text)) := by
  have other (c : Char) (not : ¬ (byte c = byte '-' ∨ isDigit (byte c) = true)) : b ≠ byte c := by
    rintro rfl
    exact not begins
  have mapped := upTo_map reads Value.number
  refine ⟨⟨b, tail, starts, ?_, other ']' (by decide), other '\x7d' (by decide)⟩,
    ⟨fun rest ends => ?_, fun n short => ?_⟩⟩
  · have spaces : isSpace b = true → b = byte ' ' ∨ b = byte '\t' ∨ b = byte '\n' ∨ b = byte '\r' := by
      simp only [isSpace, decide_eq_true_eq]
      exact id
    rw [Bool.eq_false_iff]
    intro white
    rcases spaces white with same | same | same | same
    · exact other ' ' (by decide) same
    · exact other '\t' (by decide) same
    · exact other '\n' (by decide) same
    · exact other '\r' (by decide) same
  · have read := mapped.whole rest ends
    rw [starts, List.cons_append] at read ⊢
    rw [value_number begins]
    exact read
  · have starved := mapped.cut n short
    rw [starts] at starved ⊢
    cases n with
    | zero =>
        rw [List.take_zero, value_fresh]
        trivial
    | succ n =>
        rw [List.take_succ_cons] at starved ⊢
        rw [value_number begins]
        exact starved

theorem number_begins (n : Nat) :
    ∃ b tail, utf8 (number n) = b :: tail ∧ isDigit b = true := by
  have all := toDigits_all n
  cases digits : Nat.toDigits 10 n with
  | nil => exact absurd digits Nat.toDigits_ne_nil
  | cons d rest =>
      rw [digits] at all
      refine ⟨byte d, rest.map byte, ?_, byte_digit (all d List.mem_cons_self)⟩
      rw [number_digits, digits, utf8_digits all]
      rfl

theorem writes_number (n : Nat) : Writes depth (number n) (.number (utf8 (number n))) := by
  obtain ⟨b, tail, starts, digit⟩ := number_begins n
  exact writes_numeral (Or.inr digit) starts (upTo_natural (Or.inl rfl) n)

theorem integer_negative (m : Nat) : integer (Int.negSucc m) = '-' :: number (m + 1) := by
  show ("-" ++ Nat.repr (m + 1)).toList = _
  rw [String.toList_append]
  rfl

theorem writes_integer (value : Int) :
    Writes depth (integer value) (.number (utf8 (integer value))) := by
  cases value with
  | ofNat n => exact writes_number n
  | negSucc m =>
      have text : utf8 (integer (Int.negSucc m)) = byte '-' :: utf8 (number (m + 1)) := by
        rw [integer_negative, utf8_cons_ascii (by decide)]
      refine writes_numeral (Or.inl rfl) text ?_
      have digits := upTo_map (upTo_natural (Or.inr rfl) (m + 1)) (byte '-' :: ·)
      rw [text]
      refine ⟨fun rest ends => digits.whole rest ends, fun n short => ?_⟩
      cases n with
      | zero => trivial
      | succ n => exact digits.cut n (by simpa using short)

theorem utf8_joined {close : Char} (ascii : close.toNat < 128) (texts : List (List Char)) :
    utf8 (List.intercalate [','] texts ++ [close]) = joined close (texts.map utf8) := by
  induction texts with
  | nil =>
      show utf8 [close] = [byte close]
      rw [utf8_cons_ascii ascii, utf8_nil]
  | cons first more ih =>
      cases more with
      | nil =>
          rw [utf8_append]
          show utf8 (List.intercalate [','] [first]) ++ utf8 [close] = utf8 first ++ [byte close]
          rw [utf8_cons_ascii ascii]
          simp [List.intercalate]
      | cons second more =>
          rw [List.intercalate_cons_cons, List.append_assoc, List.append_assoc, utf8_append,
            utf8_append, ih]
          rfl

theorem writes_array (items : List (List Char × Value))
    (each : ∀ item ∈ items, Writes depth item.1 item.2) :
    Writes (depth + 1) (array (items.map Prod.fst)) (.array (items.map Prod.snd)) := by
  have text : utf8 (array (items.map Prod.fst)) =
      byte '[' :: joined ']' ((items.map fun item => (utf8 item.1, item.2)).map Prod.fst) := by
    rw [array, utf8_cons_ascii (by decide), utf8_joined (by decide), List.map_map, List.map_map]
    rfl
  have inside : Items (value depth) (items.map fun item => (utf8 item.1, item.2)) := by
    intro written member
    obtain ⟨item, known, rfl⟩ := List.mem_map.mp member
    exact ⟨(each item known).solid, (each item known).reads⟩
  have values : (items.map fun item => (utf8 item.1, item.2)).map Prod.snd = items.map Prod.snd := by
    rw [List.map_map]
    rfl
  have leads (rest : List UInt8) : value (depth + 1) (byte '[' :: rest) =
      (bracketed (value depth) ']' rest).map .array := rfl
  have reads := parses_lead (value (depth + 1)) rfl leads
    (parses_bracketed (Or.inl rfl) _ inside)
  rw [values] at reads
  refine ⟨?_, ?_⟩
  · rw [text]
    exact ⟨_, _, rfl, by decide, by decide, by decide⟩
  · rw [text]
    exact reads.upTo

theorem utf8_field {name : String} (plain : Plain name) (text : List Char) :
    utf8 (field name text) = utf8 (string name) ++ byte ':' :: utf8 text := by
  have spelled : field name text = string name ++ ':' :: text := by
    rw [field, string, plain_escape plain]
    simp
  rw [spelled, utf8_append, utf8_cons_ascii (by decide)]

/-- A field of an object: its name, its text, and the value of that. -/
structure Entry where
  name : String
  text : List Char
  value : Value

def Entry.member (entry : Entry) : Member Value := ⟨entry.name, utf8 entry.text, entry.value⟩

def Entry.field (entry : Entry) : List Char := JsonText.field entry.name entry.text

theorem upTo_pair {entry : Entry} (plain : Plain entry.name)
    (writes : Writes depth entry.text entry.value) :
    ParsesUpTo (pair (value depth)) (utf8 entry.field) entry.member := by
  have colon : Solid (byte ':' :: utf8 entry.text) :=
    ⟨_, _, rfl, by decide, by decide, by decide⟩
  have body := upTo_map (upTo_kept writes.reads) fun read : List UInt8 × Value =>
    (⟨entry.name, read.1, read.2⟩ : Member Value)
  rw [Entry.field, utf8_field plain]
  refine upTo_bind (parses_quoted entry.name) (upTo_space colon ?_)
  exact upTo_bind (parses_expect ':') (upTo_space writes.solid body)

theorem parses_object (entries : List Entry) (plain : ∀ entry ∈ entries, Plain entry.name)
    (each : ∀ entry ∈ entries, Writes depth entry.text entry.value) :
    Parses (value (depth + 1)) (utf8 (object (entries.map Entry.field)))
      (.object (entries.map Entry.member)) := by
  have text : utf8 (object (entries.map Entry.field)) = byte '\x7b' ::
      joined '\x7d' ((entries.map fun entry => (utf8 entry.field, entry.member)).map Prod.fst) := by
    rw [object, utf8_cons_ascii (by decide), utf8_joined (by decide), List.map_map, List.map_map]
    rfl
  have values : (entries.map fun entry => (utf8 entry.field, entry.member)).map Prod.snd =
      entries.map Entry.member := by
    rw [List.map_map]
    rfl
  have inside : Items (pair (value depth))
      (entries.map fun entry => (utf8 entry.field, entry.member)) := by
    intro written member
    obtain ⟨entry, known, rfl⟩ := List.mem_map.mp member
    refine ⟨?_, upTo_pair (plain entry known) (each entry known)⟩
    rw [Entry.field, utf8_field (plain entry known), utf8_string]
    exact ⟨_, _, rfl, by decide, by decide, by decide⟩
  have leads (rest : List UInt8) : value (depth + 1) (byte '\x7b' :: rest) =
      (bracketed (pair (value depth)) '\x7d' rest).map .object := rfl
  have reads := parses_lead (value (depth + 1)) rfl leads
    (parses_bracketed (Or.inr rfl) _ inside)
  rw [values] at reads
  rw [text]
  exact reads

theorem object_solid (fields : List (List Char)) : Solid (utf8 (object fields)) := by
  rw [object, utf8_cons_ascii (by decide)]
  exact ⟨_, _, rfl, by decide, by decide, by decide⟩

theorem writes_object (entries : List Entry) (plain : ∀ entry ∈ entries, Plain entry.name)
    (each : ∀ entry ∈ entries, Writes depth entry.text entry.value) :
    Writes (depth + 1) (object (entries.map Entry.field)) (.object (entries.map Entry.member)) :=
  ⟨object_solid _, (parses_object entries plain each).upTo⟩

end Written

end Json
