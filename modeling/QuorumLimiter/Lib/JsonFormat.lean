import QuorumLimiter.Lib.JsonDecode

/-!
Formats of typed values. A form says how the values of a type are written and how they
are stored back; the form of a record is put together from the forms of its fields. A
record that was written is read as that record, whatever its fields are.
-/

namespace Json

open JsonText

variable {α β : Type} {valid : α → Prop} {admits : β → Prop}

/-- How values are written, and stored back into a place that holds `zero`. A decoder may
be strict about unknown fields. `levels` is how many brackets a value opens. Values that
are not `valid` may be written as something else. -/
structure Form (β : Type) (valid : β → Prop) where
  zero : β
  text : β → List Char
  value : β → Value
  decode : Bool → Decoder β
  levels : Nat
  writes : ∀ b, valid b → ∀ depth, levels ≤ depth → Writes depth (text b) (value b)
  decodes : ∀ b, valid b → ∀ strict, decode strict (value b) zero = some b

namespace Form

def string : Form String fun _ => True where
  zero := ""
  text := JsonText.string
  value := .string
  decode _ := asString
  levels := 0
  writes text _ _ _ := writes_string text
  decodes _ _ _ := rfl

def bool : Form Bool fun _ => True where
  zero := false
  text := boolean
  value := .bool
  decode _ := asBool
  levels := 0
  writes b _ _ _ := writes_boolean b
  decodes _ _ _ := rfl

def int64 : Form Int64 fun _ => True where
  zero := 0
  text n := integer n.toInt
  value n := .number (utf8 (integer n.toInt))
  decode _ := asInt64
  levels := 0
  writes n _ _ _ := writes_integer n.toInt
  decodes n _ _ := asInt64_integer n 0

def uint64 : Form UInt64 fun _ => True where
  zero := 0
  text n := number n.toNat
  value n := .number (utf8 (number n.toNat))
  decode _ := asUInt64
  levels := 0
  writes n _ _ _ := writes_number n.toNat
  decodes n _ _ := asUInt64_number n 0

def uint32 : Form UInt32 fun _ => True where
  zero := 0
  text n := number n.toNat
  value n := .number (utf8 (number n.toNat))
  decode _ := asUInt32
  levels := 0
  writes n _ _ _ := writes_number n.toNat
  decodes n _ _ := asUInt32_number n 0

def natural (bits : Nat) : Form Nat (· < 2 ^ bits) where
  zero := 0
  text := number
  value n := .number (utf8 (number n))
  decode _ := asNat bits
  levels := 0
  writes n _ _ _ := writes_number n
  decodes _ small _ := asNat_number small 0

def bytes : Form (List UInt8) fun _ => True where
  zero := []
  text bytes := '"' :: (base64 bytes ++ ['"'])
  value bytes := .string (String.ofList (base64 bytes))
  decode _ := asBytes
  levels := 0
  writes bytes _ _ _ := writes_base64 bytes
  decodes bytes _ _ := asBytes_base64 bytes []

def named (zero : β) (name : β → String) (find : String → Option β) :
    Form β fun b => find (name b) = some b where
  zero := zero
  text b := JsonText.string (name b)
  value b := .string (name b)
  decode _
    | .null, old => some old
    | .string text, _ => find text
    | _, _ => none
  levels := 0
  writes b _ _ _ := writes_string (name b)
  decodes _ found _ := found

section Lists

variable (form : Form β admits)

/-- No items are written as `null`. -/
def itemsText (items : List β) : List Char :=
  if items = [] then "null".toList else array (items.map form.text)

def itemsValue (items : List β) : Value :=
  if items = [] then .null else .array (items.map form.value)

theorem writes_items (items : List β) (each : ∀ item ∈ items, admits item) (depth : Nat)
    (deep : form.levels + 1 ≤ depth) : Writes depth (form.itemsText items) (form.itemsValue items) := by
  unfold itemsText itemsValue
  split
  · exact writes_null
  · obtain ⟨inner, rfl⟩ : ∃ inner, depth = inner + 1 := ⟨depth - 1, by omega⟩
    have writes : Writes (inner + 1) _ _ :=
      writes_array (items.map fun item => (form.text item, form.value item)) (by
        intro written member
        obtain ⟨item, known, rfl⟩ := List.mem_map.mp member
        exact form.writes item (each item known) inner (by omega))
    rw [List.map_map, List.map_map] at writes
    exact writes

def list : Form (List β) fun items => ∀ item ∈ items, admits item where
  zero := []
  text := form.itemsText
  value := form.itemsValue
  decode strict := asList (form.decode strict) form.zero
  levels := form.levels + 1
  writes := form.writes_items
  decodes items each strict := by
    unfold itemsValue
    split
    · rename_i none
      rw [none]
      rfl
    · exact asItems_written items fun item member => form.decodes item (each item member) strict

end Lists

end Form

section Columns

/-- A field of a record: when and as what it is written, how a member of its name is
stored, and what that makes of a record in which nothing was stored there before. -/
structure Column (α : Type) (valid : α → Prop) where
  name : String
  present : α → Bool
  text : α → List Char
  value : α → Value
  store : Bool → Member Value → α → Option α
  fresh : α → Prop
  copy : α → α → α
  levels : Nat
  writes : ∀ a, valid a → ∀ depth, levels ≤ depth → Writes depth (text a) (value a)
  stores : ∀ a, valid a → ∀ strict old, fresh old →
    store strict ⟨name, utf8 (text a), value a⟩ old = some (copy a old)

namespace Column

def typed (name : String) (form : Form β admits) (get : α → β) (set : β → α → α)
    (admitted : ∀ a, valid a → admits (get a)) : Column α valid where
  name := name
  present _ := true
  text a := form.text (get a)
  value a := form.value (get a)
  store strict member old := (form.decode strict member.value (get old)).map (set · old)
  fresh old := get old = form.zero
  copy a old := set (get a) old
  levels := form.levels
  writes a holds := form.writes (get a) (admitted a holds)
  stores a holds strict old empty := by rw [empty, form.decodes _ (admitted a holds)]; rfl

def of (name : String) (form : Form β fun _ => True) (get : α → β) (set : β → α → α) :
    Column α valid :=
  typed name form get set fun _ _ => trivial

def onlyIf (column : Column α valid) (present : α → Bool) : Column α valid :=
  { column with present := present }

/-- The value that a text stands for. -/
def parsed (bytes : List UInt8) : Value :=
  match Json.value maxDepth bytes with
  | .done v _ => v
  | _ => .null

theorem parsed_written {text : List Char} {v : Value} (writes : Writes maxDepth text v) :
    parsed (utf8 text) = v := by
  have whole := writes.reads.whole [] boundary_nil
  rw [List.append_nil] at whole
  rw [parsed, whole]

/-- A field that holds the text of its value. -/
def raw (name : String) (get : α → List UInt8) (set : List UInt8 → α → α) (levels : Nat)
    (shallow : levels ≤ maxDepth)
    (admitted : ∀ a, valid a → ∃ text v, get a = utf8 text ∧
      ∀ depth, levels ≤ depth → Writes depth text v) : Column α valid where
  name := name
  present _ := true
  text a := runes (get a).length (get a)
  value a := parsed (get a)
  store _ member old := some (set member.text old)
  fresh _ := True
  copy a old := set (get a) old
  levels := levels
  writes a holds depth deep := by
    obtain ⟨text, v, same, writes⟩ := admitted a holds
    rw [same, runes_utf8 text (length_utf8 text), parsed_written (writes maxDepth shallow)]
    exact writes depth deep
  stores a holds strict old _ := by
    obtain ⟨text, v, same, _⟩ := admitted a holds
    rw [same, runes_utf8 text (length_utf8 text)]

def entry (column : Column α valid) (a : α) : Entry := ⟨column.name, column.text a, column.value a⟩

end Column

/-- Storing what was written for `a`, column by column, makes it out of `old`. -/
inductive Builds (a : α) : List (Column α valid) → α → Prop
  | nil : Builds a [] a
  | cons {column : Column α valid} {rest : List (Column α valid)} {old : α}
      (written : column.present a = true) (fresh : column.fresh old)
      (builds : Builds a rest (column.copy a old)) : Builds a (column :: rest) old
  | skip {column : Column α valid} {rest : List (Column α valid)} {old : α}
      (absent : column.present a = false) (builds : Builds a rest old) :
      Builds a (column :: rest) old

end Columns

/-- A record as its columns. -/
structure Format (α : Type) (valid : α → Prop) where
  zero : α
  columns : List (Column α valid)
  plain : ∀ column ∈ columns, Plain column.name
  distinct : (columns.map Column.name).Nodup
  shallow : (columns.map Column.levels).foldr max 0 < maxDepth
  builds : ∀ a, valid a → Builds a columns zero

namespace Format

variable (format : Format α valid) {a : α}

def entries (a : α) : List Entry := (format.columns.filter (·.present a)).map (·.entry a)

def json (a : α) : List Char := object ((format.entries a).map Entry.field)

def value (a : α) : Value := .object ((format.entries a).map Entry.member)

def fields (strict : Bool) : List (FieldOf α) :=
  format.columns.map fun column => ⟨column.name, column.store strict⟩

def levels : Nat := (format.columns.map Column.levels).foldr max 0

def decode (strict : Bool) : Decoder α := asRecord strict (format.fields strict)

/-- `json.Unmarshal` into an empty record. -/
def unmarshal (bytes : List UInt8) : Option α := Json.unmarshal (format.decode false) format.zero bytes

/-- A decoder that takes no unknown fields. -/
def read (bytes : List UInt8) : Read α := readValue (format.decode true) format.zero bytes

/-- A decoder that stops after the first value. -/
def first (bytes : List UInt8) : Option α :=
  match readValue (format.decode false) format.zero bytes with
  | .value decoded _ => decoded
  | _ => none

theorem storeMember_column {column : Column α valid} (listed : column ∈ format.columns)
    (strict : Bool) (old : α) :
    storeMember strict (format.fields strict) old (column.entry a).member =
      column.store strict (column.entry a).member old := by
  have distinct : ((format.fields strict).map FieldOf.name).Nodup := by
    rw [fields, List.map_map]
    exact format.distinct
  have known : (⟨column.name, column.store strict⟩ : FieldOf α) ∈ format.fields strict :=
    List.mem_map_of_mem listed
  rw [storeMember, show (column.entry a).member.key = column.name from rfl,
    lookup_name distinct known]

theorem foldlM_builds (holds : valid a) (strict : Bool) (columns : List (Column α valid))
    (listed : ∀ column ∈ columns, column ∈ format.columns) (old : α)
    (builds : Builds a columns old) :
    (((columns.filter (·.present a)).map (·.entry a)).map Entry.member).foldlM
      (storeMember strict (format.fields strict)) old = some a := by
  induction builds with
  | nil => rfl
  | @cons column rest old written fresh builds ih =>
      rw [List.filter_cons_of_pos (by exact written), List.map_cons, List.map_cons,
        List.foldlM_cons, format.storeMember_column (listed column List.mem_cons_self)]
      change (column.store strict ⟨column.name, utf8 (column.text a), column.value a⟩ old >>= _) = _
      rw [column.stores a holds strict old fresh]
      exact ih fun other member => listed other (List.mem_cons_of_mem _ member)
  | @skip column rest old absent builds ih =>
      rw [List.filter_cons_of_neg (by simp [absent])]
      exact ih fun other member => listed other (List.mem_cons_of_mem _ member)

theorem decode_value (holds : valid a) (strict : Bool) :
    format.decode strict (format.value a) format.zero = some a :=
  format.foldlM_builds holds strict format.columns (fun _ listed => listed) format.zero
    (format.builds a holds)

theorem levels_le {column : Column α valid} (listed : column ∈ format.columns) :
    column.levels ≤ format.levels := by
  unfold levels
  generalize format.columns = columns at listed
  induction columns with
  | nil => cases listed
  | cons first rest ih =>
      rw [List.map_cons, List.foldr_cons]
      rcases List.mem_cons.mp listed with rfl | later
      · exact Nat.le_max_left _ _
      · exact Nat.le_trans (ih later) (Nat.le_max_right _ _)

theorem entries_plain (a : α) : ∀ entry ∈ format.entries a, Plain entry.name := by
  intro entry member
  obtain ⟨column, known, rfl⟩ := List.mem_map.mp member
  exact format.plain column (List.mem_of_mem_filter known)

theorem entries_write (holds : valid a) {depth : Nat} (deep : format.levels ≤ depth) :
    ∀ entry ∈ format.entries a, Writes depth entry.text entry.value := by
  intro entry member
  obtain ⟨column, known, rfl⟩ := List.mem_map.mp member
  have listed := List.mem_of_mem_filter known
  exact column.writes a holds depth (Nat.le_trans (format.levels_le listed) deep)

theorem writes_json (holds : valid a) (depth : Nat) (deep : format.levels + 1 ≤ depth) :
    Writes depth (format.json a) (format.value a) := by
  obtain ⟨inner, rfl⟩ : ∃ inner, depth = inner + 1 := ⟨depth - 1, by omega⟩
  exact writes_object _ (format.entries_plain a) (format.entries_write holds (by omega))

def form : Form α valid where
  zero := format.zero
  text := format.json
  value := format.value
  decode := format.decode
  levels := format.levels + 1
  writes _ holds := format.writes_json holds
  decodes _ holds := format.decode_value holds

theorem parses_json (holds : valid a) :
    Parses (space >>= fun _ => Json.value maxDepth) (utf8 (format.json a)) (format.value a) := by
  have shallow : format.levels < maxDepth := format.shallow
  obtain ⟨inner, deep⟩ : ∃ inner, maxDepth = inner + 1 := ⟨maxDepth - 1, rfl⟩
  rw [deep]
  exact parses_space (object_solid _)
    (parses_object _ (format.entries_plain a) (format.entries_write holds (by omega)))

theorem unmarshal_json (holds : valid a) : format.unmarshal (utf8 (format.json a)) = some a := by
  have shallow : format.levels < maxDepth := format.shallow
  rw [unmarshal, unmarshal_written _ _ (format.writes_json holds maxDepth shallow) rfl]
  exact format.decode_value holds false

theorem reads_json (holds : valid a) : Reads format.read (utf8 (format.json a)) a := by
  refine ⟨fun n short => ?_, ?_⟩
  · rw [read, readValue, (format.parses_json holds).cut n short]
  · have whole := (format.parses_json holds).whole []
    rw [List.append_nil] at whole
    rw [read, readValue, whole]
    dsimp only
    rw [format.decode_value holds true]

theorem first_json (holds : valid a) (rest : List UInt8) :
    format.first (utf8 (format.json a) ++ rest) = some a := by
  rw [first, readValue, (format.parses_json holds).whole rest]
  exact format.decode_value holds false

end Format

end Json
