import Mathlib.Data.Finset.Card
import Mathlib.Data.List.Lex
import Mathlib.Data.List.Sort
import Mathlib.Data.List.Nodup
import Mathlib.Order.Monotone.Basic

/-!
An ordered key-value bucket: a list of pairs whose keys strictly increase. The
lookup function determines the bucket, so every operation is described by what
it does to lookups; cursors walk the pairs in key order.
-/

structure Bucket (κ ν : Type) [LinearOrder κ] where
  pairs : List (κ × ν)
  ordered : pairs.Pairwise (fun left right => left.1 < right.1)

namespace Bucket

variable {κ ν : Type} [LinearOrder κ]

def empty : Bucket κ ν := ⟨[], List.Pairwise.nil⟩

instance : Inhabited (Bucket κ ν) := ⟨empty⟩

instance [DecidableEq ν] : DecidableEq (Bucket κ ν) := fun left right =>
  decidable_of_iff (left.pairs = right.pairs) ⟨fun same => by cases left; cases right; simp_all,
    congrArg pairs⟩

def get (bucket : Bucket κ ν) (key : κ) : Option ν :=
  (bucket.pairs.find? fun pair => pair.1 = key).map Prod.snd

def insertPair (key : κ) (value : ν) : List (κ × ν) → List (κ × ν)
  | [] => [(key, value)]
  | pair :: rest =>
      if key < pair.1 then (key, value) :: pair :: rest
      else if key = pair.1 then (key, value) :: rest
      else pair :: insertPair key value rest

theorem insertPair_key (key : κ) (value : ν) (pairs : List (κ × ν)) (pair : κ × ν)
    (member : pair ∈ insertPair key value pairs) : pair.1 = key ∨ pair ∈ pairs := by
  induction pairs with
  | nil => simp_all [insertPair]
  | cons first rest ih =>
      simp only [insertPair] at member
      split at member
      · rcases List.mem_cons.mp member with rfl | old
        · exact Or.inl rfl
        · exact Or.inr old
      · split at member
        · rcases List.mem_cons.mp member with rfl | old
          · exact Or.inl rfl
          · exact Or.inr (List.mem_cons_of_mem _ old)
        · rcases List.mem_cons.mp member with rfl | old
          · exact Or.inr (by simp)
          · exact (ih old).imp id (List.mem_cons_of_mem _)

theorem insertPair_ordered (key : κ) (value : ν) (pairs : List (κ × ν))
    (ordered : pairs.Pairwise (fun left right => left.1 < right.1)) :
    (insertPair key value pairs).Pairwise (fun left right => left.1 < right.1) := by
  induction pairs with
  | nil => simp [insertPair]
  | cons first rest ih =>
      obtain ⟨above, tail⟩ := List.pairwise_cons.mp ordered
      simp only [insertPair]
      split
      · rename_i below
        refine List.pairwise_cons.mpr ⟨?_, ordered⟩
        intro pair member
        rcases List.mem_cons.mp member with rfl | old
        · exact below
        · exact lt_trans below (above pair old)
      · split
        · rename_i same
          refine List.pairwise_cons.mpr ⟨?_, tail⟩
          intro pair member
          rw [same]
          exact above pair member
        · rename_i notBelow different
          refine List.pairwise_cons.mpr ⟨?_, ih tail⟩
          intro pair member
          rcases insertPair_key key value rest pair member with same | old
          · rw [same]
            exact lt_of_le_of_ne (not_lt.mp notBelow) (Ne.symm different)
          · exact above pair old

def put (bucket : Bucket κ ν) (key : κ) (value : ν) : Bucket κ ν :=
  ⟨insertPair key value bucket.pairs, insertPair_ordered key value bucket.pairs bucket.ordered⟩

def filter (bucket : Bucket κ ν) (keep : κ → ν → Bool) : Bucket κ ν :=
  ⟨bucket.pairs.filter fun pair => keep pair.1 pair.2, bucket.ordered.filter _⟩

def delete (bucket : Bucket κ ν) (key : κ) : Bucket κ ν :=
  bucket.filter fun other _ => decide (other ≠ key)

/-- The pairs a cursor visits from the first key at or after `start`. -/
def seek (bucket : Bucket κ ν) (start : κ) : List (κ × ν) :=
  bucket.pairs.dropWhile fun pair => decide (pair.1 < start)

def firstKey (bucket : Bucket κ ν) : Option κ := bucket.pairs.head?.map Prod.fst

def lastKey (bucket : Bucket κ ν) : Option κ := bucket.pairs.getLast?.map Prod.fst

theorem get_eq_some_iff (bucket : Bucket κ ν) (key : κ) (value : ν) :
    bucket.get key = some value ↔ (key, value) ∈ bucket.pairs := by
  obtain ⟨pairs, ordered⟩ := bucket
  simp only [get]
  induction pairs with
  | nil => simp
  | cons first rest ih =>
      obtain ⟨above, tail⟩ := List.pairwise_cons.mp ordered
      by_cases same : first.1 = key
      · simp only [List.find?_cons, same, decide_true, Option.map_some, Option.some.injEq,
          List.mem_cons]
        constructor
        · rintro rfl
          exact Or.inl (by rw [← same])
        · rintro (head | later)
          · rw [← head]
          · exact absurd (above _ later) (by simp [same])
      · simp only [List.find?_cons, same, decide_false, List.mem_cons]
        rw [ih tail]
        constructor
        · exact Or.inr
        · rintro (head | later)
          · exact absurd (by rw [← head]) same
          · exact later

theorem pairs_nodup (bucket : Bucket κ ν) : bucket.pairs.Nodup :=
  bucket.ordered.imp fun below same => absurd (congrArg Prod.fst same) (ne_of_lt below)

@[simp] theorem get_empty (key : κ) : (empty : Bucket κ ν).get key = none := rfl

theorem mem_insertPair (key : κ) (value : ν) (pairs : List (κ × ν)) (pair : κ × ν)
    (ordered : pairs.Pairwise (fun left right => left.1 < right.1)) :
    pair ∈ insertPair key value pairs ↔ pair = (key, value) ∨ pair ∈ pairs ∧ pair.1 ≠ key := by
  induction pairs with
  | nil => simp [insertPair]
  | cons first rest ih =>
      obtain ⟨above, tail⟩ := List.pairwise_cons.mp ordered
      simp only [insertPair]
      split
      · rename_i below
        have apart : ∀ other ∈ first :: rest, other.1 ≠ key := by
          intro other member
          rcases List.mem_cons.mp member with rfl | old
          · exact ne_of_gt below
          · exact ne_of_gt (lt_trans below (above other old))
        rw [List.mem_cons]
        exact or_congr_right ⟨fun old => ⟨old, apart pair old⟩, fun old => old.1⟩
      · split
        · rename_i same
          have apart : ∀ other ∈ rest, other.1 ≠ key := by
            intro other member
            rw [same]
            exact ne_of_gt (above other member)
          simp only [List.mem_cons]
          constructor
          · rintro (new | old)
            · exact Or.inl new
            · exact Or.inr ⟨Or.inr old, apart pair old⟩
          · rintro (new | ⟨rfl | old, different⟩)
            · exact Or.inl new
            · exact absurd same.symm different
            · exact Or.inr old
        · rename_i different
          simp only [List.mem_cons, ih tail]
          constructor
          · rintro (rfl | new | ⟨old, apart⟩)
            · exact Or.inr ⟨Or.inl rfl, Ne.symm different⟩
            · exact Or.inl new
            · exact Or.inr ⟨Or.inr old, apart⟩
          · rintro (new | ⟨rfl | old, apart⟩)
            · exact Or.inr (Or.inl new)
            · exact Or.inl rfl
            · exact Or.inr (Or.inr ⟨old, apart⟩)

theorem get_put (bucket : Bucket κ ν) (key other : κ) (value : ν) :
    (bucket.put key value).get other = if other = key then some value else bucket.get other := by
  ext found
  rw [get_eq_some_iff, put, mem_insertPair key value bucket.pairs _ bucket.ordered]
  split
  · rename_i same
    simp [same, eq_comm]
  · rename_i different
    simp [different, get_eq_some_iff]

@[simp] theorem get_put_self (bucket : Bucket κ ν) (key : κ) (value : ν) :
    (bucket.put key value).get key = some value := by
  simp [get_put]

theorem get_put_isSome {bucket : Bucket κ ν} {other : κ} (key : κ) (value : ν)
    (present : (bucket.get other).isSome) : ((bucket.put key value).get other).isSome := by
  rw [get_put]
  split
  · rfl
  · exact present

/-- Two buckets hold the same outside some keys. -/
def AgreeOff (keys : κ → Prop) (before after : Bucket κ ν) : Prop :=
  ∀ key, ¬keys key → after.get key = before.get key

theorem agreeOff_refl (keys : κ → Prop) (bucket : Bucket κ ν) : AgreeOff keys bucket bucket :=
  fun _ _ => rfl

theorem agreeOff_put {keys : κ → Prop} {key : κ} (bucket : Bucket κ ν) (value : ν)
    (named : keys key) : AgreeOff keys bucket (bucket.put key value) := by
  intro other outside
  rw [get_put, if_neg]
  rintro rfl
  exact outside named

theorem get_filter (bucket : Bucket κ ν) (keep : κ → ν → Bool) (key : κ) :
    (bucket.filter keep).get key = (bucket.get key).filter (keep key) := by
  ext found
  rw [get_eq_some_iff, filter, List.mem_filter, Option.filter_eq_some_iff, get_eq_some_iff]

@[simp] theorem get_delete (bucket : Bucket κ ν) (key other : κ) :
    (bucket.delete key).get other = if other = key then none else bucket.get other := by
  rw [delete, get_filter]
  split
  · rename_i same
    cases bucket.get other <;> simp [same]
  · rename_i different
    cases bucket.get other <;> simp [different]

section Keys

def keys (bucket : Bucket κ ν) : Finset κ := (bucket.pairs.map Prod.fst).toFinset

theorem card_keys (bucket : Bucket κ ν) : bucket.keys.card = bucket.pairs.length := by
  have distinct : (bucket.pairs.map Prod.fst).Nodup :=
    List.pairwise_map.mpr (bucket.ordered.imp fun below => ne_of_lt below)
  rw [keys, List.toFinset_card_of_nodup distinct, List.length_map]

theorem mem_keys (bucket : Bucket κ ν) (key : κ) :
    key ∈ bucket.keys ↔ (bucket.get key).isSome := by
  rw [keys, List.mem_toFinset, List.mem_map, Option.isSome_iff_exists]
  constructor
  · rintro ⟨⟨_, value⟩, member, rfl⟩
    exact ⟨value, (bucket.get_eq_some_iff _ value).mpr member⟩
  · rintro ⟨value, found⟩
    exact ⟨(key, value), (bucket.get_eq_some_iff key value).mp found, rfl⟩

theorem keys_put (bucket : Bucket κ ν) (key : κ) (value : ν) :
    (bucket.put key value).keys = insert key bucket.keys := by
  ext other
  rw [mem_keys, get_put, Finset.mem_insert, mem_keys]
  by_cases same : other = key <;> simp [same]

theorem keys_delete (bucket : Bucket κ ν) (key : κ) :
    (bucket.delete key).keys = bucket.keys.erase key := by
  ext other
  rw [mem_keys, get_delete, Finset.mem_erase, mem_keys]
  by_cases same : other = key <;> simp [same]

end Keys

theorem ext_get (left right : Bucket κ ν) (same : ∀ key, left.get key = right.get key) :
    left = right := by
  have members : ∀ pair, pair ∈ left.pairs ↔ pair ∈ right.pairs := by
    rintro ⟨key, value⟩
    rw [← get_eq_some_iff, ← get_eq_some_iff, same]
  have distinct : ∀ bucket : Bucket κ ν, bucket.pairs.Nodup := by
    intro bucket
    refine bucket.ordered.imp ?_
    rintro first second below rfl
    exact lt_irrefl _ below
  have permuted : left.pairs.Perm right.pairs :=
    (List.perm_ext_iff_of_nodup (distinct left) (distinct right)).mpr members
  have pairs : left.pairs = right.pairs := by
    refine permuted.eq_of_pairwise ?_ left.ordered right.ordered
    intro first second _ _ below above
    exact absurd (lt_trans below above) (lt_irrefl _)
  cases left
  cases right
  simp_all

theorem mem_seek (bucket : Bucket κ ν) (start : κ) (pair : κ × ν) :
    pair ∈ bucket.seek start ↔ pair ∈ bucket.pairs ∧ start ≤ pair.1 := by
  obtain ⟨pairs, ordered⟩ := bucket
  simp only [seek]
  induction pairs with
  | nil => simp
  | cons first rest ih =>
      obtain ⟨above, tail⟩ := List.pairwise_cons.mp ordered
      by_cases below : first.1 < start
      · rw [List.dropWhile_cons_of_pos (by simpa using below), ih tail, List.mem_cons]
        constructor
        · exact fun found => ⟨Or.inr found.1, found.2⟩
        · rintro ⟨rfl | later, reach⟩
          · exact absurd below (not_lt.mpr reach)
          · exact ⟨later, reach⟩
      · rw [List.dropWhile_cons_of_neg (by simpa using below)]
        refine ⟨fun found => ⟨found, ?_⟩, fun found => found.1⟩
        rcases List.mem_cons.mp found with rfl | later
        · exact not_lt.mp below
        · exact le_trans (not_lt.mp below) (le_of_lt (above pair later))

theorem get_foldl_delete (keys : List κ) (bucket : Bucket κ ν) (key : κ) :
    (keys.foldl delete bucket).get key = if key ∈ keys then none else bucket.get key := by
  induction keys generalizing bucket with
  | nil => simp
  | cons first rest ih =>
      rw [List.foldl_cons, ih, get_delete]
      by_cases later : key ∈ rest
      · simp [later]
      · by_cases same : key = first <;> simp [later, same]

theorem pairs_foldl_delete (keys : List κ) (bucket : Bucket κ ν) :
    (keys.foldl delete bucket).pairs = bucket.pairs.filter fun pair => decide (pair.1 ∉ keys) := by
  induction keys generalizing bucket with
  | nil => simp
  | cons first rest ih =>
      rw [List.foldl_cons, ih, delete, filter, List.filter_filter]
      apply List.filter_congr
      intro pair member
      simp [not_or, Bool.and_comm]

theorem pairs_foldl_delete_take (bucket : Bucket κ ν) (count : Nat) :
    (((bucket.pairs.map Prod.fst).take count).foldl delete bucket).pairs = bucket.pairs.drop count := by
  -- The keys are distinct, so deleting the first ones leaves the rest.
  have apart := bucket.ordered
  have whole := List.take_append_drop count bucket.pairs
  rw [pairs_foldl_delete, ← List.map_take]
  generalize bucket.pairs.take count = first at whole ⊢
  generalize bucket.pairs.drop count = rest at whole ⊢
  rw [← whole] at apart ⊢
  rw [List.pairwise_append] at apart
  rw [List.filter_append, List.filter_eq_nil_iff.mpr, List.filter_eq_self.mpr, List.nil_append]
  · intro pair later
    simp only [decide_eq_true_eq, List.mem_map, not_exists, not_and]
    intro other earlier same
    exact absurd (apart.2.2 other earlier pair later) (same ▸ lt_irrefl _)
  · intro pair earlier
    simp only [decide_eq_true_eq, not_not]
    exact List.mem_map_of_mem earlier

theorem pairs_put_last (bucket : Bucket κ ν) (key : κ) (value : ν)
    (above : ∀ pair ∈ bucket.pairs, pair.1 < key) :
    (bucket.put key value).pairs = bucket.pairs ++ [(key, value)] := by
  obtain ⟨pairs, ordered⟩ := bucket
  simp only [put] at above ⊢
  clear ordered
  induction pairs with
  | nil => rfl
  | cons first rest ih =>
      have below := above first (by simp)
      rw [insertPair, if_neg (not_lt_of_gt below), if_neg (ne_of_gt below),
        ih fun pair member => above pair (by simp [member]), List.cons_append]

theorem foldl_delete_seek (bucket : Bucket κ ν) (start : κ) :
    ((bucket.seek start).map Prod.fst).foldl delete bucket =
      bucket.filter fun key _ => decide (key < start) := by
  apply ext_get
  intro key
  rw [get_foldl_delete, get_filter]
  cases found : bucket.get key with
  | none => simp
  | some value =>
      have stored := (get_eq_some_iff bucket key value).mp found
      by_cases below : key < start
      · have kept : key ∉ (bucket.seek start).map Prod.fst := by
          intro visited
          obtain ⟨pair, member, rfl⟩ := List.mem_map.mp visited
          exact absurd below (not_lt.mpr ((mem_seek bucket start pair).mp member).2)
        simp [kept, below, Option.filter]
      · have visited : key ∈ (bucket.seek start).map Prod.fst :=
          List.mem_map.mpr ⟨(key, value), (mem_seek bucket start _).mpr ⟨stored, not_lt.mp below⟩, rfl⟩
        simp [visited, below]

theorem lastKey_greatest (bucket : Bucket κ ν) (last : κ) (found : bucket.lastKey = some last) :
    (∃ value, bucket.get last = some value) ∧
      ∀ key value, bucket.get key = some value → key ≤ last := by
  obtain ⟨⟨_, value⟩, final, rfl⟩ := Option.map_eq_some_iff.mp found
  obtain ⟨early, split⟩ := List.getLast?_eq_some_iff.mp final
  refine ⟨⟨value, (get_eq_some_iff _ _ _).mpr (List.mem_of_getLast? final)⟩, ?_⟩
  intro key other present
  have ordered := bucket.ordered
  rw [get_eq_some_iff, split, List.mem_append] at present
  rw [split, List.pairwise_append] at ordered
  rcases present with before | same
  · exact le_of_lt (ordered.2.2 _ before _ (by simp))
  · rw [List.mem_singleton, Prod.mk.injEq] at same
    exact le_of_eq same.1

theorem lastKey_eq_some_iff (bucket : Bucket κ ν) (last : κ) :
    bucket.lastKey = some last ↔ (∃ value, bucket.get last = some value) ∧
      ∀ key value, bucket.get key = some value → key ≤ last := by
  refine ⟨lastKey_greatest bucket last, ?_⟩
  rintro ⟨⟨value, present⟩, greatest⟩
  have nonempty : bucket.pairs ≠ [] := List.ne_nil_of_mem ((get_eq_some_iff _ _ _).mp present)
  obtain ⟨key, found⟩ : ∃ key, bucket.lastKey = some key := by
    rw [← Option.isSome_iff_exists, lastKey, Option.isSome_map]
    exact List.getLast?_isSome.mpr nonempty
  obtain ⟨⟨_, stored⟩, above⟩ := lastKey_greatest bucket key found
  rw [found, le_antisymm (greatest key _ stored) (above last value present)]

theorem lastKey_put (bucket : Bucket κ ν) (last key : κ) (value : ν)
    (found : bucket.lastKey = some last) (above : last < key) :
    (bucket.put key value).lastKey = some key := by
  obtain ⟨_, greatest⟩ := lastKey_greatest bucket last found
  rw [lastKey_eq_some_iff]
  refine ⟨⟨value, get_put_self _ _ _⟩, ?_⟩
  intro other stored present
  rw [get_put] at present
  split at present
  · rename_i same
    exact le_of_eq same
  · exact le_of_lt (lt_of_le_of_lt (greatest other stored present) above)

section Scan

variable {α ν : Type} [LinearOrder α]

theorem not_lt_begins {start key : List α} (begins : start <+: key) : ¬key < start := by
  obtain ⟨tail, rfl⟩ := begins
  intro below
  induction start with
  | nil => exact List.not_lt_nil _ below
  | cons first rest ih =>
      rcases List.cons_lt_cons_iff.mp below with less | ⟨_, less⟩
      · exact lt_irrefl _ less
      · exact ih less

theorem begins_between {start middle key : List α} (begins : start <+: key)
    (above : ¬middle < start) (below : middle < key) : start <+: middle := by
  obtain ⟨tail, rfl⟩ := begins
  induction start generalizing middle with
  | nil => exact List.nil_prefix
  | cons first rest ih =>
      cases middle with
      | nil => exact absurd (List.nil_lt_cons first rest) above
      | cons other more =>
          rw [List.cons_lt_cons_iff, not_or, not_and] at above
          rw [List.cons_append, List.cons_lt_cons_iff] at below
          have same : other = first :=
            le_antisymm (below.elim le_of_lt fun found => le_of_eq found.1) (not_lt.mp above.1)
          subst same
          refine List.cons_prefix_cons.mpr ⟨rfl, ih (above.2 rfl) ?_⟩
          exact below.resolve_left (lt_irrefl _) |>.2

theorem takeWhile_begins (start : List α) [∀ key, Decidable (start <+: key)]
    (pairs : List (List α × ν))
    (ordered : pairs.Pairwise (fun left right => left.1 < right.1))
    (reached : ∀ pair ∈ pairs, ¬pair.1 < start) :
    (pairs.takeWhile fun pair => decide (start <+: pair.1)) =
      pairs.filter fun pair => decide (start <+: pair.1) := by
  induction pairs with
  | nil => rfl
  | cons first rest ih =>
      obtain ⟨above, tail⟩ := List.pairwise_cons.mp ordered
      by_cases begins : start <+: first.1
      · rw [List.takeWhile_cons_of_pos (by simpa using begins),
          List.filter_cons_of_pos (by simpa using begins),
          ih tail fun pair member => reached pair (by simp [member])]
      · have outside : ∀ pair ∈ rest, ¬decide (start <+: pair.1) = true := by
          intro pair member later
          exact begins (begins_between (of_decide_eq_true later) (reached first (by simp))
            (above pair member))
        rw [List.takeWhile_cons_of_neg (by simpa using begins),
          List.filter_cons_of_neg (by simpa using begins), List.filter_eq_nil_iff.mpr outside]

/-- A cursor from `start` that stops at the first key not beginning with it visits
every pair whose key does. -/
theorem seek_takeWhile (bucket : Bucket (List α) ν) (start : List α)
    [∀ key, Decidable (start <+: key)] :
    ((bucket.seek start).takeWhile fun pair => decide (start <+: pair.1)) =
      bucket.pairs.filter fun pair => decide (start <+: pair.1) := by
  obtain ⟨pairs, ordered⟩ := bucket
  simp only [seek]
  induction pairs with
  | nil => rfl
  | cons first rest ih =>
      obtain ⟨above, tail⟩ := List.pairwise_cons.mp ordered
      by_cases below : first.1 < start
      · have outside : ¬start <+: first.1 := fun begins => not_lt_begins begins below
        rw [List.dropWhile_cons_of_pos (by simpa using below), ih tail,
          List.filter_cons_of_neg (by simpa using outside)]
      · rw [List.dropWhile_cons_of_neg (by simpa using below)]
        apply takeWhile_begins start _ ordered
        intro pair member before
        rcases List.mem_cons.mp member with rfl | later
        · exact below before
        · exact below (lt_trans (above pair later) before)

end Scan

section Sequence

variable {ν : Type}

def numbered (items : List ν) (first : Nat) : List (Nat × ν) :=
  (items.zipIdx first).map Prod.swap

@[simp] theorem numbered_nil (first : Nat) : numbered ([] : List ν) first = [] := rfl

@[simp] theorem numbered_cons (item : ν) (rest : List ν) (first : Nat) :
    numbered (item :: rest) first = (first, item) :: numbered rest (first + 1) := rfl

theorem numbered_keys (items : List ν) (first : Nat) :
    (numbered items first).map Prod.fst = List.range' first items.length := by
  simp only [numbered, List.map_map]
  exact List.zipIdx_map_snd first items

@[simp] theorem numbered_values (items : List ν) (first : Nat) :
    (numbered items first).map Prod.snd = items := by
  simp only [numbered, List.map_map]
  exact List.zipIdx_map_fst first items

def ofList (items : List ν) : Bucket Nat ν where
  pairs := numbered items 0
  ordered := by
    have increasing : ((numbered items 0).map Prod.fst).Pairwise (· < ·) := by
      rw [numbered_keys]
      exact List.pairwise_lt_range'
    exact List.pairwise_map.mp increasing

@[simp] theorem get_ofList (items : List ν) (key : Nat) : (ofList items).get key = items[key]? := by
  ext value
  rw [get_eq_some_iff, ← List.mk_mem_zipIdx_iff_getElem?]
  simp only [ofList, numbered, List.mem_map, Prod.exists, Prod.swap_prod_mk, Prod.mk.injEq]
  constructor
  · rintro ⟨_, _, member, rfl, rfl⟩
    exact member
  · exact fun member => ⟨value, key, member, rfl, rfl⟩

theorem put_ofList (items : List ν) (value : ν) :
    (ofList items).put items.length value = ofList (items ++ [value]) := by
  apply ext_get
  intro key
  rw [get_put, get_ofList, get_ofList]
  split
  · rename_i last
    simp [last]
  · rename_i inside
    rcases Nat.lt_or_gt_of_ne inside with below | above
    · rw [List.getElem?_append_left below]
    · rw [List.getElem?_eq_none (by omega), List.getElem?_eq_none (by simp; omega)]

theorem filter_ofList (items : List ν) (from' : Nat) :
    ((ofList items).filter fun key _ => decide (key < from')) = ofList (items.take from') := by
  apply ext_get
  intro key
  rw [get_filter, get_ofList, get_ofList, List.getElem?_take]
  split
  · rename_i below
    cases items[key]? <;> simp [below]
  · rename_i outside
    cases items[key]? <;> simp [outside]

theorem dropWhile_numbered (items : List ν) (first start : Nat) :
    (numbered items first).dropWhile (fun pair => decide (pair.1 < start)) =
      numbered (items.drop (start - first)) (max first start) := by
  induction items generalizing first with
  | nil => simp
  | cons item rest ih =>
      by_cases below : first < start
      · obtain ⟨gap, eq⟩ : ∃ gap, start - first = gap + 1 := ⟨start - first - 1, by omega⟩
        rw [numbered_cons, List.dropWhile_cons_of_pos (by simpa using below), ih, eq,
          List.drop_succ_cons, show start - (first + 1) = gap by omega,
          show max (first + 1) start = max first start by omega]
      · rw [numbered_cons, List.dropWhile_cons_of_neg (by simpa using below),
          show start - first = 0 by omega, show max first start = first by omega]
        rfl

theorem takeWhile_numbered (items : List ν) (first last : Nat) :
    (numbered items first).takeWhile (fun pair => decide (pair.1 ≤ last)) =
      numbered (items.take (last + 1 - first)) first := by
  induction items generalizing first with
  | nil => simp
  | cons item rest ih =>
      by_cases inside : first ≤ last
      · obtain ⟨gap, eq⟩ : ∃ gap, last + 1 - first = gap + 1 := ⟨last - first, by omega⟩
        rw [numbered_cons, List.takeWhile_cons_of_pos (by simpa using inside), ih, eq,
          List.take_succ_cons, show last + 1 - (first + 1) = gap by omega, numbered_cons]
      · rw [numbered_cons, List.takeWhile_cons_of_neg (by simpa using inside),
          show last + 1 - first = 0 by omega]
        rfl

theorem lastKey_ofList (items : List ν) (item : ν) :
    (ofList (item :: items)).lastKey = some items.length := by
  rw [lastKey, ← List.getLast?_map, ofList, numbered_keys]
  simp [List.getLast?_range']

end Sequence

section Renamed

variable {κ κ' ν ν' : Type} [LinearOrder κ] [LinearOrder κ']

/-- `copy` holds the pairs of `bucket` with keys renamed and values translated. -/
structure Renames (rename : κ → κ') (translate : ν → ν') (inside : Set κ) (bucket : Bucket κ ν)
    (copy : Bucket κ' ν') : Prop where
  pairs : copy.pairs = bucket.pairs.map (Prod.map rename translate)
  keys : ∀ pair ∈ bucket.pairs, pair.1 ∈ inside

variable {rename : κ → κ'} {translate : ν → ν'} {inside : Set κ} {bucket : Bucket κ ν}
  {copy : Bucket κ' ν'}

theorem renames_empty : Renames rename translate inside empty empty := by
  refine ⟨rfl, ?_⟩
  rintro pair ⟨⟩

theorem renames_firstKey (renames : Renames rename translate inside bucket copy) :
    copy.firstKey = bucket.firstKey.map rename := by
  rw [firstKey, firstKey, renames.pairs, List.head?_map, Option.map_map, Option.map_map]
  rfl

theorem renames_lastKey (renames : Renames rename translate inside bucket copy) :
    copy.lastKey = bucket.lastKey.map rename := by
  rw [lastKey, lastKey, renames.pairs, List.getLast?_map, Option.map_map, Option.map_map]
  rfl

variable (increasing : StrictMonoOn rename inside)

include increasing

theorem renames_get (renames : Renames rename translate inside bucket copy) {key : κ}
    (known : key ∈ inside) : copy.get (rename key) = (bucket.get key).map translate := by
  ext value
  rw [get_eq_some_iff, renames.pairs, List.mem_map, Option.map_eq_some_iff]
  constructor
  · rintro ⟨pair, stored, same⟩
    obtain ⟨sameKey, rfl⟩ := Prod.mk.inj same
    have own := increasing.injOn (renames.keys pair stored) known sameKey
    exact ⟨pair.2, (get_eq_some_iff _ _ _).mpr (own ▸ stored), rfl⟩
  · rintro ⟨found, stored, rfl⟩
    exact ⟨(key, found), (get_eq_some_iff _ _ _).mp stored, rfl⟩

theorem insertPair_renamed {key : κ} (known : key ∈ inside) (value : ν) (pairs : List (κ × ν))
    (keys : ∀ pair ∈ pairs, pair.1 ∈ inside) :
    insertPair (rename key) (translate value) (pairs.map (Prod.map rename translate)) =
      (insertPair key value pairs).map (Prod.map rename translate) := by
  induction pairs with
  | nil => rfl
  | cons first rest ih =>
      have order := increasing.lt_iff_lt known (keys first (by simp))
      have equal := increasing.injOn.eq_iff known (keys first (by simp))
      rw [List.map_cons, insertPair, insertPair, Prod.map_fst,
        ih fun pair member => keys pair (by simp [member])]
      by_cases below : key < first.1
      · rw [if_pos (order.mpr below), if_pos below]
        rfl
      · rw [if_neg (mt order.mp below), if_neg below]
        by_cases same : key = first.1
        · rw [if_pos (equal.mpr same), if_pos same]
          rfl
        · rw [if_neg (mt equal.mp same), if_neg same]
          rfl

theorem renames_put (renames : Renames rename translate inside bucket copy) {key : κ}
    (known : key ∈ inside) (value : ν) :
    Renames rename translate inside (bucket.put key value)
      (copy.put (rename key) (translate value)) := by
  constructor
  · simp only [put, renames.pairs]
    exact insertPair_renamed increasing known value bucket.pairs renames.keys
  · intro pair member
    rcases insertPair_key key value bucket.pairs pair member with same | old
    · rw [same]
      exact known
    · exact renames.keys pair old

theorem renames_delete (renames : Renames rename translate inside bucket copy) {key : κ}
    (known : key ∈ inside) :
    Renames rename translate inside (bucket.delete key) (copy.delete (rename key)) := by
  constructor
  · simp only [delete, filter, renames.pairs, List.filter_map]
    congr 1
    apply List.filter_congr
    intro pair member
    simp [increasing.injOn.eq_iff (renames.keys pair member) known]
  · intro pair member
    exact renames.keys pair (List.mem_filter.mp member).1

theorem renames_foldl_delete (deleted : List κ) (bucket : Bucket κ ν) (copy : Bucket κ' ν')
    (renames : Renames rename translate inside bucket copy)
    (known : ∀ key ∈ deleted, key ∈ inside) :
    Renames rename translate inside (deleted.foldl delete bucket)
      ((deleted.map rename).foldl delete copy) := by
  induction deleted generalizing bucket copy with
  | nil => exact renames
  | cons key rest ih =>
      exact ih _ _ (renames_delete increasing renames (known key (by simp)))
        fun other member => known other (by simp [member])

theorem renames_seek (renames : Renames rename translate inside bucket copy) {start : κ}
    (known : start ∈ inside) :
    copy.seek (rename start) = (bucket.seek start).map (Prod.map rename translate) := by
  have keys := renames.keys
  rw [seek, seek, renames.pairs]
  generalize bucket.pairs = pairs at keys
  induction pairs with
  | nil => rfl
  | cons first rest ih =>
      have order := increasing.lt_iff_lt (keys first (by simp)) known
      by_cases below : first.1 < start
      · rw [List.map_cons, List.dropWhile_cons_of_pos (by simpa [order] using below),
          List.dropWhile_cons_of_pos (by simpa using below),
          ih fun pair member => keys pair (by simp [member])]
      · rw [List.map_cons, List.dropWhile_cons_of_neg (by simpa [order] using below),
          List.dropWhile_cons_of_neg (by simpa using below), List.map_cons]

end Renamed

end Bucket
