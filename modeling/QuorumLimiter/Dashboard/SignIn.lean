import Mathlib.Data.String.Basic
import QuorumLimiter.Lib.Bucket

/-!
The sign-in throttle of the dashboard. It keeps the times of failed sign-ins for each
address and drops those that have left the window whenever it looks at them. So that
the map cannot grow without bound, a failure that finds more than 10000 addresses in it
starts again from an empty map. Apart from these wipes an address is judged by its own
failures only.
-/

namespace QuorumLimiter.Dashboard

/-- `window` is a duration in nanoseconds; the times are in milliseconds. Both are plain
integers: no clock reading is so far out that subtracting the window wraps. -/
structure LoginThrottle where
  failures : Bucket String (List Int)
  max : Int
  window : Int

def newLoginThrottle (max window : Int) : LoginThrottle := ⟨Bucket.empty, max, window⟩

/-- `time.Duration.Milliseconds`. -/
def milliseconds (duration : Int) : Int := duration.tdiv 1000000

namespace LoginThrottle

def prune (t : LoginThrottle) (times : List Int) (now : Int) : List Int :=
  times.filter fun ts => decide (ts ≥ now - milliseconds t.window)

def timesOf (failures : Bucket String (List Int)) (ip : String) : List Int :=
  (failures.get ip).getD []

def fail (t : LoginThrottle) (ip : String) (now : Int) : LoginThrottle :=
  let failures := if t.failures.pairs.length > 10000 then Bucket.empty else t.failures
  { t with failures := failures.put ip (t.prune (timesOf failures ip) now ++ [now]) }

def blocked (t : LoginThrottle) (ip : String) (now : Int) : Bool × LoginThrottle :=
  let recent := t.prune (timesOf t.failures ip) now
  (decide ((recent.length : Int) ≥ t.max), { t with failures := t.failures.put ip recent })

def reset (t : LoginThrottle) (ip : String) : LoginThrottle :=
  { t with failures := t.failures.delete ip }

end LoginThrottle

/-- A call on the throttle, with the clock reading it takes. -/
inductive ThrottleCall
  | blocked (ip : String) (now : Int)
  | fail (ip : String) (now : Int)
  | reset (ip : String)
  deriving DecidableEq, Repr

namespace ThrottleCall

def ip : ThrottleCall → String
  | .blocked ip _ => ip
  | .fail ip _ => ip
  | .reset ip => ip

def reading : ThrottleCall → Option Int
  | .blocked _ now => some now
  | .fail _ now => some now
  | .reset _ => none

end ThrottleCall

def LoginThrottle.take (t : LoginThrottle) : ThrottleCall → LoginThrottle
  | .blocked ip now => (t.blocked ip now).2
  | .fail ip now => t.fail ip now
  | .reset ip => t.reset ip

def LoginThrottle.after (t : LoginThrottle) (calls : List ThrottleCall) : LoginThrottle :=
  calls.foldl LoginThrottle.take t

def LoginThrottle.wipes (t : LoginThrottle) : ThrottleCall → Bool
  | .fail _ _ => decide (t.failures.pairs.length > 10000)
  | _ => false

def Wipes (t : LoginThrottle) (calls : List ThrottleCall) (position : Nat) : Prop :=
  ∃ call, calls[position]? = some call ∧ (t.after (calls.take position)).wipes call = true

/-- The call at the position is a failure of the address from `cutoff` on, with no reset
of the address and no wipe after it. -/
structure Counts (t : LoginThrottle) (calls : List ThrottleCall) (ip : String) (cutoff : Int)
    (position : Nat) : Prop where
  failed : ∃ now, calls[position]? = some (.fail ip now) ∧ cutoff ≤ now
  kept : ∀ later, position < later → calls[later]? ≠ some (.reset ip) ∧ ¬ Wipes t calls later

open Classical in
noncomputable def counted (t : LoginThrottle) (calls : List ThrottleCall) (ip : String)
    (cutoff : Int) : Finset Nat :=
  (Finset.range calls.length).filter (Counts t calls ip cutoff)

section Steps

variable {t : LoginThrottle} {ip other : String} {now cutoff : Int}

open LoginThrottle

theorem after_window (t : LoginThrottle) (calls : List ThrottleCall) :
    (t.after calls).window = t.window ∧ (t.after calls).max = t.max := by
  induction calls generalizing t with
  | nil => exact ⟨rfl, rfl⟩
  | cons call rest ih =>
      obtain ⟨window, max⟩ := ih (t.take call)
      have same : (t.take call).window = t.window ∧ (t.take call).max = t.max := by
        cases call <;> exact ⟨rfl, rfl⟩
      exact ⟨window.trans same.1, max.trans same.2⟩

theorem timesOf_put (failures : Bucket String (List Int)) (times : List Int) :
    timesOf (failures.put other times) ip = if ip = other then times else timesOf failures ip := by
  rw [timesOf, Bucket.get_put]
  split <;> rfl

theorem timesOf_delete (failures : Bucket String (List Int)) :
    timesOf (failures.delete other) ip = if ip = other then [] else timesOf failures ip := by
  rw [timesOf, Bucket.get_delete]
  split <;> rfl

theorem filter_prune (times : List Int) (later : now - milliseconds t.window ≤ cutoff) :
    (t.prune times now).filter (fun ts => decide (cutoff ≤ ts)) =
      times.filter fun ts => decide (cutoff ≤ ts) := by
  rw [prune, List.filter_filter]
  apply List.filter_congr
  intro ts _
  by_cases kept : cutoff ≤ ts
  · simp [kept]
    omega
  · simp [kept]

/-- The call takes away what the throttle has on the address. -/
def LoginThrottle.clears (t : LoginThrottle) (ip : String) (call : ThrottleCall) : Bool :=
  decide (call = .reset ip) || t.wipes call

def ThrottleCall.failsFrom (ip : String) (cutoff : Int) : ThrottleCall → Bool
  | .fail other now => decide (other = ip ∧ cutoff ≤ now)
  | _ => false

def LoginThrottle.recent (t : LoginThrottle) (ip : String) (cutoff : Int) : List Int :=
  (timesOf t.failures ip).filter fun ts => decide (cutoff ≤ ts)

theorem recent_entered (failures : Bucket String (List Int))
    (late : now - milliseconds t.window ≤ cutoff) :
    ((timesOf (failures.put other (t.prune (timesOf failures other) now ++ [now])) ip).filter
      fun ts => decide (cutoff ≤ ts)).length =
      ((timesOf failures ip).filter fun ts => decide (cutoff ≤ ts)).length +
        if (ThrottleCall.fail other now).failsFrom ip cutoff then 1 else 0 := by
  rw [timesOf_put]
  by_cases own : ip = other
  · subst own
    rw [if_pos rfl, List.filter_append, filter_prune _ late, List.length_append]
    by_cases counts : cutoff ≤ now <;> simp [ThrottleCall.failsFrom, counts]
  · simp [ThrottleCall.failsFrom, own, Ne.symm own]

theorem recent_take (call : ThrottleCall)
    (late : ∀ now, call.reading = some now → now - milliseconds t.window ≤ cutoff) :
    ((t.take call).recent ip cutoff).length =
      (if t.clears ip call then 0 else (t.recent ip cutoff).length) +
        if call.failsFrom ip cutoff then 1 else 0 := by
  cases call with
  | blocked other now =>
      have same : (t.blocked other now).2.recent ip cutoff = t.recent ip cutoff := by
        rw [blocked, recent, timesOf_put]
        by_cases own : ip = other
        · rw [if_pos own, own, filter_prune _ (late now rfl)]
          rfl
        · rw [if_neg own]
          rfl
      rw [LoginThrottle.take, same]
      rfl
  | reset other =>
      rw [LoginThrottle.take, reset, recent, timesOf_delete]
      by_cases own : ip = other
      · simp [clears, ThrottleCall.failsFrom, own]
      · simp [clears, wipes, ThrottleCall.failsFrom, own, Ne.symm own, recent]
  | fail other now =>
      rw [LoginThrottle.take, fail, recent, recent_entered _ (late now rfl)]
      by_cases many : t.failures.pairs.length > 10000
      · have wiped : t.clears ip (.fail other now) = true := by simpa [clears, wipes] using many
        rw [if_pos many, if_pos wiped]
        rfl
      · have kept : ¬ t.clears ip (.fail other now) = true := by simpa [clears, wipes] using many
        rw [if_neg many, if_neg kept]
        rfl

end Steps

section Histories

variable {t : LoginThrottle} {calls : List ThrottleCall} {call : ThrottleCall} {ip : String}
  {cutoff : Int}

open LoginThrottle

theorem after_snoc : t.after (calls ++ [call]) = (t.after calls).take call := by
  rw [LoginThrottle.after, List.foldl_append]
  rfl

theorem wipes_snoc {position : Nat} (below : position < calls.length) :
    Wipes t (calls ++ [call]) position ↔ Wipes t calls position := by
  rw [Wipes, Wipes, List.getElem?_append_left below,
    List.take_append_of_le_length (Nat.le_of_lt below)]

theorem clears_last :
    (t.after calls).clears ip call = true ↔
      (calls ++ [call])[calls.length]? = some (.reset ip) ∨
        Wipes t (calls ++ [call]) calls.length := by
  rw [Wipes, List.getElem?_concat_length, List.take_left]
  simp [clears]

theorem mem_counted (position : Nat) :
    position ∈ counted t calls ip cutoff ↔ Counts t calls ip cutoff position := by
  classical
  rw [counted, Finset.mem_filter, Finset.mem_range]
  constructor
  · exact And.right
  · intro counts
    obtain ⟨now, found, _⟩ := counts.failed
    exact ⟨(List.getElem?_eq_some_iff.mp found).1, counts⟩

theorem failsFrom_last :
    (∃ now, (calls ++ [call])[calls.length]? = some (.fail ip now) ∧ cutoff ≤ now) ↔
      call.failsFrom ip cutoff = true := by
  rw [List.getElem?_concat_length]
  cases call <;> simp [ThrottleCall.failsFrom]

theorem beyond_last {later : Nat} (above : calls.length < later) :
    (calls ++ [call])[later]? = none := by
  rw [List.getElem?_eq_none_iff, List.length_append, List.length_singleton]
  omega

theorem counts_snoc (position : Nat) :
    Counts t (calls ++ [call]) ip cutoff position ↔
      Counts t calls ip cutoff position ∧ (t.after calls).clears ip call = false ∨
        position = calls.length ∧ call.failsFrom ip cutoff = true := by
  constructor
  · rintro ⟨failed, kept⟩
    rcases Nat.lt_trichotomy position calls.length with below | rfl | above
    · refine Or.inl ⟨⟨?_, ?_⟩, ?_⟩
      · rwa [List.getElem?_append_left below] at failed
      · intro later after
        obtain ⟨still, unwiped⟩ := kept later after
        by_cases inside : later < calls.length
        · rw [List.getElem?_append_left inside] at still
          exact ⟨still, fun wipes => unwiped ((wipes_snoc inside).mpr wipes)⟩
        · have none : calls[later]? = none := List.getElem?_eq_none_iff.mpr (by omega)
          refine ⟨by simp [none], ?_⟩
          rintro ⟨_, found, _⟩
          simp [none] at found
      · rw [← Bool.not_eq_true, clears_last, not_or]
        exact kept calls.length below
    · exact Or.inr ⟨rfl, failsFrom_last.mp failed⟩
    · obtain ⟨now, found, _⟩ := failed
      simp [beyond_last above] at found
  · rintro (⟨⟨failed, kept⟩, leaves⟩ | ⟨rfl, fails⟩)
    · obtain ⟨now, found, _⟩ := id failed
      have below := (List.getElem?_eq_some_iff.mp found).1
      rw [← Bool.not_eq_true, clears_last, not_or] at leaves
      refine ⟨by rwa [List.getElem?_append_left below], ?_⟩
      intro later after
      rcases Nat.lt_trichotomy later calls.length with inside | rfl | above
      · rw [List.getElem?_append_left inside, wipes_snoc inside]
        exact kept later after
      · exact leaves
      · rw [Wipes, beyond_last above]
        simp
    · refine ⟨failsFrom_last.mpr fails, ?_⟩
      intro later above
      rw [Wipes, beyond_last above]
      simp

theorem card_counted_snoc :
    (counted t (calls ++ [call]) ip cutoff).card =
      (if (t.after calls).clears ip call then 0 else (counted t calls ip cutoff).card) +
        if call.failsFrom ip cutoff then 1 else 0 := by
  have outside : calls.length ∉ counted t calls ip cutoff := by
    rw [mem_counted]
    rintro ⟨⟨now, found, _⟩, _⟩
    simp at found
  have split : counted t (calls ++ [call]) ip cutoff =
      (if (t.after calls).clears ip call then ∅ else counted t calls ip cutoff) ∪
        if call.failsFrom ip cutoff then {calls.length} else ∅ := by
    ext position
    rw [mem_counted, counts_snoc, Finset.mem_union]
    cases (t.after calls).clears ip call <;> cases call.failsFrom ip cutoff <;>
      simp [mem_counted]
  have apart : Disjoint (if (t.after calls).clears ip call then ∅ else counted t calls ip cutoff)
      (if call.failsFrom ip cutoff then {calls.length} else ∅) := by
    cases (t.after calls).clears ip call <;> cases call.failsFrom ip cutoff <;> simp [outside]
  rw [split, Finset.card_union_of_disjoint apart]
  cases (t.after calls).clears ip call <;> cases call.failsFrom ip cutoff <;> simp

theorem recent_counted (calls : List ThrottleCall) (fresh : t.failures = Bucket.empty)
    (late : ∀ now ∈ calls.filterMap ThrottleCall.reading, now - milliseconds t.window ≤ cutoff) :
    ((t.after calls).recent ip cutoff).length = (counted t calls ip cutoff).card := by
  induction calls using List.reverseRecOn with
  | nil =>
      simp [LoginThrottle.after, recent, timesOf, fresh, counted]
  | append_singleton calls call ih =>
      rw [List.filterMap_append] at late
      have earlier := ih fun now member => late now (List.mem_append_left _ member)
      rw [after_snoc, card_counted_snoc, ← earlier]
      apply recent_take
      intro now read
      rw [(after_window t calls).1]
      exact late now (List.mem_append_right _ (by simp [read]))

theorem keys_take (t : LoginThrottle) (call : ThrottleCall) :
    (t.take call).failures.keys ⊆ insert call.ip t.failures.keys := by
  cases call with
  | blocked ip now =>
      rw [LoginThrottle.take, blocked, Bucket.keys_put]
      exact Finset.Subset.refl _
  | reset ip =>
      rw [LoginThrottle.take, reset, Bucket.keys_delete]
      exact (Finset.erase_subset _ _).trans (Finset.subset_insert _ _)
  | fail ip now =>
      rw [LoginThrottle.take, fail, Bucket.keys_put]
      apply Finset.insert_subset_insert
      split
      · exact Finset.empty_subset _
      · exact Finset.Subset.refl _

theorem keys_after (fresh : t.failures = Bucket.empty) (calls : List ThrottleCall) :
    (t.after calls).failures.keys ⊆ (calls.map ThrottleCall.ip).toFinset := by
  induction calls using List.reverseRecOn with
  | nil =>
      rw [LoginThrottle.after, List.foldl_nil, fresh]
      exact Finset.empty_subset _
  | append_singleton calls call ih =>
      rw [after_snoc]
      apply (keys_take _ call).trans
      rw [List.map_append, List.toFinset_append]
      intro address member
      rcases Finset.mem_insert.mp member with rfl | earlier
      · simp
      · exact Finset.mem_union_left _ (ih earlier)

theorem wipes_few (fresh : t.failures = Bucket.empty) (call : ThrottleCall)
    (few : (calls.map ThrottleCall.ip).toFinset.card ≤ 10000) :
    (t.after calls).wipes call = false := by
  have within := Finset.card_le_card (keys_after fresh calls)
  rw [Bucket.card_keys] at within
  cases call with
  | fail =>
      apply decide_eq_false
      omega
  | _ => rfl

theorem timesOf_take_other (other : ip ≠ call.ip) (unwiped : t.wipes call = false) :
    timesOf (t.take call).failures ip = timesOf t.failures ip := by
  cases call with
  | blocked address now =>
      change ip ≠ address at other
      rw [LoginThrottle.take, blocked, timesOf_put, if_neg other]
  | reset address =>
      change ip ≠ address at other
      rw [LoginThrottle.take, reset, timesOf_delete, if_neg other]
  | fail address now =>
      change ip ≠ address at other
      rw [LoginThrottle.take, fail, timesOf_put, if_neg other, if_neg (of_decide_eq_false unwiped)]

theorem timesOf_take_own {u : LoginThrottle} (own : call.ip = ip) (window : t.window = u.window)
    (same : timesOf t.failures ip = timesOf u.failures ip) (unwiped : t.wipes call = false)
    (kept : u.wipes call = false) :
    timesOf (t.take call).failures ip = timesOf (u.take call).failures ip := by
  have prunes : ∀ times now, t.prune times now = u.prune times now := by
    intro times now
    rw [prune, prune, window]
  cases call with
  | blocked address now =>
      change address = ip at own
      rw [LoginThrottle.take, LoginThrottle.take, blocked, blocked, timesOf_put, timesOf_put, own,
        same, prunes]
  | reset address =>
      change address = ip at own
      rw [LoginThrottle.take, LoginThrottle.take, reset, reset, timesOf_delete, timesOf_delete,
        if_pos own.symm, if_pos own.symm]
  | fail address now =>
      change address = ip at own
      rw [LoginThrottle.take, LoginThrottle.take, fail, fail, if_neg (of_decide_eq_false unwiped),
        if_neg (of_decide_eq_false kept), timesOf_put, timesOf_put, own, same, prunes]

theorem timesOf_filtered (fresh : t.failures = Bucket.empty)
    (unwiped : ∀ position, ¬ Wipes t calls position) :
    timesOf (t.after calls).failures ip =
      timesOf (t.after (calls.filter fun call => decide (call.ip = ip))).failures ip := by
  induction calls using List.reverseRecOn with
  | nil => rfl
  | append_singleton calls call ih =>
      have earlier := ih fun position wipes => by
        obtain ⟨_, found, _⟩ := id wipes
        have below := (List.getElem?_eq_some_iff.mp found).1
        exact unwiped position ((wipes_snoc below).mpr wipes)
      have last : (t.after calls).wipes call = false := by
        rw [← Bool.not_eq_true]
        intro wipes
        refine unwiped calls.length ⟨call, List.getElem?_concat_length, ?_⟩
        rwa [List.take_left]
      rw [after_snoc, List.filter_append]
      by_cases own : call.ip = ip
      · rw [List.filter_cons_of_pos (by simpa using own), List.filter_nil, after_snoc]
        apply timesOf_take_own own _ earlier last
        · apply wipes_few fresh
          have single : ((calls.filter fun call => decide (call.ip = ip)).map
              ThrottleCall.ip).toFinset ⊆ {ip} := by
            intro address member
            obtain ⟨other, kept, rfl⟩ := List.mem_map.mp (List.mem_toFinset.mp member)
            simpa using (List.mem_filter.mp kept).2
          have one := Finset.card_le_card single
          rw [Finset.card_singleton] at one
          omega
        · rw [(after_window t _).1, (after_window t _).1]
      · rw [List.filter_cons_of_neg (by simpa using own), List.filter_nil, List.append_nil,
          ← earlier]
        exact timesOf_take_other (Ne.symm own) last

theorem prune_recent (t : LoginThrottle) (calls : List ThrottleCall) (now : Int) :
    (t.after calls).prune (timesOf (t.after calls).failures ip) now =
      (t.after calls).recent ip (now - milliseconds t.window) := by
  rw [prune, recent, (after_window t calls).1]

theorem blocked_iff (fresh : t.failures = Bucket.empty) (calls : List ThrottleCall) (now : Int)
    (latest : ∀ time ∈ calls.filterMap ThrottleCall.reading, time ≤ now) :
    ((t.after calls).blocked ip now).1 = true ↔
      t.max ≤ (counted t calls ip (now - milliseconds t.window)).card := by
  have same : ((t.after calls).recent ip (now - milliseconds t.window)).length =
      (counted t calls ip (now - milliseconds t.window)).card := by
    apply recent_counted calls fresh
    intro time member
    have := latest time member
    omega
  rw [blocked, decide_eq_true_eq, prune_recent, same, (after_window t calls).2]

/-- The throttle blocks an address exactly if enough of its failures in the window have
come since its last reset and the last wipe; without a wipe, other addresses do not matter. -/
theorem blocked_counts_since_wipe (max window : Int) (calls : List ThrottleCall) (ip : String)
    (now : Int) (latest : ∀ time ∈ calls.filterMap ThrottleCall.reading, time ≤ now) :
    ((((newLoginThrottle max window).after calls).blocked ip now).1 = true ↔
      max ≤ (counted (newLoginThrottle max window) calls ip (now - milliseconds window)).card) ∧
    ((∀ position, ¬ Wipes (newLoginThrottle max window) calls position) →
      (((newLoginThrottle max window).after calls).blocked ip now).1 =
        (((newLoginThrottle max window).after
          (calls.filter fun call => decide (call.ip = ip))).blocked ip now).1) := by
  refine ⟨blocked_iff rfl calls now latest, ?_⟩
  intro unwiped
  rw [blocked, blocked, prune_recent, prune_recent, recent, recent, timesOf_filtered rfl unwiped,
    (after_window _ _).2, (after_window _ _).2]

end Histories

/-- Two failures of one address around a check and a failure of others, and a reset of
another address. -/
def mixedCalls : List ThrottleCall :=
  [.fail "10.0.0.1" 0, .blocked "10.0.0.2" 10, .fail "10.0.0.1" 20, .fail "10.0.0.2" 30,
    .reset "10.0.0.2"]

theorem blocked_counts_since_wipe_mixed :
    (2 : Int) ≤ (counted (newLoginThrottle 2 60000000000) mixedCalls "10.0.0.1"
      (40 - milliseconds 60000000000)).card := by
  have blocks : (((newLoginThrottle 2 60000000000).after mixedCalls).blocked "10.0.0.1" 40).1 =
      true := by
    decide +kernel
  exact (blocked_counts_since_wipe 2 60000000000 mixedCalls "10.0.0.1" 40 (by decide)).1.mp blocks

section Crowd

open LoginThrottle

/-- The hosts 0000 to 9999 of one network. -/
def address (host : Nat) : String :=
  "[fd00::" ++ String.ofList [Nat.digitChar (host / 1000 % 10), Nat.digitChar (host / 100 % 10),
    Nat.digitChar (host / 10 % 10), Nat.digitChar (host % 10)] ++ "]"

def crowd : List String := (List.range 10000).map address

def victim : String := "[fd01::1]"

/-- Five failures of one address; then each of the crowd opens the sign-in form, and one
of them fails. -/
def crowdedCalls : List ThrottleCall :=
  List.replicate 5 (.fail victim 0) ++ crowd.map (.blocked · 0) ++ [.fail (address 0) 0]

theorem keys_blocked (t : LoginThrottle) (addresses : List String) (now : Int) :
    (t.after (addresses.map (.blocked · now))).failures.keys =
      t.failures.keys ∪ addresses.toFinset := by
  induction addresses generalizing t with
  | nil => simp [LoginThrottle.after]
  | cons address rest ih =>
      rw [List.map_cons, LoginThrottle.after, List.foldl_cons]
      rw [show List.foldl _ _ _ = (t.take (.blocked address now)).after _ from rfl, ih,
        LoginThrottle.take, blocked, Bucket.keys_put, List.toFinset_cons, Finset.insert_union,
        Finset.union_insert]

theorem address_inj {first second : Nat} (firstBound : first < 10000) (secondBound : second < 10000)
    (same : address first = address second) : first = second := by
  have digit : ∀ low < 10, ∀ high < 10, Nat.digitChar low = Nat.digitChar high → low = high := by
    decide
  have chars := congrArg String.toList same
  simp only [address, String.toList_append, String.toList_ofList] at chars
  have parts := List.append_cancel_left (List.append_cancel_right chars)
  simp only [List.cons.injEq, and_true] at parts
  have thousands := digit _ (Nat.mod_lt _ (by omega)) _ (Nat.mod_lt _ (by omega)) parts.1
  have hundreds := digit _ (Nat.mod_lt _ (by omega)) _ (Nat.mod_lt _ (by omega)) parts.2.1
  have tens := digit _ (Nat.mod_lt _ (by omega)) _ (Nat.mod_lt _ (by omega)) parts.2.2.1
  have ones := digit _ (Nat.mod_lt _ (by omega)) _ (Nat.mod_lt _ (by omega)) parts.2.2.2
  omega

theorem crowd_size : crowd.toFinset.card = 10000 := by
  have distinct : crowd.Nodup := by
    apply List.nodup_range.map_on
    intro first firstIn second secondIn same
    exact address_inj (List.mem_range.mp firstIn) (List.mem_range.mp secondIn) same
  rw [List.toFinset_card_of_nodup distinct, crowd, List.length_map, List.length_range]

theorem victim_apart (host : Nat) : victim ≠ address host := by
  intro same
  have chars := congrArg (fun text => text.toList[4]?) same
  simp only [address, String.toList_append, victim, List.append_assoc] at chars
  rw [List.getElem?_append_left (by decide)] at chars
  exact absurd chars (by decide)

/-- The address that failed five times, at the one time all calls are made, is not blocked. -/
theorem crowd_wipes_victim :
    crowdedCalls.take 5 = List.replicate 5 (.fail victim 0) ∧
    (∀ call ∈ crowdedCalls, call.reading = some 0 ∧ call ≠ .reset victim) ∧
    (((newLoginThrottle 5 60000000000).after crowdedCalls).blocked victim 0).1 = false := by
  refine ⟨rfl, ?_, ?_⟩
  · intro call member
    simp only [crowdedCalls, List.mem_append, List.mem_replicate, List.mem_map,
      List.mem_singleton] at member
    rcases member with (⟨_, rfl⟩ | ⟨_, _, rfl⟩) | rfl <;> exact ⟨rfl, by rintro ⟨⟩⟩
  · generalize begun : (newLoginThrottle 5 60000000000).after (List.replicate 5 (.fail victim 0)) = t
    have known : victim ∈ t.failures.keys := by
      rw [← begun, Bucket.mem_keys]
      decide +kernel
    have full : 10000 < (t.after (crowd.map (.blocked · 0))).failures.pairs.length := by
      have more : insert victim crowd.toFinset ⊆ t.failures.keys ∪ crowd.toFinset :=
        Finset.insert_subset (Finset.mem_union_left _ known) Finset.subset_union_right
      have outside : victim ∉ crowd.toFinset := by
        rw [List.mem_toFinset, crowd, List.mem_map]
        rintro ⟨host, _, same⟩
        exact victim_apart host same.symm
      have size := Finset.card_le_card more
      rw [Finset.card_insert_of_notMem outside, crowd_size] at size
      rw [← Bucket.card_keys, keys_blocked]
      omega
    have wiped : timesOf ((t.after (crowd.map (.blocked · 0))).fail (address 0) 0).failures victim =
        [] := by
      rw [fail, timesOf_put, if_neg (victim_apart 0), if_pos full]
      rfl
    have limits := after_window (newLoginThrottle 5 60000000000) crowdedCalls
    have last : (newLoginThrottle 5 60000000000).after crowdedCalls =
        (t.after (crowd.map (.blocked · 0))).fail (address 0) 0 := by
      rw [crowdedCalls, after_snoc, LoginThrottle.after, List.foldl_append, ← begun]
      rfl
    rw [blocked, limits.2, last, wiped]
    rfl

end Crowd

section SigningIn

open LoginThrottle

/-- The address without the port: what stands before the last colon. -/
def clientIP (remoteAddr : String) : String :=
  if ':' ∈ remoteAddr.toList then
    String.ofList (remoteAddr.toList.reverse.dropWhile (· ≠ ':')).tail.reverse
  else remoteAddr

/-- A post of the sign-in form: the clock when the throttle is asked and when a failure
is noted, the token if the form can be read, and whether a session can be made. -/
structure LoginRequest where
  remoteAddr : String
  checked : Int
  noted : Int
  token : Option String
  issued : Bool

inductive LoginAnswer
  | tooManyRequests
  | badForm
  | unauthorized
  | internalError
  | signedIn
  deriving DecidableEq, Repr

def loginPost (adminToken : String) (t : LoginThrottle) (req : LoginRequest) :
    LoginAnswer × LoginThrottle :=
  let ip := clientIP req.remoteAddr
  let (blocked, t) := t.blocked ip req.checked
  if blocked then (.tooManyRequests, t)
  else
    match req.token with
    | none => (.badForm, t)
    | some token =>
        if token ≠ adminToken then (.unauthorized, t.fail ip req.noted)
        else if req.issued then (.signedIn, t.reset ip)
        else (.internalError, t.reset ip)

/-- The calls a post makes on the throttle. -/
def loginCalls (adminToken : String) (t : LoginThrottle) (req : LoginRequest) :
    List ThrottleCall :=
  let ip := clientIP req.remoteAddr
  .blocked ip req.checked ::
    if (t.blocked ip req.checked).1 then []
    else
      match req.token with
      | none => []
      | some token => if token ≠ adminToken then [.fail ip req.noted] else [.reset ip]

def servePosts (adminToken : String) (t : LoginThrottle) : List LoginRequest → LoginThrottle
  | [] => t
  | req :: rest => servePosts adminToken (loginPost adminToken t req).2 rest

def servedCalls (adminToken : String) (t : LoginThrottle) :
    List LoginRequest → List ThrottleCall
  | [] => []
  | req :: rest =>
      loginCalls adminToken t req ++ servedCalls adminToken (loginPost adminToken t req).2 rest

theorem clientIP_port (host port : String) (plain : ':' ∉ port.toList) :
    clientIP (host ++ ":" ++ port) = host := by
  have chars : (host ++ ":" ++ port).toList = host.toList ++ ':' :: port.toList := by
    simp [String.toList_append]
  have stops : (port.toList.reverse ++ ':' :: host.toList.reverse).dropWhile (· ≠ ':') =
      ':' :: host.toList.reverse := by
    rw [List.dropWhile_append_of_pos]
    · simp
    · intro letter member
      simp only [ne_eq, decide_not, Bool.not_eq_eq_eq_not, Bool.not_true, decide_eq_false_iff_not]
      rintro rfl
      exact plain (List.mem_reverse.mp member)
  have flipped : (host.toList ++ ':' :: port.toList).reverse =
      port.toList.reverse ++ ':' :: host.toList.reverse := by
    simp
  rw [clientIP, chars, if_pos (by simp), flipped, stops, List.tail_cons, List.reverse_reverse,
    String.ofList_toList]

theorem loginPost_after (adminToken : String) (t : LoginThrottle) (req : LoginRequest) :
    (loginPost adminToken t req).2 = t.after (loginCalls adminToken t req) := by
  unfold loginPost loginCalls
  dsimp only
  cases (t.blocked (clientIP req.remoteAddr) req.checked).1 with
  | true => rfl
  | false =>
      cases req.token with
      | none => rfl
      | some token =>
          by_cases wrong : token ≠ adminToken
          · simp [wrong, LoginThrottle.after, LoginThrottle.take]
          · cases req.issued <;> simp [wrong, LoginThrottle.after, LoginThrottle.take]

theorem loginPost_tooMany (adminToken : String) (t : LoginThrottle) (req : LoginRequest) :
    (loginPost adminToken t req).1 = .tooManyRequests ↔
      (t.blocked (clientIP req.remoteAddr) req.checked).1 = true := by
  unfold loginPost
  dsimp only
  cases (t.blocked (clientIP req.remoteAddr) req.checked).1 with
  | true => simp
  | false =>
      cases req.token with
      | none => simp
      | some token =>
          by_cases wrong : token ≠ adminToken
          · simp [wrong]
          · cases req.issued <;> simp [wrong]

theorem servePosts_after (adminToken : String) (t : LoginThrottle) (posts : List LoginRequest) :
    servePosts adminToken t posts = t.after (servedCalls adminToken t posts) := by
  induction posts generalizing t with
  | nil => rfl
  | cons req rest ih =>
      rw [servePosts, servedCalls, ih, LoginThrottle.after, LoginThrottle.after, List.foldl_append,
        loginPost_after]
      rfl

theorem servedCalls_reading (adminToken : String) (t : LoginThrottle) (posts : List LoginRequest)
    (time : Int) (read : time ∈ (servedCalls adminToken t posts).filterMap ThrottleCall.reading) :
    ∃ req ∈ posts, time = req.checked ∨ time = req.noted := by
  induction posts generalizing t with
  | nil => cases read
  | cons req rest ih =>
      rw [servedCalls, List.filterMap_append, List.mem_append] at read
      rcases read with own | later
      · refine ⟨req, by simp, ?_⟩
        unfold loginCalls at own
        dsimp only at own
        split at own
        · simp_all [ThrottleCall.reading]
        · split at own
          · simp_all [ThrottleCall.reading]
          · split at own <;> simp_all [ThrottleCall.reading]
      · obtain ⟨other, member, same⟩ := ih _ later
        exact ⟨other, List.mem_cons_of_mem _ member, same⟩

/-- A post is turned away exactly if its address has failed `max` times in the window,
counted over the calls that the posts before it made. -/
theorem loginPost_refused_iff (adminToken : String) (max window : Int) (posts : List LoginRequest)
    (req : LoginRequest)
    (latest : ∀ earlier ∈ posts, earlier.checked ≤ req.checked ∧ earlier.noted ≤ req.checked) :
    (loginPost adminToken (servePosts adminToken (newLoginThrottle max window) posts) req).1 =
        .tooManyRequests ↔
      max ≤ (counted (newLoginThrottle max window)
        (servedCalls adminToken (newLoginThrottle max window) posts) (clientIP req.remoteAddr)
        (req.checked - milliseconds window)).card := by
  have ordered : ∀ time ∈ (servedCalls adminToken (newLoginThrottle max window) posts).filterMap
      ThrottleCall.reading, time ≤ req.checked := by
    intro time read
    obtain ⟨earlier, member, rfl | rfl⟩ := servedCalls_reading adminToken _ posts time read
    · exact (latest earlier member).1
    · exact (latest earlier member).2
  rw [servePosts_after, loginPost_tooMany]
  exact blocked_iff rfl _ req.checked ordered

end SigningIn

end QuorumLimiter.Dashboard
