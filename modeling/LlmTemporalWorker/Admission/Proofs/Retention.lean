/-
How long the legacy admission keys stay.

Every action is a sequence of commands, and the only record it stores is
that of the call (`act_sends`, on any state). So what the run of an
action does to the expiries is what its commands do to them one by one.

# Budget hashes

`HINCRBY` creates a hash without an expiry, and `expire_budget`, which
runs after it, takes a hash without an expiry for one that is persistent
by policy. So no command ever gives a budget hash an expiry that it has
not: in a run that starts without a key, none has one.

# Records

`set_record` reads the time a record has left, writes the record, and
gives it the longer of that time and the TTL. The time left is read in
seconds, rounded to the nearest one, so up to half a second is lost
unless the TTL makes up for it (`le_restored`).
-/
import LlmTemporalWorker.Admission.Retention
import LlmTemporalWorker.Admission.Proofs.AllOrNothing

namespace LlmTemporalWorker.Admission

open Lib Budget

-- ===== commands

/-- The key of the record that a call may store. -/
def Call.recordKey : Call → String
  | .begin c => c.recordKey
  | .markDispatching c => c.recordKey
  | .continue c => c.recordKey
  | .complete c => c.recordKey
  | .fail c => c.recordKey

section Sends

variable {σ : Type} [Commands σ] {key : String} {S S₁ : σ}

/-- One command of an action that stores no record but that of `key`. -/
inductive Command (key : String) (S : σ) : σ → Prop
  | hincrby (w : WindowKey) (bucket : Nat) (delta : Int) :
      Command key S (Commands.hincrby S w bucket delta).1
  | expireBudget (w : WindowKey) (durationNs : Nat) :
      Command key S (Commands.expireBudget S w durationNs)
  | setRecord (record : LuaRecord) : Command key S (Commands.setRecord S key record).1
  | setIndex (name value : String) : Command key S (Commands.setIndex S name value)
  | deleteIndex (name : String) : Command key S (Commands.deleteIndex S name)

/-- A sequence of such commands. -/
abbrev Sends (key : String) : σ → σ → Prop :=
  Relation.ReflTransGen (Command key)

theorem addEach_sends (delta : Fields → Int) (rs : List (ReservationWire Int)) (S : σ) :
    Sends key S (addEach delta rs S).1 := by
  induction rs generalizing S with
  | nil => exact .refl
  | cons r rest ih =>
    rw [addEach]
    split
    · exact .refl
    rename_i f _
    have hadd : Sends key S (Commands.hincrby S r.key f.bucket (delta f)).1 :=
      .single (.hincrby ..)
    dsimp only
    split
    · exact hadd
    · exact (hadd.tail (.expireBudget ..)).trans (ih _)

theorem reconcile_sends (rs : List (ReservationWire Int)) (actual : Int) (S : σ) :
    Sends key S (reconcile rs actual S).1 := by
  unfold reconcile
  split
  · exact .refl
  split
  · exact addEach_sends _ rs S
  · exact .refl

/-- Additions and what follows them, if they ran to their end. -/
theorem Sends.andThen {added : σ × Bool} {result : σ × Reply} (reply : Reply)
    (hadded : Sends key S added.1) (hrest : Sends key added.1 result.1) :
    Sends key S (if !added.2 then (added.1, reply) else result).1 := by
  split
  · exact hadded
  · exact hadded.trans hrest

theorem beginNew_sends (c : BeginCall) (clock : Clock) (incoming : LuaRecord) (S : σ) :
    Sends c.recordKey S (beginNew c clock incoming S).1 := by
  unfold beginNew
  split
  · exact .refl
  split
  · exact .refl
  split
  · exact .refl
  split
  · exact .refl
  split
  · exact .refl
  split
  · exact .refl
  refine Sends.andThen _ (addEach_sends _ _ S) ?_
  exact ((Relation.ReflTransGen.single (.setRecord _)).tail (.setIndex ..)).tail (.setIndex ..)

theorem actionBegin_sends (c : BeginCall) (clock : Clock) (S : σ) :
    Sends c.recordKey S (actionBegin c clock S).1 := by
  unfold actionBegin
  split
  · exact .refl
  split
  · exact .refl
  dsimp only
  split
  · exact .refl
  split
  · exact beginNew_sends c clock _ S
  split
  · split
    · exact .refl
    · exact .refl
  · exact .refl
  · exact (Relation.ReflTransGen.single (.deleteIndex _)).trans (beginNew_sends c clock _ _)

theorem actionMarkDispatching_sends (c : DispatchCall) (clock : Clock) (S : σ) :
    Sends c.recordKey S (actionMarkDispatching c clock S).1 := by
  unfold actionMarkDispatching
  split
  · exact .refl
  split
  · exact .refl
  split
  · split
    · exact .refl
    · exact .refl
  split
  · exact .refl
  split
  · exact .refl
  dsimp only
  split
  · exact .refl
  · exact .single (.setRecord _)

theorem continueNew_sends (c : ContinueCall) (clock : Clock) (record : LuaRecord)
    (rs : List (ReservationWire Int)) (remaining incurred : Nat)
    (outcome : OutcomeWire NumberLiteral) (S : σ) :
    Sends c.recordKey S (continueNew c clock record rs remaining incurred outcome S).1 := by
  unfold continueNew
  split
  · split
    · exact .single (.setRecord _)
    · exact .refl
  split
  · exact .refl
  · exact Sends.andThen _ (addEach_sends _ _ S) (.single (.setRecord _))

theorem actionContinue_sends (c : ContinueCall) (clock : Clock) (S : σ) :
    Sends c.recordKey S (actionContinue c clock S).1 := by
  unfold actionContinue
  split
  · exact .refl
  split
  · exact .refl
  split
  · exact .refl
  split
  · split
    · exact .refl
    split
    · split
      · exact .refl
      split
      · exact .refl
      · exact Sends.andThen _ (reconcile_sends _ _ S) (continueNew_sends c clock _ _ _ _ _ _)
    · exact .refl
  · exact .refl

theorem actionComplete_sends (c : CompleteCall) (clock : Clock) (S : σ) :
    Sends c.recordKey S (actionComplete c clock S).1 := by
  unfold actionComplete
  split
  · exact .refl
  split
  · exact .refl
  split
  · exact .refl
  split
  · exact .refl
  split
  · exact Sends.andThen _ (reconcile_sends _ _ S) (.single (.setRecord _))
  · exact .refl

theorem actionFail_sends (c : FailCall) (clock : Clock) (S : σ) :
    Sends c.recordKey S (actionFail c clock S).1 := by
  unfold actionFail
  split
  · exact .refl
  split
  · exact .refl
  split
  · exact .refl
  split
  · exact .refl
  split
  · split
    · exact .refl
    split
    · exact .single (.setRecord _)
    · exact Sends.andThen _ (reconcile_sends _ _ S) (.single (.setRecord _))
  · exact .refl

/-- Every action is a sequence of commands. -/
theorem act_sends (call : Call) (clock : Clock) (S : σ) :
    Sends call.recordKey S (call.act clock S).1 := by
  cases call with
  | begin c => exact actionBegin_sends c clock S
  | markDispatching c => exact actionMarkDispatching_sends c clock S
  | «continue» c => exact actionContinue_sends c clock S
  | complete c => exact actionComplete_sends c clock S
  | fail c => exact actionFail_sends c clock S

end Sends

end LlmTemporalWorker.Admission

namespace LlmTemporalWorker.Admission.Retention

open Lib Budget

variable {T T' : Timed} {key : String}

-- ===== the budget hashes

theorem hasBudget_hincrby (T : Timed) (w w' : WindowKey) (bucket : Nat) (delta : Int) :
    (T.hincrby w bucket delta).1.hasBudget w' = (T.hasBudget w' || w' == w) := by
  simp only [Timed.hasBudget, Timed.hincrby, Keyspace.hincrby]
  by_cases h : w' = w
  · subst h
    simp [AList.entries_insert]
  · simp [h]

/-- `HINCRBY` alone changes no expiry: a hash that it makes has none. -/
theorem budgetExpiry_hincrby (T : Timed) (w w' : WindowKey) (bucket : Nat) (delta : Int) :
    (T.hincrby w bucket delta).1.budgetExpiry w' = T.budgetExpiry w' := by
  rw [Timed.budgetExpiry, hasBudget_hincrby]
  show (if _ then Function.update T.budgetEnds w (T.budgetExpiry w) w'
    else none) = _
  by_cases h : w' = w
  · subst h
    simp
  · simp [h, Timed.budgetExpiry]

/-- `expire_budget` leaves a hash without an expiry as it is: a missing
one has nothing to move, and for one that is there `TTL` answers -1. -/
theorem expireBudget_eq (w : WindowKey) (durationNs : Nat) (h : T.budgetExpiry w = none) :
    T.expireBudget w durationNs = T := by
  unfold Timed.expireBudget
  split
  · rfl
  split
  · rfl
  cases hfound : T.hasBudget w with
  | false =>
    have hreply : ttlReply false (T.budgetEnds w) T.now = -2 := rfl
    rw [hreply, if_pos (Or.inl rfl), Timed.expireHash, hfound]
    rfl
  | true =>
    rw [Timed.budgetExpiry, if_pos hfound] at h
    rw [h]
    have hreply : ttlReply true none T.now = -1 := rfl
    rw [hreply, if_neg (by omega)]

/-- `set_record` changes no budget hash. -/
theorem setRecord_frame (T : Timed) (key : String) (record : LuaRecord) :
    (T.setRecord key record).1.keys.budget = T.keys.budget
      ∧ (T.setRecord key record).1.budgetEnds = T.budgetEnds
      ∧ (T.setRecord key record).1.written = T.written
      ∧ (T.setRecord key record).1.now = T.now ∧ (T.setRecord key record).1.ttl = T.ttl := by
  unfold Timed.setRecord
  dsimp only
  split
  · exact ⟨rfl, rfl, rfl, rfl, rfl⟩
  unfold Timed.expireRecord
  split
  · exact ⟨rfl, rfl, rfl, rfl, rfl⟩
  split
  · exact ⟨rfl, rfl, rfl, rfl, rfl⟩
  · exact ⟨rfl, rfl, rfl, rfl, rfl⟩

/-- No budget hash has an expiry, and those that the call has written
are there. -/
structure Persistent (T : Timed) : Prop where
  expiry : ∀ w, T.budgetExpiry w = none
  written : ∀ w ∈ T.written, T.hasBudget w = true

/-- No command gives a budget hash an expiry, or takes one away. -/
theorem Persistent.command (h : Persistent T) (hc : Command key T T') : Persistent T' := by
  cases hc with
  | hincrby w bucket delta =>
    constructor
    · intro w'
      exact (budgetExpiry_hincrby ..).trans (h.expiry w')
    · intro w' hw'
      show (T.hincrby w bucket delta).1.hasBudget w' = true
      rw [hasBudget_hincrby]
      rcases List.mem_append.mp hw' with hw' | hw'
      · rw [h.written w' hw']
        rfl
      · simp [List.mem_singleton.mp hw']
  | expireBudget w durationNs =>
    show Persistent (T.expireBudget w durationNs)
    rw [expireBudget_eq w durationNs (h.expiry w)]
    exact h
  | setRecord record =>
    obtain ⟨hbudget, hends, hwritten, -⟩ := setRecord_frame T key record
    show Persistent (T.setRecord key record).1
    constructor
    · intro w
      rw [Timed.budgetExpiry, Timed.hasBudget, hbudget, hends]
      exact h.expiry w
    · intro w hw
      rw [hwritten] at hw
      rw [Timed.hasBudget, hbudget]
      exact h.written w hw
  | setIndex | deleteIndex => exact ⟨h.expiry, h.written⟩

theorem Persistent.sends (h : Persistent T) (hs : Sends key T T') : Persistent T' := by
  induction hs with
  | refl => exact h
  | tail _ hc ih => exact ih.command hc

/-- A hash that is gone when a call starts has no expiry either. -/
theorem Persistent.sweep (h : ∀ w, T.budgetExpiry w = none) (now : Nat) (ttl : Int) :
    Persistent (T.sweep now ttl) := by
  refine ⟨?_, by simp [Timed.sweep]⟩
  intro w
  have hw := h w
  simp only [Timed.budgetExpiry, Timed.hasBudget, Timed.sweep] at hw ⊢
  split
  · exact hw
  · rfl

/-- In a run that starts without a key no budget hash gets an expiry. -/
theorem budgetExpiry_after (sent : List Sent) (w : WindowKey) :
    (after sent).budgetExpiry w = none := by
  refine runAll_invariant (I := fun T : Timed => ∀ w, T.budgetExpiry w = none) ?_ ?_ w
  · intro w
    rfl
  · intro s _ T hT
    exact ((Persistent.sweep hT _ _).sends (act_sends s.call s.clock _)).expiry

-- ===== the records

/-- The moment that `set_record` gives to a record that ended at `ends`:
the longer of the seconds it has left, as `TTL` counts them, and the TTL. -/
def restored (now : Nat) (ttl : Int) (ends : Nat) : Nat :=
  now + max ((ends - now + 500) / 1000) ttl.toNat * 1000

/-- No time is lost: `TTL` has nothing to round down, or the record gets
more time than it had. -/
def Lossless (now : Nat) (ttl : Int) (ends : Nat) : Prop :=
  (ends - now) % 1000 = 0 ∨ 500 ≤ (ends - now) % 1000 ∨ ends - now ≤ ttl.toNat * 1000

instance (now : Nat) (ttl : Int) (ends : Nat) : Decidable (Lossless now ttl ends) :=
  inferInstanceAs (Decidable (_ ∨ _))

theorem le_restored (now : Nat) (ttl : Int) (ends : Nat) :
    ends ≤ restored now ttl ends ↔ Lossless now ttl ends := by
  unfold restored Lossless
  omega

/-- A second `set_record` at the same time changes nothing. -/
theorem restored_restored (now : Nat) (ttl : Int) (ends : Nat) :
    restored now ttl (restored now ttl ends) = restored now ttl ends := by
  unfold restored
  omega

theorem hasRecord_store (T : Timed) (key key' : String) (text : RecordText) :
    (T.storeRecord key text).hasRecord key' = (T.hasRecord key' || key' == key) := by
  simp only [Timed.hasRecord, Timed.storeRecord, lookup_insert_eq]
  by_cases h : key' = key
  · simp [h]
  · simp [h]

/-- `SET` drops the expiry of its key. -/
theorem recordExpiry_store (T : Timed) (key key' : String) (text : RecordText) :
    (T.storeRecord key text).recordExpiry key'
      = if key' = key then none else T.recordExpiry key' := by
  rw [Timed.recordExpiry, hasRecord_store]
  show (if _ then Function.update T.recordEnds key none key'
    else none) = _
  by_cases h : key' = key
  · simp [h]
  · simp [h, Timed.recordExpiry]

theorem recordExpiry_expire (hfound : T.hasRecord key = true) {seconds : Nat}
    (hpos : 0 < seconds) (key' : String) :
    (T.expireRecord key seconds).recordExpiry key'
      = if key' = key then some (T.now + seconds * 1000)
        else T.recordExpiry key' := by
  rw [Timed.expireRecord, hfound, if_neg (by simp), if_neg (by omega)]
  show (if T.hasRecord key' then Function.update T.recordEnds key
    (some (T.now + seconds * 1000)) key' else none) = _
  by_cases h : key' = key
  · subst h
    rw [if_pos hfound, Function.update_self, if_pos rfl]
  · rw [Function.update_of_ne h, if_neg h]
    rfl

/-- The time that `set_record` gives a record. -/
theorem restoreTtl_eq {ttl : Int} (hlow : 0 < ttl) (hhigh : ttl ≤ maxSafe) (found : Bool)
    (expiry : Option Nat) (now : Nat) :
    restoreTtl (ttlReply found expiry now) ttl = if found then expiry.map fun ends =>
          max ((ends - now + 500) / 1000) ttl.toNat
        else some ttl.toNat := by
  have hread : integer ttl = some ttl.toNat := integer_of_bounds hlow.le hhigh
  unfold restoreTtl
  rw [hread]
  dsimp only
  cases found with
  | false =>
    have hreply : ttlReply false expiry now = -2 := rfl
    rw [hreply]
    simp [hlow]
  | true =>
    cases expiry with
    | none =>
      have hreply : ttlReply true none now = -1 := rfl
      rw [hreply]
      simp
    | some ends =>
      have hreply : ttlReply true (some ends) now = ((ends - now + 500) / 1000 : Nat) := rfl
      rw [hreply, if_pos (Int.natCast_nonneg _), Int.toNat_natCast]
      show _ = some (max _ _)
      split
      · rw [max_eq_right (by omega)]
      · rw [max_eq_left (by omega)]

/-- `set_record` gives the record it writes the restored expiry, if it
had one, and leaves the expiries of the other records alone. -/
theorem recordExpiry_setRecord (hlow : 0 < T.ttl) (hhigh : T.ttl ≤ maxSafe) (key : String)
    (record : LuaRecord) {key' : String} {ends : Nat} (hends : T.recordExpiry key' = some ends) :
    (T.setRecord key record).1.recordExpiry key'
      = some (if key' = key then restored T.now T.ttl ends else ends) := by
  have hstored : (T.storeRecord key record.encode).hasRecord key = true := by
    simp [hasRecord_store]
  unfold Timed.setRecord
  dsimp only
  rw [restoreTtl_eq hlow hhigh]
  by_cases hkey : key' = key
  · subst hkey
    unfold Timed.recordExpiry at hends
    split at hends
    · rename_i hfound
      rw [if_pos hfound, hends, Option.map_some, if_pos rfl]
      exact (recordExpiry_expire hstored (by omega) key').trans (if_pos rfl)
    · cases hends
  · have hkept : (T.storeRecord key record.encode).recordExpiry key' = some ends := by
      rw [recordExpiry_store, if_neg hkey, hends]
    rw [if_neg hkey]
    split
    · exact hkept
    · rename_i seconds hseconds
      have hpos : 0 < seconds := by
        split at hseconds
        · obtain ⟨e, -, rfl⟩ := Option.map_eq_some_iff.mp hseconds
          omega
        · cases hseconds
          omega
      exact (recordExpiry_expire hstored hpos key').trans ((if_neg hkey).trans hkept)

/-- What a call makes of the expiry of a record that has one: it leaves
it, or restores it. -/
def Rewritten (key : String) (T T' : Timed) : Prop :=
  T'.now = T.now ∧ T'.ttl = T.ttl ∧ ∀ key' ends, T.recordExpiry key' = some ends →
    T'.recordExpiry key' = some ends
      ∨ key' = key ∧ T'.recordExpiry key' = some (restored T.now T.ttl ends)

theorem Rewritten.command (hlow : 0 < T.ttl) (hhigh : T.ttl ≤ maxSafe) (hc : Command key T T') :
    Rewritten key T T' := by
  cases hc with
  | hincrby | setIndex | deleteIndex => exact ⟨rfl, rfl, fun _ _ => Or.inl⟩
  | expireBudget w durationNs =>
    have hframe : (T.expireBudget w durationNs).now = T.now
        ∧ (T.expireBudget w durationNs).ttl = T.ttl
        ∧ (T.expireBudget w durationNs).recordExpiry = T.recordExpiry := by
      unfold Timed.expireBudget Timed.expireHash
      grind [Timed.recordExpiry, Timed.hasRecord]
    refine ⟨hframe.1, hframe.2.1, fun key' ends hends => .inl ?_⟩
    show (T.expireBudget w durationNs).recordExpiry key' = _
    rw [hframe.2.2, hends]
  | setRecord record =>
    obtain ⟨-, -, -, hnow, httl⟩ := setRecord_frame T key record
    refine ⟨hnow, httl, ?_⟩
    intro key' ends hends
    have hset := recordExpiry_setRecord hlow hhigh key record hends
    by_cases hkey : key' = key
    · rw [if_pos hkey] at hset
      exact .inr ⟨hkey, hset⟩
    · rw [if_neg hkey] at hset
      exact .inl hset

theorem Rewritten.trans {T₁ : Timed} (h : Rewritten key T T₁) (h₁ : Rewritten key T₁ T') :
    Rewritten key T T' := by
  obtain ⟨hnow, httl, hleft⟩ := h
  obtain ⟨hnow₁, httl₁, hleft₁⟩ := h₁
  refine ⟨hnow₁.trans hnow, httl₁.trans httl, ?_⟩
  rw [hnow, httl] at hleft₁
  intro key' ends hends
  rcases hleft key' ends hends with hsame | ⟨hkey, hrestored⟩
  · exact hleft₁ key' ends hsame
  · right
    refine ⟨hkey, ?_⟩
    rcases hleft₁ key' _ hrestored with hsame | ⟨-, hagain⟩
    · exact hsame
    · rw [hagain, restored_restored]

theorem Rewritten.sends (hlow : 0 < T.ttl) (hhigh : T.ttl ≤ maxSafe) (hs : Sends key T T') :
    Rewritten key T T' := by
  induction hs with
  | refl => exact ⟨rfl, rfl, fun _ _ => Or.inl⟩
  | tail _ hc ih => exact ih.trans (.command (ih.2.1 ▸ hlow) (ih.2.1 ▸ hhigh) hc)

-- ===== runs

/-- In a run that starts without a key, no budget hash that a call
writes carries an expiry, whatever the TTLs, and no other budget hash
does either. A record that has an expiry keeps it until a call stores
the record; then the expiry is moved to the restored one, which is not
earlier exactly where no time is lost. -/
theorem budget_hashes_never_expire (sent : List Sent) (next : Sent)
    (hlow : 0 < next.ttl) (hhigh : next.ttl ≤ maxSafe) :
    let found := next.finds (after sent)
    let left := (next.run (after sent)).1
    (∀ w ∈ left.written, left.hasBudget w = true ∧ left.budgetExpiry w = none)
      ∧ (∀ w, found.budgetExpiry w = none ∧ left.budgetExpiry w = none)
      ∧ ∀ key ends, found.recordExpiry key = some ends → ∃ ends',
          left.recordExpiry key = some ends'
          ∧ (ends' = ends ∨ key = next.call.recordKey
            ∧ (ends ≤ ends' ↔ Lossless (nowMillis next.clock) next.ttl ends)) := by
  intro found left
  have hfound : Persistent found := .sweep (budgetExpiry_after sent) _ _
  have hsends : Sends next.call.recordKey found left := act_sends next.call next.clock found
  have hleft := hfound.sends hsends
  refine ⟨fun w hw => ⟨hleft.written w hw, hleft.expiry w⟩,
    fun w => ⟨hfound.expiry w, hleft.expiry w⟩, ?_⟩
  intro key ends hends
  rcases (Rewritten.sends (T := found) hlow hhigh hsends).2.2 key ends hends with
    hsame | ⟨hkey, hrestored⟩
  · exact ⟨ends, hsame, .inl rfl⟩
  · exact ⟨_, hrestored, .inr ⟨hkey, le_restored _ _ ends⟩⟩

/-- A call of `begin` for one reservation in the current minute. -/
def minuteBegin : Call :=
  .begin ⟨"scope", "operation", "small", 4,
    some (sampleIncoming "small" 5 (sampleReservation "user" 28333333 5 10)), 60⟩

/-- The first `begin` leaves its budget hash without an expiry. -/
theorem first_begin_keeps_budget_forever :
    let result := (Sent.mk minuteBegin 60 sampleClock).run .empty
    result.2.status = .created ∧ result.1.written = [⟨"user", "hour"⟩]
      ∧ result.1.budgetExpiry ⟨"user", "hour"⟩ = none := by
  decide +kernel

/-- A moment some seconds after the samples' time. -/
def secondsLater (n : Nat) : Clock := ⟨1700000000 + n, 0, Clock.zero_micros⟩

/-- The operation is admitted, and dispatched ten seconds later. -/
def minuteCalls : List Sent :=
  [⟨minuteBegin, 60, secondsLater 0⟩, ⟨.markDispatching ⟨"small", "small",
      some ((AttemptWire.map .plain) .blank), ""⟩, 30, secondsLater 10⟩]

/-- It is settled after ten more. -/
def minuteComplete : Sent :=
  ⟨.complete ⟨"small", 3, "small", 3, some none, some ((AttemptWire.map .plain) .blank)⟩, 120,
    secondsLater 20⟩

theorem settlement_keeps_budget_forever :
    let found := minuteComplete.finds (after minuteCalls)
    let result := minuteComplete.run (after minuteCalls)
    result.2.status = .ok ∧ result.1.written = [⟨"user", "hour"⟩]
      ∧ (result.1.hasBudget ⟨"user", "hour"⟩ = true
        ∧ result.1.budgetExpiry ⟨"user", "hour"⟩ = none)
      ∧ found.recordExpiry "small" = some (1700000060 * 1000)
      ∧ ∃ ends, result.1.recordExpiry "small" = some ends ∧ 1700000060 * 1000 ≤ ends := by
  intro found result
  have hwritten : result.1.written = [⟨"user", "hour"⟩] := by decide +kernel
  have hfound : found.recordExpiry "small" = some (1700000060 * 1000) := by decide +kernel
  obtain ⟨hhashes, -, hrecords⟩ :=
    budget_hashes_never_expire minuteCalls minuteComplete (by decide) (by decide)
  obtain ⟨ends, hends, hsame | ⟨-, hlossless⟩⟩ := hrecords "small" _ hfound
  · exact ⟨by decide +kernel, hwritten, hhashes _ (by rw [hwritten]; simp), hfound, ends, hends,
      hsame.ge⟩
  · exact ⟨by decide +kernel, hwritten, hhashes _ (by rw [hwritten]; simp), hfound, ends, hends,
      hlossless.mpr (by decide +kernel)⟩

end LlmTemporalWorker.Admission.Retention
