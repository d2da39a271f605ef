/-
The loops of the throttle Function against the ledger.

A counter counts a ledger's window when it is live exactly as long, ends
with it and holds the sum of its charges (`Counts`). The charging loop
turns counters into those of the grown windows (`chargeLimits_spec`);
the releasing loop lowers the counters it marked, each by its own amount
(`lowerCounters_spec`). Both work on distinct counters, so a turn of a
loop does not disturb the next.
-/
import LlmTemporalWorker.Throttle.Ledger

namespace LlmTemporalWorker.Throttle

open Lib Budget Admission Pricing

-- ===== windows

/-- The counter that a window should have. -/
def Window.counter (w : Window) : Counter := ⟨w.spent, some w.ends⟩

theorem Window.spent_without (w : Window) (holder : Nat) :
    (w.without holder).spent + w.own holder = w.spent := by
  unfold Window.spent Window.own Window.without
  dsimp only
  induction w.charges with
  | nil => rfl
  | cons c rest ih =>
    by_cases h : c.holder = holder
    · simp only [List.filter_cons, h, beq_self_eq_true, if_true,
        bne_self_eq_false, Bool.false_eq_true, if_false, List.map_cons,
        List.sum_cons]
      omega
    · have hb : (c.holder == holder) = false := by simp [h]
      have hn : (c.holder != holder) = true := by simp [h]
      simp only [List.filter_cons, hb, hn, if_true, Bool.false_eq_true,
        if_false, List.map_cons, List.sum_cons]
      omega

/-- Taking out one holder's charges leaves the others'. -/
theorem Window.own_without {holder holder' : Nat} (w : Window)
    (h : holder' ≠ holder) : (w.without holder).own holder' = w.own holder' := by
  unfold Window.own Window.without
  rw [List.filter_filter]
  congr 2
  refine List.filter_congr ?_
  intro c _
  by_cases hc : c.holder = holder'
  · simp [hc, h]
  · simp [hc]

theorem Window.own_eq_zero {w : Window} {holder : Nat}
    (h : ∀ c ∈ w.charges, c.holder ≠ holder) : w.own holder = 0 := by
  unfold Window.own
  have hnil : w.charges.filter (·.holder == holder) = [] := by
    rw [List.filter_eq_nil_iff]
    intro c hc
    simp [h c hc]
  rw [hnil]
  rfl

-- ===== the ledger

variable {L : Ledger} {now ttl : Nat} {line : CounterKey × Nat}

theorem Ledger.window_eq_some {key : CounterKey} {w : Window} :
    L.window now key = some w ↔ L.windows key = some w ∧ now < w.ends := by
  unfold Ledger.window
  simp

/-- The window that a charge leaves. -/
theorem Ledger.window_charge (httl : 0 < ttl) (key : CounterKey) :
    (L.charge now ttl line).window now key = if key = line.1 then some (L.grown now ttl line)
        else L.window now key := by
  have hlive : now < (L.grown now ttl line).ends := by
    unfold Ledger.grown
    split
    · show now < now + ttl * 1000
      omega
    · rename_i w hw
      exact (Ledger.window_eq_some.mp hw).2
  unfold Ledger.window Ledger.charge
  by_cases h : key = line.1
  · subst h
    simp [hlive]
  · simp [h]

theorem Ledger.spent_charge (httl : 0 < ttl) {key : CounterKey} (h : key ≠ line.1) :
    (L.charge now ttl line).spent now key = L.spent now key := by
  unfold Ledger.spent
  rw [Ledger.window_charge httl, if_neg h]

theorem Ledger.spent_grown : (L.grown now ttl line).spent = L.spent now line.1 + line.2 := by
  unfold Ledger.grown Ledger.spent
  cases L.window now line.1 with
  | none => simp [Window.spent]
  | some w =>
    simp only [Window.spent, List.map_cons, List.sum_cons, Option.map_some, Option.getD_some]
    omega

/-- A new charge belongs to the reservation being created. -/
theorem Ledger.own_grown (L : Ledger) (now ttl : Nat) (line : CounterKey × Nat) (holder : Nat) :
    (L.grown now ttl line).own holder = (if holder = L.created then line.2 else 0)
        + ((L.window now line.1).map (Window.own · holder)).getD 0 := by
  unfold Ledger.grown
  cases L.window now line.1 with
  | none | some =>
    by_cases h : holder = L.created
    · simp [Window.own, h]
    · simp [Window.own, h, Ne.symm h]

/-- A charge to another counter does not change what a window grows
to. -/
theorem Ledger.grown_charge (httl : 0 < ttl) {line' : CounterKey × Nat} (h : line'.1 ≠ line.1) :
    (L.charge now ttl line).grown now ttl line' = L.grown now ttl line' := by
  unfold Ledger.grown
  rw [Ledger.window_charge httl, if_neg h]
  rfl

/-- The fields that charges leave alone. -/
theorem Ledger.foldl_charge_frame (now ttl : Nat) (lines : List (CounterKey × Nat)) (L : Ledger) :
    (lines.foldl (Ledger.charge now ttl) L).created = L.created
      ∧ (lines.foldl (Ledger.charge now ttl) L).holder = L.holder
      ∧ (lines.foldl (Ledger.charge now ttl) L).issued = L.issued := by
  induction lines generalizing L with
  | nil => exact ⟨rfl, rfl, rfl⟩
  | cons line rest ih => exact ih (L.charge now ttl line)

/-- What recording a reservation changes besides the windows. -/
theorem Ledger.record_frame (L : Ledger) (now ttl : Nat) (id : String)
    (lines : List (CounterKey × Nat)) :
    (L.record now ttl id lines).created = L.created + 1 ∧ (L.record now ttl id lines).holder
        = Function.update L.holder id (some L.created)
      ∧ (L.record now ttl id lines).issued = L.issued := by
  obtain ⟨hcreated, hholder, hissued⟩ := Ledger.foldl_charge_frame now ttl lines L
  refine ⟨congrArg (· + 1) hcreated, ?_, hissued⟩
  show Function.update (lines.foldl (Ledger.charge now ttl) L).holder id
    (some (lines.foldl (Ledger.charge now ttl) L).created) = _
  rw [hcreated, hholder]

/-- Charges to distinct counters grow each of their windows once. -/
theorem Ledger.window_foldl_charge (httl : 0 < ttl) {limits : List ThrottleLimit}
    (hnodup : (limits.map ThrottleLimit.key).Nodup) (L : Ledger) :
    (∀ l ∈ limits, ((limits.map ThrottleLimit.line).foldl (Ledger.charge now ttl) L).window now
        l.key = some (L.grown now ttl l.line))
      ∧ ∀ key, key ∉ limits.map ThrottleLimit.key →
        ((limits.map ThrottleLimit.line).foldl (Ledger.charge now ttl) L).window now key
          = L.window now key := by
  induction limits generalizing L with
  | nil => exact ⟨fun l hl => (nomatch hl), fun _ _ => rfl⟩
  | cons head rest ih =>
    rw [List.map_cons, List.nodup_cons] at hnodup
    obtain ⟨hin, hout⟩ := ih hnodup.2 (L.charge now ttl head.line)
    rw [List.map_cons, List.foldl_cons]
    refine ⟨List.forall_mem_cons.mpr ⟨?_, fun l hl => ?_⟩, fun key hkey => ?_⟩
    · rw [hout head.key hnodup.1, Ledger.window_charge httl]
      exact if_pos rfl
    · rw [hin l hl, Ledger.grown_charge httl]
      exact fun hsame : l.key = head.key => hnodup.1 (hsame ▸ List.mem_map_of_mem hl)
    · rw [List.map_cons, List.mem_cons, not_or] at hkey
      rw [hout key hkey.2, Ledger.window_charge httl]
      exact if_neg hkey.1

-- ===== the counters

variable {K : Keyspace} {key : CounterKey}

/-- A counter that counts what the ledger lists. -/
def Counts (K : Keyspace) (L : Ledger) (key : CounterKey) : Prop :=
  K.counter key = (L.window K.now key).map Window.counter

theorem counter_setCounter (c : Counter) (key' : CounterKey) :
    (K.setCounter key c).counter key' = if key' = key then
          if c.expires.all (K.now < ·) then some c else none
        else K.counter key' := by
  unfold Keyspace.counter Keyspace.setCounter
  by_cases h : key' = key
  · subst h
    simp [Option.filter_some]
  · simp [h]

/-- One turn of the charging loop gives the counter its grown window. -/
theorem charge_counter (ttl amount : Nat) (hcount : Counts K L key) :
    (K.incrby key amount).2 = (L.grown K.now ttl (key, amount)).spent
      ∧ windowEnd (K.incrby key amount).1 key ttl
        = (K.setCounter key (L.grown K.now ttl (key, amount)).counter,
          ((L.grown K.now ttl (key, amount)).ends : Int)) := by
  unfold Counts at hcount
  cases hw : L.window K.now key with
  | none =>
    rw [hw] at hcount
    have hcount : K.counter key = none := hcount
    have hgrown : L.grown K.now ttl (key, amount)
        = ⟨K.now + ttl * 1000, [⟨L.created, amount⟩]⟩ := by
      rw [Ledger.grown, hw]
    have hinc : K.incrby key amount = (K.setCounter key ⟨amount, none⟩, (amount : Int)) := by
      rw [Keyspace.incrby, hcount]
    have hnew : (K.setCounter key ⟨amount, none⟩).counter key = some ⟨amount, none⟩ := by
      rw [counter_setCounter, if_pos rfl]
      rfl
    have hpttl : (K.setCounter key ⟨amount, none⟩).pttl key = -1 := by
      rw [Keyspace.pttl, hnew]
    rw [hgrown, hinc]
    refine ⟨by simp [Window.spent], ?_⟩
    rw [windowEnd, hpttl, if_pos (by decide), Keyspace.pexpire, hnew]
    simp [Window.counter, Window.spent, Keyspace.setCounter]
  | some w =>
    rw [hw] at hcount
    have hcount : K.counter key = some w.counter := hcount
    have hlive := (Ledger.window_eq_some.mp hw).2
    have hgrown : L.grown K.now ttl (key, amount)
        = { w with charges := ⟨L.created, amount⟩ :: w.charges } := by
      rw [Ledger.grown, hw]
    have hspent : (L.grown K.now ttl (key, amount)).counter
        = { w.counter with value := w.counter.value + amount } := by
      rw [hgrown]
      simp only [Window.counter, Window.spent, List.map_cons,
        List.sum_cons, Counter.mk.injEq, and_true]
      push_cast
      ring
    have hinc : K.incrby key amount = (K.setCounter key (L.grown K.now ttl (key, amount)).counter,
          w.counter.value + amount) := by
      rw [Keyspace.incrby, hcount, hspent]
    have hends : (L.grown K.now ttl (key, amount)).ends = w.ends := by
      rw [hgrown]
    rw [hinc]
    constructor
    · have := congrArg Counter.value hspent
      exact this.symm
    · have hnew : (K.setCounter key (L.grown K.now ttl (key, amount)).counter).counter key
          = some (L.grown K.now ttl (key, amount)).counter := by
        rw [counter_setCounter, if_pos rfl, if_pos]
        show decide (K.now < (L.grown K.now ttl (key, amount)).ends) = true
        rw [hends]
        exact decide_eq_true hlive
      have hpttl : (K.setCounter key (L.grown K.now ttl (key, amount)).counter).pttl key
          = (w.ends : Int) - K.now := by
        rw [Keyspace.pttl, hnew, ← hends]
        rfl
      rw [windowEnd, hpttl, if_neg (by omega), hends]
      congr 1
      show (K.now : Int) + ((w.ends : Int) - K.now) = w.ends
      omega

/-- After a charge every counter counts the ledger's new windows. -/
theorem counts_charge (httl : 0 < ttl) (hcounts : ∀ key, Counts K L key)
    (line : CounterKey × Nat) (key : CounterKey) :
    Counts (K.setCounter line.1 (L.grown K.now ttl line).counter)
      (L.charge K.now ttl line) key := by
  show _ = ((L.charge K.now ttl line).window K.now key).map _
  have hlive : (L.charge K.now ttl line).window K.now line.1 = some (L.grown K.now ttl line) := by
    rw [Ledger.window_charge httl, if_pos rfl]
  rw [counter_setCounter, Ledger.window_charge httl]
  by_cases h : key = line.1
  · rw [if_pos h, if_pos h, if_pos]
    · rfl
    · exact decide_eq_true (Ledger.window_eq_some.mp hlive).2
  · rw [if_neg h, if_neg h]
    exact hcounts key

/-- A limit as the Function reads it. -/
def ThrottleLimit.lua (l : ThrottleLimit) : ThrottleWireLimit Int :=
  ⟨l.kind, l.keyDigest, l.amount, l.limit⟩

/-- A limit whose counter can take its amount. -/
def Room (L : Ledger) (now : Nat) (l : ThrottleLimit) : Prop :=
  0 < l.amount ∧ (L.spent now l.key : Int) + l.amount ≤ maxSafe

/-- The charging loop runs to its end over distinct counters that have
room, grows each of their windows once, and reports their ends. -/
theorem chargeLimits_spec (httl : 0 < ttl) {limits : List ThrottleLimit}
    (hnodup : (limits.map ThrottleLimit.key).Nodup)
    (hroom : ∀ l ∈ limits, Room L K.now l)
    (hcounts : ∀ key, Counts K L key) :
    ∃ K', chargeLimits ttl (limits.map fun l => (l.key, l.lua)) K = (K', limits.map fun l =>
            ((L.grown K.now ttl l.line).ends : Int), true)
      ∧ K'.now = K.now ∧ K'.reservations = K.reservations
      ∧ ∀ key, Counts K' ((limits.map ThrottleLimit.line).foldl
        (Ledger.charge K.now ttl) L) key := by
  induction limits generalizing K L with
  | nil => exact ⟨K, rfl, rfl, rfl, hcounts⟩
  | cons l rest ih =>
    rw [List.map_cons, List.nodup_cons] at hnodup
    obtain ⟨hpos, hle⟩ := hroom l List.mem_cons_self
    have hamount : integer l.lua.amount = some l.amount.toNat := durableInt_eq_some.mpr ⟨by
        show l.amount = _
        omega, by omega⟩
    obtain ⟨hnext, hend⟩ := charge_counter ttl l.amount.toNat (hcounts l.key)
    have hspent : (L.grown K.now ttl l.line).spent
        = L.spent K.now l.key + l.amount.toNat := Ledger.spent_grown
    have hsafe : (integer (K.incrby l.key l.amount.toNat).2).isNone = false := by
      rw [hnext, show integer _ = some _ from
        durableInt_eq_some.mpr ⟨rfl, ?_⟩]
      · rfl
      · rw [show (l.key, l.amount.toNat) = l.line from rfl, hspent]
        omega
    -- the other counters have not moved
    have hother : ∀ l' ∈ rest, l'.line.1 ≠ l.line.1 := by
      intro l' hl' hsame
      have hsame : l'.key = l.key := hsame
      exact hnodup.1 (hsame ▸ List.mem_map_of_mem hl')
    obtain ⟨K', hrest, hnow, hres, hcounts'⟩ := ih (K := K.setCounter
        l.key (L.grown K.now ttl l.line).counter)
      (L := L.charge K.now ttl l.line) hnodup.2
      (by
        intro l' hl'
        have hkeep : (L.charge K.now ttl l.line).spent K.now l'.key = L.spent K.now l'.key :=
          Ledger.spent_charge httl (hother l' hl')
        have hroom' := hroom l' (List.mem_cons_of_mem _ hl')
        unfold Room at hroom' ⊢
        rw [← hkeep] at hroom'
        exact hroom')
      (counts_charge httl hcounts l.line)
    have hends : (rest.map fun l' =>
        (((L.charge K.now ttl l.line).grown K.now ttl l'.line).ends : Int))
        = rest.map fun l' => ((L.grown K.now ttl l'.line).ends : Int) := by
      refine List.map_congr_left ?_
      intro l' hl'
      rw [Ledger.grown_charge httl (hother l' hl')]
    refine ⟨K', ?_, hnow, hres, hcounts'⟩
    rw [List.map_cons, chargeLimits]
    simp only [hamount, Option.getD_some, hsafe, Bool.false_eq_true, if_false, hend]
    rw [show (l.key, l.amount.toNat) = l.line from rfl, hrest, List.map_cons, ← hends]
    rfl

-- ===== releasing

/-- The counters that a release marks, from the limits it keeps and the
lines it is given. -/
def marks (K : Keyspace) (ends : Option (List Int)) :
    Nat → List (ThrottleWireLimit Int × CounterKey × Int) → List Bool
  | _, [] => []
  | index, (_, key, _) :: rest =>
    chargedHere K ends index key :: marks K ends (index + 1) rest

/-- One turn of the first loop of `release`: it refuses, or the amounts
are the same and the counter is marked. -/
theorem checkRelease_cons (ends : Option (List Int)) (index : Nat)
    (limit : ThrottleWireLimit Int) (key : CounterKey) (argument : Int)
    (rest : List (ThrottleWireLimit Int × CounterKey × Int)) :
    (∃ status ≠ Status.released,
      checkRelease K ends index ((limit, key, argument) :: rest) = .error status)
    ∨ argument = limit.amount ∧ checkRelease K ends index ((limit, key, argument) :: rest)
      = (checkRelease K ends (index + 1) rest).map (chargedHere K ends index key :: ·) := by
  rw [checkRelease]
  split
  · rename_i amount expected hargument hlimit
    split
    · exact .inl ⟨_, by decide, rfl⟩
    rename_i hsame
    have hequal : argument = limit.amount := by
      rw [(durableInt_eq_some.mp hargument).1, (durableInt_eq_some.mp hlimit).1, not_not.mp hsame]
    split
    · rename_i hmark
      dsimp only
      split
      · exact .inl ⟨_, by decide, rfl⟩
      refine .inr ⟨hequal, ?_⟩
      rw [hmark]
      cases checkRelease K ends (index + 1) rest <;> rfl
    · rename_i hmark
      refine .inr ⟨hequal, ?_⟩
      rw [Bool.eq_false_of_not_eq_true hmark]
      cases checkRelease K ends (index + 1) rest <;> rfl
  · exact .inl ⟨_, by decide, rfl⟩

section CheckRelease

variable {ends : Option (List Int)} {index : Nat}
  {lines : List (ThrottleWireLimit Int × CounterKey × Int)}

/-- A release that passes its checks has marked its counters and found
the amounts it keeps. -/
theorem checkRelease_ok {charged : List Bool} (h : checkRelease K ends index lines = .ok charged) :
    charged = marks K ends index lines ∧ ∀ x ∈ lines, x.2.2 = x.1.amount := by
  induction lines generalizing index charged with
  | nil =>
    cases h
    exact ⟨rfl, fun x hx => nomatch hx⟩
  | cons head rest ih =>
    rcases checkRelease_cons (K := K) ends index head.1 head.2.1 head.2.2 rest with
      ⟨_, -, hrefused⟩ | ⟨hequal, hnext⟩
    · cases h.symm.trans hrefused
    · obtain ⟨flags, hflags, rfl⟩ := map_ok (hnext.symm.trans h)
      obtain ⟨rfl, hrest⟩ := ih hflags
      exact ⟨rfl, List.forall_mem_cons.mpr ⟨hequal, hrest⟩⟩

theorem checkRelease_error {status : Status} (h : checkRelease K ends index lines = .error status) :
    status ≠ .released := by
  induction lines generalizing index with
  | nil => cases h
  | cons head rest ih =>
    rcases checkRelease_cons (K := K) ends index head.1 head.2.1 head.2.2 rest with
      ⟨_, hstatus, hrefused⟩ | ⟨-, hnext⟩
    · cases h.symm.trans hrefused
      exact hstatus
    · rw [hnext] at h
      cases hrest : checkRelease K ends (index + 1) rest with
      | error e =>
        rw [hrest] at h
        cases h
        exact ih hrest
      | ok flags =>
        rw [hrest] at h
        cases h

end CheckRelease

/-- A marked counter after its turn of the releasing loop. -/
def lowered (mark : Bool) (argument : Int) (c : Counter) : Counter :=
  if mark then { c with value := c.value - ((integer argument).getD 0 : Nat) } else c

/-- One turn of the releasing loop. -/
theorem lowerCounters_cons {mark : Bool} (argument : Int)
    (rest : List (Bool × CounterKey × Int)) (hmark : mark = true → (K.counter key).isSome) :
    ∃ K₁, lowerCounters ((mark, key, argument) :: rest) K = lowerCounters rest K₁
      ∧ K₁.now = K.now ∧ K₁.reservations = K.reservations
      ∧ ∀ key', K₁.counter key' = if key' = key then (K.counter key).map (lowered mark argument)
        else K.counter key' := by
  cases mark with
  | false =>
    refine ⟨K, rfl, rfl, rfl, fun key' => ?_⟩
    split
    next h =>
      rw [h]
      exact Option.map_id'.symm
    · rfl
  | true =>
    obtain ⟨c, hc⟩ := Option.isSome_iff_exists.mp (hmark rfl)
    have hlive : c.expires.all (K.now < ·) = true := (Option.filter_eq_some_iff.mp hc).2
    have hstep : (K.incrby key (-((integer argument).getD 0 : Nat))).1
        = K.setCounter key (lowered true argument c) := by
      rw [Keyspace.incrby, hc]
      rfl
    refine ⟨_, congrArg (lowerCounters rest) hstep, rfl, rfl, fun key' => ?_⟩
    rw [counter_setCounter, hc, Option.map_some]
    exact if_congr Iff.rfl (if_pos hlive) rfl

/-- The releasing loop lowers the marked counters, each by its amount,
and no other. -/
theorem lowerCounters_spec {lines : List (Bool × CounterKey × Int)}
    (hnodup : (lines.map fun x => x.2.1).Nodup)
    (hmarked : ∀ x ∈ lines, x.1 = true → (K.counter x.2.1).isSome) :
    (lowerCounters lines K).now = K.now ∧ (lowerCounters lines K).reservations = K.reservations
      ∧ (∀ x ∈ lines, (lowerCounters lines K).counter x.2.1
        = (K.counter x.2.1).map (lowered x.1 x.2.2))
      ∧ ∀ key, key ∉ lines.map (fun x => x.2.1) →
        (lowerCounters lines K).counter key = K.counter key := by
  induction lines generalizing K with
  | nil => exact ⟨rfl, rfl, fun x hx => (nomatch hx), fun _ _ => rfl⟩
  | cons head rest ih =>
    rw [List.map_cons, List.nodup_cons] at hnodup
    have hapart : ∀ x ∈ rest, x.2.1 ≠ head.2.1 := fun x hx hsame =>
      hnodup.1 (hsame ▸ List.mem_map_of_mem hx)
    obtain ⟨hhead, htail⟩ := List.forall_mem_cons.mp hmarked
    obtain ⟨K₁, hstep, hnow₁, hres₁, hcounter⟩ := lowerCounters_cons head.2.2 rest hhead
    obtain ⟨hnow, hres, hin, hout⟩ := ih (K := K₁) hnodup.2 fun x hx hx1 => by
      rw [hcounter, if_neg (hapart x hx)]
      exact htail x hx hx1
    rw [show lowerCounters (head :: rest) K = _ from hstep]
    refine ⟨hnow.trans hnow₁, hres.trans hres₁, List.forall_mem_cons.mpr ⟨?_, ?_⟩, ?_⟩
    · rw [hout _ hnodup.1, hcounter, if_pos rfl]
    · intro x hx
      rw [hin x hx, hcounter, if_neg (hapart x hx)]
    · intro key hkey
      rw [List.map_cons, List.mem_cons, not_or] at hkey
      rw [hout key hkey.2, hcounter, if_neg hkey.1]

end LlmTemporalWorker.Throttle
