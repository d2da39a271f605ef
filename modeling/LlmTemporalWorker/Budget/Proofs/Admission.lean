/-
`durable_reserve` under the ledger's invariants.

The admission loop keeps `Admitting`: what it has written so far is
expiry cleanup, the reservations passed sit at distinct places, and
each window's running total is the window's sums plus the passed
reservations of that window. At the end of the loop the last point is
the admission decision itself: sums and request together are within the
limit (`Admitting.fits`).

The writes that follow are one `charge` per reservation. They touch no
record, so the record can be thought of as stored first; a charge then
only has to be explained against the record it belongs to.
-/
import LlmTemporalWorker.Budget.Proofs.Invariant

namespace LlmTemporalWorker.Budget

open Lib

-- ===== opening windows

/-- Every bucket of a window. -/
def everyBucket : Nat → Bool := fun _ => true

variable (w : WindowKey) (P : Nat → Bool) (xs : List HeldReservation)

/-- The request's own amounts in a window. -/
def amountIn : Int :=
  (xs.map fun x =>
    if x.key = w ∧ P x.bucket then (x.amountNano : Int) else 0).sum

theorem amountIn_append (ys : List HeldReservation) :
    amountIn w P (xs ++ ys) = amountIn w P xs + amountIn w P ys := by
  simp [amountIn]

theorem amountIn_nonneg : 0 ≤ amountIn w P xs := by
  refine List.sum_nonneg fun v hv => ?_
  obtain ⟨x, -, rfl⟩ := List.mem_map.mp hv
  split <;> omega

variable {x y : HeldReservation} {xs : List HeldReservation}
  {now we score : Nat} {st st' : Staging} {r : Reservation}
  {K K' K₀ : Keyspace} {win : WindowState} {args a : ReserveArgs}
  {e : Reply} {done : List Reservation} {fp : String} {op : OperationKey}
  {owner : String → OperationKey}

/-- A reservation's amount is part of its window's. -/
theorem le_amountIn (hx : x ∈ xs) {P : Nat → Bool} (hP : P x.bucket = true) :
    (x.amountNano : Int) ≤ amountIn x.key P xs := by
  obtain ⟨l₁, l₂, rfl⟩ := List.append_of_mem hx
  have h₁ := amountIn_nonneg x.key P l₁
  have h₂ := amountIn_nonneg x.key P l₂
  have hx : amountIn x.key P (x :: l₂) = x.amountNano + amountIn x.key P l₂ := by
    simp [amountIn, hP]
  rw [amountIn_append, hx]
  omega

/-- The `HGETALL` loop adds the fields up, each of them a natural
number, and never leaves the safe range. -/
theorem activeTotal_eq_some {vs : List Int} {a n : Nat}
    (h : activeTotal vs a = some n) (ha : a ≤ maxSafe) :
    (n : Int) = a + vs.sum ∧ n ≤ maxSafe := by
  induction vs generalizing a with
  | nil =>
    simp only [activeTotal, Option.some.injEq] at h
    subst h
    simp [ha]
  | cons v rest ih =>
    rw [activeTotal] at h
    split at h
    · rename_i k hk
      obtain ⟨hv, -⟩ := durableInt_eq_some.mp hk
      split at h
      · cases h
      obtain ⟨hn, hle⟩ := ih h (by omega)
      refine ⟨?_, hle⟩
      rw [hn, List.sum_cons, hv]
      omega
    · cases h

theorem sumTotal_everyBucket (K : Keyspace) (w : WindowKey) : sumTotal K w everyBucket
      = ((K.hash w).sums.entries.map Sigma.snd).sum := rfl

/-- Cleanup of one window leaves the other hashes alone. -/
theorem hash_cleanupMembers {w w' : WindowKey} (hne : w' ≠ w) (ms : List Member) (K : Keyspace) :
    (cleanupMembers w ms K).1.hash w' = K.hash w' := by
  have hstep : ∀ (K : Keyspace) (b : Nat) (d : Int),
      (K.hincrbyDropZero w b d).hash w' = K.hash w' := by
    intro K b d
    unfold Keyspace.hincrbyDropZero
    dsimp only
    split
    · rw [Keyspace.hdelBucket, hash_setHash, if_neg hne, Keyspace.hincrby, hash_setHash, if_neg hne]
    · rw [Keyspace.hincrby, hash_setHash, if_neg hne]
  induction ms generalizing K with
  | nil => rfl
  | cons m rest ih =>
    rw [cleanupMembers]
    split
    · split
      · rw [ih, hash_zrem, hstep]
      · rfl
    · rfl

/-- What opening a window does: nothing the second time, a cleanup and
the sum of the window's fields the first time. -/
theorem openWindow_ok (h : openWindow now st r K = (K', .ok win)) :
    (st.windows.lookup r.key = some win ∧ K' = K)
      ∨ (st.windows.lookup r.key = none ∧ win.limit = r.limitNano
        ∧ (win.active : Int) = sumTotal K' r.key everyBucket
        ∧ ∀ w', w' ≠ r.key → K'.hash w' = K.hash w') := by
  unfold openWindow at h
  cases hl : st.windows.lookup r.key with
  | some win' =>
    rw [hl] at h
    simp only [Prod.mk.injEq, Except.ok.injEq] at h
    exact Or.inl ⟨by rw [h.2], h.1.symm⟩
  | none =>
    rw [hl] at h
    refine Or.inr ⟨rfl, ?_⟩
    have hframe : ∀ w', w' ≠ r.key → (durableCleanup r.key now K).1.hash w' = K.hash w' :=
      fun w' hw' => hash_cleanupMembers hw' _ K
    rcases hcl : durableCleanup r.key now K with ⟨K₁, _ | _⟩
    · rw [hcl] at h
      simp at h
    · rw [hcl] at h hframe
      dsimp only at h hframe
      split at h
      · simp at h
      rename_i active hact
      obtain ⟨rfl, rfl⟩ := h
      refine ⟨rfl, ?_, hframe⟩
      rw [sumTotal_everyBucket]
      have := (activeTotal_eq_some hact (Nat.zero_le _)).1
      simpa using this

theorem cleaned_openWindow (now : Nat) (st : Staging) (r : Reservation)
    (K : Keyspace) : Cleaned now K (openWindow now st r K).1 := by
  unfold openWindow
  split
  · exact Cleaned.refl now K
  have hc := cleaned_durableCleanup now r.key K
  split
  · rename_i hcl
    rw [hcl] at hc
    exact hc
  · rename_i hcl
    rw [hcl] at hc
    split <;> exact hc

-- ===== one turn

/-- A reservation that passed, as the record will hold it. -/
def Passed (now : Nat) (r : Reservation) (x : HeldReservation) : Prop :=
  ∃ expires windowExpiry, checkReservation now r = .ok (expires, windowExpiry)
      ∧ x = r.hold windowExpiry

/-- The bounds a passed reservation meets. -/
theorem checkReservation_ok {expires windowExpiry : Nat}
    (h : checkReservation now r = .ok (expires, windowExpiry)) :
    0 < r.amountNano ∧ r.amountNano ≤ maxSafe ∧ r.limitNano ≤ maxSafe
      ∧ now < expires ∧ r.expiresMillis = expires
      ∧ ∃ windowExpires bucketMillis durationMillis : Nat, r.windowExpiresMillis = windowExpires
          ∧ durableMillis r.bucketNanos = some bucketMillis
          ∧ durableMillis r.durationNanos = some durationMillis
          ∧ windowExpiry = max windowExpires
            ((now / bucketMillis + 1) * bucketMillis + durationMillis) := by
  unfold checkReservation at h
  split at h
  · cases h
  split at h
  · rename_i we b am li ex hwe hb ham hli hex
    obtain ⟨hwe', -⟩ := durableInt_eq_some.mp hwe
    obtain ⟨ham', hamS⟩ := durableInt_eq_some.mp ham
    obtain ⟨hli', hliS⟩ := durableInt_eq_some.mp hli
    obtain ⟨hex', -⟩ := durableInt_eq_some.mp hex
    split at h
    · cases h
    split at h
    · cases h
    split at h
    · rename_i bm dm hbm hdm
      split at h
      · cases h
      obtain ⟨rfl, rfl⟩ := h
      refine ⟨by omega, by omega, by omega, by omega, hex', ?_⟩
      exact ⟨we, bm, dm, hwe', hbm, hdm, rfl⟩
    · cases h
  · cases h

/-- What one turn of the admission loop does when it passes. -/
theorem admitReservation_ok (h : admitReservation now args r K st = (K', .ok st')) :
    ∃ expires windowExpiry win, checkReservation now r = .ok (expires, windowExpiry)
        ∧ r.identity ∉ st.seen
        ∧ openWindow now st r K = (K', .ok win)
        ∧ win.limit = r.limitNano
        ∧ win.active + r.amountNano ≤ r.limitNano
        ∧ st' =
          { seen := r.identity :: st.seen
            windows := st.windows.insert r.key ⟨win.active + r.amountNano, win.limit⟩
            startBy := min st.startBy expires
            held := st.held ++ [r.hold windowExpiry] } := by
  unfold admitReservation at h
  split at h
  · simp at h
  rename_i expires windowExpiry hcheck
  split at h
  · simp at h
  rename_i hseen
  split at h
  · simp at h
  rename_i K₁ win hopen
  split at h
  · simp at h
  rename_i hlimit
  split at h
  · simp at h
  obtain ⟨rfl, rfl⟩ := h
  refine ⟨expires, windowExpiry, win, hcheck, hseen, hopen,
    by simpa using hlimit, by omega, rfl⟩

theorem cleaned_admitReservation (now : Nat) (args : ReserveArgs)
    (r : Reservation) (K : Keyspace) (st : Staging) :
    Cleaned now K (admitReservation now args r K st).1 := by
  have hc := cleaned_openWindow now st r K
  unfold admitReservation
  split
  · exact Cleaned.refl now K
  split
  · exact Cleaned.refl now K
  split
  · rename_i hopen
    rw [hopen] at hc
    exact hc
  · rename_i hopen
    rw [hopen] at hc
    split
    · exact hc
    · split <;> exact hc

/-- The keyspace only undergoes cleanup until the request is decided. -/
theorem cleaned_admitAll (now : Nat) (args : ReserveArgs)
    (rs : List Reservation) (K : Keyspace) (st : Staging) :
    Cleaned now K (admitAll now args rs K st).1 := by
  induction rs generalizing K st with
  | nil => exact Cleaned.refl now K
  | cons r rest ih =>
    have hc := cleaned_admitReservation now args r K st
    rw [admitAll]
    split
    · rename_i hstep
      rw [hstep] at hc
      exact hc
    · rename_i hstep
      rw [hstep] at hc
      exact hc.trans (ih _ _)

/-- The checks that read no key answer two statuses. -/
theorem checkReservation_error (h : checkReservation now r = .error e) :
    e = .invalidRequest ∨ e = .expired := by
  unfold checkReservation at h
  grind

/-- Some cleanup at this reading fails, after others that did not. -/
def CleanupFails (now : Nat) (K : Keyspace) : Prop :=
  ∃ w K', Cleaned now K K' ∧ (durableCleanup w now K').2 = false

/-- Opening a window fails on its total, or on its cleanup. -/
theorem openWindow_error (hopen : openWindow now st r K = (K', .error e)) :
    e = .stateUnavailable .range ∨ e = .stateUnavailable .cleanup ∧ CleanupFails now K := by
  unfold openWindow at hopen
  split at hopen
  · simp at hopen
  split at hopen
  · rename_i hcl
    simp only [Prod.mk.injEq, Except.error.injEq] at hopen
    exact .inr ⟨hopen.2.symm, r.key, K, .refl now K, by rw [hcl]⟩
  · split at hopen
    · simp only [Prod.mk.injEq, Except.error.injEq] at hopen
      exact .inl hopen.2.symm
    · simp at hopen

/-- A reply that grants nothing and speaks of an intact ledger. -/
def Reply.refuses : Reply → Bool
  | .existing _ | .accepted _ | .claimed | .ok _ => false
  | .stateUnavailable .cleanup | .scriptError => false
  | .preparing | .ready | .recovering | .busy | .held _ | .released
  | .restored | .unchanged | .raised _ => false
  | _ => true

/-- A turn of the loop that fails refuses, or cannot clean up. -/
theorem admitReservation_error (hstep : admitReservation now args r K st = (K', .error e)) :
    e.refuses = true ∨ e = .stateUnavailable .cleanup ∧ CleanupFails now K := by
  unfold admitReservation at hstep
  split at hstep
  · rename_i e' hcheck
    cases hstep
    rcases checkReservation_error hcheck with rfl | rfl <;> exact .inl rfl
  · split at hstep
    · cases hstep
      exact .inl rfl
    · split at hstep
      · rename_i hopen
        cases hstep
        rcases openWindow_error hopen with rfl | hfails
        · exact .inl rfl
        · exact .inr hfails
      · left
        grind [Reply.refuses, denialOf]

/-- The admission loop accepts, refuses, or cannot clean up. -/
theorem admitAll_error {rs : List Reservation}
    (hall : admitAll now args rs K st = (K', .error e)) :
    e.refuses = true ∨ e = .stateUnavailable .cleanup ∧ CleanupFails now K := by
  induction rs generalizing K st with
  | nil => simp [admitAll] at hall
  | cons r rest ih =>
    have hc := cleaned_admitReservation now args r K st
    rw [admitAll] at hall
    split at hall
    · rename_i hstep
      cases hall
      exact admitReservation_error hstep
    · rename_i hstep
      rw [hstep] at hc
      rcases ih hall with hrefuses | ⟨he, w, K₁, hclean, hfails⟩
      · exact .inl hrefuses
      · exact .inr ⟨he, w, K₁, hc.trans hclean, hfails⟩

-- ===== the loop

/-- The admission loop's invariant, after the reservations `done`. -/
structure Admitting (now : Nat) (K₀ : Keyspace) (done : List Reservation)
    (K : Keyspace) (st : Staging) : Prop where
  cleaned : Cleaned now K₀ K
  passed : List.Forall₂ (Passed now) done st.held
  seen : ∀ x ∈ st.held, x.identity ∈ st.seen
  places : (st.held.map HeldReservation.place).Nodup
  windows : ∀ {w win}, st.windows.lookup w = some win → (win.active : Int)
      = sumTotal K w everyBucket + amountIn w everyBucket st.held
  opened : ∀ x ∈ st.held, ∃ win, st.windows.lookup x.key = some win
    ∧ win.limit = x.limitNano ∧ win.active ≤ win.limit
  unopened : ∀ {w}, st.windows.lookup w = none → amountIn w everyBucket st.held = 0
  startBy : now < st.startBy

/-- Every reservation of the staging comes from one that passed. -/
theorem Admitting.passed_of_mem (h : Admitting now K₀ done K st)
    (hx : x ∈ st.held) : ∃ r ∈ done, Passed now r x :=
  exists_of_forall₂_right h.passed hx

/-- The decision: sums and request together are within the limit. -/
theorem Admitting.fits (h : Admitting now K₀ done K st) (hx : x ∈ st.held) :
    sumTotal K x.key everyBucket + amountIn x.key everyBucket st.held ≤ x.limitNano := by
  obtain ⟨win, hwin, hlimit, hle⟩ := h.opened x hx
  have := h.windows hwin
  omega

theorem hold_key (r : Reservation) (we : Nat) : (r.hold we).key = r.key := rfl

theorem amountIn_hold (r : Reservation) (we : Nat) : amountIn w everyBucket [r.hold we]
      = if r.key = w then (r.amountNano : Int) else 0 := by
  unfold amountIn
  rw [List.map_singleton, List.sum_singleton, hold_key]
  simp only [everyBucket, and_true]
  rfl

/-- Reservations at one place have one identity. -/
theorem identity_eq_of_place (h : x.place = y.place) : x.identity = y.identity := by
  simp only [HeldReservation.place, Reservation.key, Prod.mk.injEq, WindowKey.mk.injEq] at h
  obtain ⟨⟨hp, hw⟩, hb⟩ := h
  rw [Reservation.identity, Reservation.identity, hp, hw, hb]

/-- The windows' running totals survive a turn on window `r.key`. -/
private theorem windows_step (h : Admitting now K₀ done K st)
    (hopen : openWindow now st r K = (K', .ok win)) {w : WindowKey}
    {win' : WindowState} (hw : (st.windows.insert r.key
      ⟨win.active + r.amountNano, win.limit⟩).lookup w = some win') :
    (win'.active : Int) = sumTotal K' w everyBucket
      + amountIn w everyBucket (st.held ++ [r.hold we]) := by
  rw [amountIn_append, amountIn_hold]
  rw [lookup_insert_eq] at hw
  by_cases hkey : w = r.key
  · subst hkey
    rw [if_pos rfl] at hw
    have hw' := Option.some.inj hw
    subst hw'
    rw [if_pos rfl]
    rcases openWindow_ok hopen with ⟨hl, rfl⟩ | ⟨hl, -, hact, -⟩
    · have := h.windows hl
      push_cast
      omega
    · have := h.unopened hl
      push_cast
      omega
  · rw [if_neg hkey] at hw
    rw [if_neg (fun he => hkey he.symm)]
    have := h.windows hw
    rcases openWindow_ok hopen with ⟨-, rfl⟩ | ⟨-, -, -, hframe⟩
    · omega
    · have hsum : sumTotal K' w everyBucket = sumTotal K w everyBucket := by
        rw [sumTotal, sumTotal, hframe w hkey]
      omega

/-- A reservation that passed sits where no earlier one does. -/
private theorem places_step (h : Admitting now K₀ done K st) (hseen : r.identity ∉ st.seen) :
    ((st.held ++ [r.hold we]).map HeldReservation.place).Nodup := by
  rw [List.map_append, List.map_singleton, List.nodup_append]
  refine ⟨h.places, List.nodup_singleton _, List.forall_mem_map.mpr fun x hx =>
    List.forall_mem_singleton.mpr fun hplace => ?_⟩
  have hid := identity_eq_of_place hplace
  exact hseen (hid ▸ h.seen x hx)

/-- The windows of the passed reservations stay within their limits. -/
private theorem opened_step (h : Admitting now K₀ done K st)
    (hopen : openWindow now st r K = (K', .ok win))
    (hlimit : win.limit = r.limitNano)
    (hfits : win.active + r.amountNano ≤ r.limitNano) :
    ∀ x ∈ st.held ++ [r.hold we], ∃ win', (st.windows.insert r.key
        ⟨win.active + r.amountNano, win.limit⟩).lookup x.key = some win'
        ∧ win'.limit = x.limitNano ∧ win'.active ≤ win'.limit := by
  refine List.forall_mem_append.mpr ⟨fun x hx => ?_, List.forall_mem_singleton.mpr ?_⟩
  · obtain ⟨win', hl', hlim', hle'⟩ := h.opened x hx
    rw [lookup_insert_eq]
    by_cases hkey : x.key = r.key
    · -- the window was open, so its limit is the one it was opened with
      rw [hkey] at hl'
      have hwin : win' = win := by
        rcases openWindow_ok hopen with ⟨hl, -⟩ | ⟨hl, -⟩
        · exact Option.some.inj (hl'.symm.trans hl)
        · rw [hl] at hl'
          cases hl'
      subst hwin
      rw [if_pos hkey]
      exact ⟨_, rfl, hlim', by dsimp only; omega⟩
    · rw [if_neg hkey]
      exact ⟨win', hl', hlim', hle'⟩
  · rw [lookup_insert_eq, if_pos (hold_key r we)]
    exact ⟨_, rfl, hlimit, by dsimp only; omega⟩

/-- One turn keeps the loop's invariant. -/
theorem Admitting.step (h : Admitting now K₀ done K st)
    (hstep : admitReservation now args r K st = (K', .ok st')) :
    Admitting now K₀ (done ++ [r]) K' st' := by
  obtain ⟨expires, we, win, hcheck, hseen, hopen, hlimit, hfits, rfl⟩ := admitReservation_ok hstep
  have hclean : Cleaned now K K' := by
    have := cleaned_openWindow now st r K
    rw [hopen] at this
    exact this
  refine ⟨h.cleaned.trans hclean, ?_, ?_, places_step h hseen,
    windows_step h hopen, opened_step h hopen hlimit hfits, ?_, ?_⟩
  · exact List.rel_append h.passed (List.Forall₂.cons ⟨expires, we, hcheck, rfl⟩ List.Forall₂.nil)
  · exact List.forall_mem_append.mpr ⟨fun x hx => List.mem_cons_of_mem _ (h.seen x hx),
      List.forall_mem_singleton.mpr List.mem_cons_self⟩
  · intro w hw
    rw [lookup_insert_eq] at hw
    split at hw
    · cases hw
    rename_i hne
    rw [amountIn_append, h.unopened hw, amountIn_hold, if_neg (fun he => hne he.symm), add_zero]
  · have hex := (checkReservation_ok hcheck).2.2.2.1
    have := h.startBy
    exact lt_min this hex

/-- The loop keeps its invariant. -/
theorem Admitting.all {rs : List Reservation} (h : Admitting now K₀ done K st)
    (hall : admitAll now args rs K st = (K', .ok st')) :
    Admitting now K₀ (done ++ rs) K' st' := by
  induction rs generalizing done K st with
  | nil =>
    obtain ⟨rfl, rfl⟩ := hall
    rw [List.append_nil]
    exact h
  | cons r rest ih =>
    rw [admitAll] at hall
    split at hall
    · simp at hall
    rename_i K₁ st₁ hstep
    have := ih (h.step hstep) hall
    rw [List.append_assoc] at this
    exact this

theorem Admitting.start (now : Nat) (K : Keyspace) :
    Admitting now K [] K ⟨[], ∅, now + 15 * 60 * 1000, []⟩ where
  cleaned := Cleaned.refl now K
  passed := List.Forall₂.nil
  seen := nofun
  places := List.nodup_nil
  windows := nofun
  opened := nofun
  unopened := fun _ => rfl
  startBy := by
    show now < now + 15 * 60 * 1000
    omega

-- ===== the charges

section Charge

variable (fp : String) (score : Nat) (K : Keyspace) (x : HeldReservation)

@[simp] theorem records_charge : (charge fp score K x).records = K.records := rfl

variable (w : WindowKey)

theorem sum_charge (b : Nat) : (charge fp score K x).sum w b = K.sum w b
      + if w = x.key ∧ b = x.bucket then (x.amountNano : Int) else 0 := by
  rw [charge, sum_congr (hash_zadd ..), sum_hincrby, sum_hsetLimit]

theorem zscore_charge (m : Member) : (charge fp score K x).zscore w m
      = if w = x.key ∧ m = durableExpiryMember fp x.bucket x.amountNano
        then some score else K.zscore w m := by
  rw [charge, zscore_zadd]
  rfl

theorem sumTotal_charge (P : Nat → Bool) : sumTotal (charge fp score K x) w P = sumTotal K w P
      + if w = x.key ∧ P x.bucket then (x.amountNano : Int) else 0 := by
  rw [charge, sumTotal_congr (hash_zadd ..), sumTotal_hincrby, sumTotal_hsetLimit]

/-- A charge adds as much to the sum as to the set, unless the set
already had the member. -/
theorem slack_charge (P : Nat → Bool) :
    slack (charge fp score K x) w P = slack K w P + if w = x.key then
          presence K x.key (durableExpiryMember fp x.bucket x.amountNano) P
        else 0 := by
  have hmem : memberTotal (charge fp score K x) w P = memberTotal K w P + if w = x.key then
          memberWeight P (durableExpiryMember fp x.bucket x.amountNano) - presence K x.key
              (durableExpiryMember fp x.bucket x.amountNano) P
        else 0 := by
    rw [charge, memberTotal_zadd]
    rfl
  rw [slack, slack, sumTotal_charge, hmem, retainedTotal_congr (records_charge ..)]
  by_cases hw : w = x.key
  · simp only [hw, true_and, if_true, memberWeight_member]
    split <;> omega
  · rw [if_neg (fun h => hw h.1), if_neg hw, if_neg hw]
    omega

end Charge

/-- Charges leave the other places alone. -/
theorem sum_charge_of_place (h : x.place ≠ y.place) :
    (charge fp score K x).sum y.key y.bucket = K.sum y.key y.bucket := by
  rw [sum_charge, if_neg, add_zero]
  rintro ⟨hk, hb⟩
  exact h (Prod.ext hk.symm hb.symm)

theorem zscore_charge_of_place {fp' : String} {n : Nat} (h : x.place ≠ y.place) :
    (charge fp score K x).zscore y.key (durableExpiryMember fp' y.bucket n)
      = K.zscore y.key (durableExpiryMember fp' y.bucket n) := by
  rw [zscore_charge, if_neg]
  rintro ⟨hk, hm⟩
  exact h (Prod.ext hk.symm (congrArg Member.bucket hm).symm)

/-- A new unclaimed record retains nothing yet. -/
theorem slack_setRecord_new {r : Record} (hnew : K.records.lookup op = none)
    (hun : r.claimed = false) (w : WindowKey) (P : Nat → Bool) :
    slack (K.setRecord op r) w P = slack K w P := by
  rw [slack, retainedTotal_setRecord_new hnew, retainedIn_unclaimed hun, add_zero]
  rfl

/-- A new unclaimed record keeps the ledger sound. -/
theorem Sound.setRecord_new (h : Sound K) {r : Record}
    (hnew : K.records.lookup op = none) (hwf : RecordWf r)
    (hun : r.claimed = false) :
    Sound (K.setRecord op r) where
  wf := forall_setRecord hwf h.wf
  members := fun hm => h.members hm
  covered := fun w P => slack_setRecord_new hnew hun w P ▸ h.covered w P
  capped := h.capped

theorem Exact.setRecord_new (h : Exact owner K) {r : Record}
    (hnew : K.records.lookup op = none) (hwf : RecordWf r)
    (hun : r.claimed = false) (hown : owner r.fingerprint = op) :
    Exact owner (K.setRecord op r) where
  toSound := h.toSound.setRecord_new hnew hwf hun
  owned := forall_setRecord hown h.owned
  backed := fun hm => (h.backed hm).setRecord rfl fun r' hr' => by
    rw [hnew] at hr'
    cases hr'
  balanced := fun w P => slack_setRecord_new hnew hun w P ▸ h.balanced w P

/-- A charge within the safe range keeps the ledger sound. -/
theorem Sound.charge (h : Sound K)
    (hcap : K.sum x.key x.bucket + x.amountNano ≤ maxSafe) :
    Sound (charge fp score K x) where
  wf := fun hr => h.wf hr
  members := by
    intro w m s hm
    rw [zscore_charge] at hm
    split at hm
    · rename_i he
      rw [he.2]
      have := h.sum_nonneg x.key x.bucket
      show x.amountNano ≤ maxSafe
      omega
    · exact h.members hm
  covered := fun w P => by
    rw [slack_charge]
    have hcov := h.covered w P
    have := presence_nonneg K x.key (durableExpiryMember fp x.bucket x.amountNano) P
    split <;> omega
  capped := fun w b => by
    rw [sum_charge]
    split
    · rename_i he
      rw [he.1, he.2]
      exact hcap
    · rw [add_zero]
      exact h.capped w b

/-- The charge of a new reservation keeps the ledger exact. -/
theorem Exact.charge (h : Exact owner K) {r : Record}
    (hr : K.records.lookup op = some r) (hx : x ∈ r.reservations)
    (hun : r.claimed = false) (hst : x.status = .reserved)
    (hnone : K.zscore x.key (durableExpiryMember r.fingerprint x.bucket x.amountNano) = none)
    (hcap : K.sum x.key x.bucket + x.amountNano ≤ maxSafe) :
    Exact owner (charge r.fingerprint score K x) where
  toSound := h.toSound.charge hcap
  owned := fun hr' => h.owned hr'
  backed := by
    intro w m s hm
    rw [zscore_charge] at hm
    split at hm
    · rename_i he
      obtain ⟨hres, hacc, hpos⟩ := (h.wf hr).fresh x hx hst
      have htotal : x.total = x.amountNano := by
        rw [HeldReservation.total, hres, hacc, add_zero]
      exact ⟨op, r, x, hr, hx, htotal ▸ he.2, he.1.symm, htotal ▸ hpos, by rw [retained, hun]; rfl⟩
    · exact h.backed hm
  balanced := fun w P => by
    rw [slack_charge, presence_of_none hnone, h.balanced w P]
    split <;> rfl

/-- Charges at distinct places keep the ledger sound. -/
theorem Sound.charges (h : Sound K)
    (hnd : (xs.map HeldReservation.place).Nodup)
    (hcap : ∀ x ∈ xs, K.sum x.key x.bucket + x.amountNano ≤ maxSafe) :
    Sound (xs.foldl (Budget.charge fp score) K) := by
  induction xs generalizing K with
  | nil => exact h
  | cons x rest ih =>
    rw [List.map_cons, List.nodup_cons] at hnd
    refine ih (h.charge (hcap x List.mem_cons_self)) hnd.2 ?_
    intro y hy
    rw [sum_charge_of_place]
    · exact hcap y (List.mem_cons_of_mem _ hy)
    · intro he
      exact hnd.1 (he ▸ List.mem_map_of_mem hy)

/-- The charges of a new record keep the ledger exact. -/
theorem Exact.charges {r : Record} (h : Exact owner K)
    (hr : K.records.lookup op = some r) (hun : r.claimed = false)
    (hxs : ∀ x ∈ xs, x ∈ r.reservations)
    (hst : ∀ x ∈ xs, x.status = .reserved)
    (hnd : (xs.map HeldReservation.place).Nodup)
    (hnone : ∀ x ∈ xs, K.zscore x.key
      (durableExpiryMember r.fingerprint x.bucket x.amountNano) = none)
    (hcap : ∀ x ∈ xs, K.sum x.key x.bucket + x.amountNano ≤ maxSafe) :
    Exact owner (xs.foldl (Budget.charge r.fingerprint score) K) := by
  induction xs generalizing K with
  | nil => exact h
  | cons x rest ih =>
    rw [List.map_cons, List.nodup_cons] at hnd
    have hplace : ∀ y ∈ rest, x.place ≠ y.place := by
      intro y hy he
      exact hnd.1 (he ▸ List.mem_map_of_mem hy)
    refine ih ?_ hr (fun y hy => hxs y (List.mem_cons_of_mem _ hy))
      (fun y hy => hst y (List.mem_cons_of_mem _ hy)) hnd.2 ?_ ?_
    · exact h.charge hr (hxs x List.mem_cons_self) hun
        (hst x List.mem_cons_self) (hnone x List.mem_cons_self)
        (hcap x List.mem_cons_self)
    · intro y hy
      rw [zscore_charge_of_place (hplace y hy)]
      exact hnone y (List.mem_cons_of_mem _ hy)
    · intro y hy
      rw [sum_charge_of_place (hplace y hy)]
      exact hcap y (List.mem_cons_of_mem _ hy)

/-- The member of a charge, whatever is charged after it. -/
theorem zscore_foldl_charge_of_mem (h : x ∈ xs ∨ K.zscore x.key
      (durableExpiryMember fp x.bucket x.amountNano) = some score) :
    (xs.foldl (charge fp score) K).zscore x.key
      (durableExpiryMember fp x.bucket x.amountNano) = some score := by
  induction xs generalizing K with
  | nil =>
    rcases h with h | h
    · cases h
    · exact h
  | cons y rest ih =>
    apply ih
    rw [zscore_charge]
    by_cases hy : x.key = y.key ∧ durableExpiryMember fp x.bucket x.amountNano
          = durableExpiryMember fp y.bucket y.amountNano
    · right
      rw [if_pos hy]
    · rw [if_neg hy]
      rcases h with h | h
      · rcases List.mem_cons.mp h with rfl | h
        · exact absurd ⟨rfl, rfl⟩ hy
        · exact Or.inl h
      · exact Or.inr h

-- ===== the action

/-- The keyspace an accepted reserve leaves. -/
def acceptedKeyspace (a : ReserveArgs) (st : Staging) (K : Keyspace) :
    Keyspace :=
  (st.held.foldl (charge a.fingerprint st.startBy) K).setRecord a.key
    (durableEncode (acceptedRecord a st))

/-- Everything `durable_reserve` can do: answer from what is there,
clean up and refuse, or accept. -/
theorem durableReserve_cases (t : RedisTime) (a : ReserveArgs) (K : Keyspace) :
    (∃ reply, durableReserve t a K = (K, reply) ∧ ((∃ r, K.records.lookup a.key = some r
            ∧ reply = replayReserve a r) ∨ reply.refuses = true))
      ∨ (K.records.lookup a.key = none ∧ ∃ K' e, admitAll t.millis a a.reservations K
            ⟨[], ∅, t.millis + 15 * 60 * 1000, []⟩ = (K', .error e)
          ∧ durableReserve t a K = (K', e))
      ∨ (K.records.lookup a.key = none ∧ a.valid = true ∧ ∃ K' st,
        Admitting t.millis K a.reservations K' st
          ∧ durableReserve t a K = (acceptedKeyspace a st K',
            .accepted (durableEncode (acceptedRecord a st)))) := by
  unfold durableReserve
  split
  · exact Or.inl ⟨_, rfl, Or.inr rfl⟩
  split
  · exact Or.inl ⟨_, rfl, Or.inr rfl⟩
  rename_i hvalid
  split
  · rename_i r hr
    exact Or.inl ⟨_, rfl, Or.inl ⟨r, hr, rfl⟩⟩
  rename_i hnone
  unfold createReserve
  split
  · exact Or.inl ⟨_, rfl, Or.inr rfl⟩
  split
  · rename_i K' e hall
    exact Or.inr (Or.inl ⟨hnone, K', e, hall, rfl⟩)
  rename_i K' st hall
  refine Or.inr (Or.inr ⟨hnone, by simpa using hvalid, K', st,
    ?_, rfl⟩)
  exact (Admitting.start t.millis K).all hall

/-- A reservation of an accepted record, as the reserve made it. -/
theorem Admitting.fresh (h : Admitting now K₀ a.reservations K st)
    (hy : y ∈ (durableEncode (acceptedRecord a st)).reservations) :
    y.reservedNano = y.amountNano ∧ y.accountedNano = 0 ∧ 0 < y.amountNano ∧ y.amountNano ≤ maxSafe
      ∧ ∃ x ∈ st.held, y = x.encode := by
  obtain ⟨x, hx, rfl⟩ := List.mem_map.mp hy
  obtain ⟨r, -, e, we, hcheck, rfl⟩ := h.passed_of_mem hx
  obtain ⟨hpos, hle, -⟩ := checkReservation_ok hcheck
  exact ⟨rfl, rfl, hpos, hle, _, hx, rfl⟩

/-- The record an accepted reserve stores is well formed. -/
theorem Admitting.recordWf (h : Admitting now K₀ a.reservations K st) :
    RecordWf (durableEncode (acceptedRecord a st)) := by
  refine ⟨?_, ?_, ?_⟩
  · show ((st.held.map HeldReservation.encode).map _).Nodup
    rw [List.map_map]
    exact h.places
  · intro y hy _
    obtain ⟨h1, h2, h3, -⟩ := h.fresh hy
    exact ⟨h1, h2, h3⟩
  · intro y hy
    obtain ⟨h1, h2, -, h4, -⟩ := h.fresh hy
    rw [HeldReservation.total, h1, h2, add_zero]
    exact h4

/-- One bucket's sum is part of its window's. -/
theorem Sound.sum_le_sumTotal (h : Sound K) (w : WindowKey) (b : Nat) :
    K.sum w b ≤ sumTotal K w everyBucket := by
  have hnn : ∀ b' v, (K.hash w).sums.lookup b' = some v → 0 ≤ v := by
    intro b' v hv
    have := h.sum_nonneg w b'
    rw [Keyspace.sum, FMap.getD, hv] at this
    exact this
  unfold Keyspace.sum FMap.getD sumTotal
  cases hv : (K.hash w).sums.lookup b with
  | none => exact total_nonneg hnn
  | some v => exact le_total hnn hv

/-- An admitted reservation leaves its bucket in the safe range. -/
theorem Admitting.capped (h : Admitting now K₀ done K st) (hK : Sound K) (hx : x ∈ st.held) :
    K.sum x.key x.bucket + x.amountNano ≤ maxSafe := by
  obtain ⟨r, -, e, we, hcheck, hxr⟩ := h.passed_of_mem hx
  have hlimit : x.limitNano ≤ maxSafe := by
    rw [hxr]
    exact (checkReservation_ok hcheck).2.2.1
  have hsum := hK.sum_le_sumTotal x.key x.bucket
  have hown := le_amountIn hx (P := everyBucket) rfl
  have hfits := h.fits hx
  omega

theorem charges_setRecord (fp : String) (score : Nat)
    (xs : List HeldReservation) (K : Keyspace) (op : OperationKey)
    (r : Record) :
    (xs.foldl (charge fp score) K).setRecord op r
      = xs.foldl (charge fp score) (K.setRecord op r) := by
  induction xs generalizing K with
  | nil => rfl
  | cons x rest ih => exact ih (charge fp score K x)

/-- The record may be thought of as stored before its charges. -/
theorem acceptedKeyspace_eq (a : ReserveArgs) (st : Staging) (K : Keyspace) :
    acceptedKeyspace a st K = (durableEncode (acceptedRecord a st)).reservations.foldl
        (charge a.fingerprint st.startBy)
        (K.setRecord a.key (durableEncode (acceptedRecord a st))) := by
  rw [acceptedKeyspace, charges_setRecord]
  show _ = (st.held.map HeldReservation.encode).foldl _ _
  rw [List.foldl_map]
  rfl

/-- An accepted reserve keeps the ledger sound. -/
theorem Sound.accepted (h : Sound K) (hadm : Admitting now K₀ a.reservations K st)
    (hnew : K.records.lookup a.key = none) :
    Sound (acceptedKeyspace a st K) := by
  have hwf := hadm.recordWf
  rw [acceptedKeyspace_eq]
  refine (h.setRecord_new hnew hwf rfl).charges hwf.places ?_
  intro y hy
  obtain ⟨x, hx, rfl⟩ := List.mem_map.mp hy
  have hcap := hadm.capped h (x := x) hx
  exact hcap

/-- An accepted reserve keeps the ledger exact: its fingerprint is new,
so none of its members can be there. -/
theorem Exact.accepted (h : Exact owner K) (hadm : Admitting now K₀ a.reservations K st)
    (hnew : K.records.lookup a.key = none)
    (hown : owner a.fingerprint = a.key) :
    Exact owner (acceptedKeyspace a st K) := by
  have hwf := hadm.recordWf
  have hfresh : ∀ w b n, K.zscore w (durableExpiryMember a.fingerprint b n) = none := by
    intro w b n
    rw [← Option.not_isSome_iff_eq_none]
    intro hsome
    obtain ⟨s, hs⟩ := Option.isSome_iff_exists.mp hsome
    obtain ⟨op, r, x, hr, -, hm, -⟩ := h.backed hs
    have hfpr : a.fingerprint = r.fingerprint := congrArg Member.fingerprint hm
    have hop := h.owned hr
    rw [← hfpr, hown] at hop
    rw [← hop, hnew] at hr
    cases hr
  rw [acceptedKeyspace_eq]
  refine (h.setRecord_new hnew hwf rfl hown).charges (lookup_setRecord_self ..) rfl
    (fun x hx => hx) ?_ hwf.places ?_ ?_
  · intro y hy
    obtain ⟨x, hx, rfl⟩ := List.mem_map.mp hy
    obtain ⟨r, -, e, we, -, rfl⟩ := hadm.passed_of_mem hx
    rfl
  · intro y _
    exact hfresh y.key y.bucket y.amountNano
  · intro y hy
    obtain ⟨x, hx, rfl⟩ := List.mem_map.mp hy
    have hcap := hadm.capped h.toSound (x := x) hx
    exact hcap

end LlmTemporalWorker.Budget
