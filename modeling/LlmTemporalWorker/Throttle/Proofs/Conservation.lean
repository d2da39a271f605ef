/-
The throttle's counters count what was granted and not given back.

The simulation `Sim` says that a counter is live exactly when its
ledger's window is, ends when the window ends and holds the sum of its
charges. What makes a release safe is kept for every live reservation
(`Held`): where a counter's window still ends when the reservation says,
that window lists the reservation's charge; otherwise the window began
later and ends at least a second after, well past the two milliseconds
that a release tolerates, and lists none.

Two things lie outside. The Function compares a release's digest with
the reservation's but not its keys, and the digest separates its fields
by a NUL byte that a scope may hold, so a reservation handed out earlier
under the same id can pass for one with other counters
(`stale_release_lowers_another`). And window ends are stored as JSON
numbers of fourteen digits.
-/
import LlmTemporalWorker.Throttle.Proofs.Counters

namespace LlmTemporalWorker.Throttle

open Lib Budget Admission Pricing

variable {host : Host}

-- ===== limits

/-- A limit that `Acquire` accepts and whose texts and numbers survive:
its scope holds no NUL and its numbers have at most fourteen digits. -/
structure Fit (l : ThrottleLimit) : Prop where
  valid : validateThrottleLimit l = .ok ()
  plain : '\x00' ∉ l.scope.toList
  amount : l.amount < 10 ^ 14
  limit : l.limit < 10 ^ 14

variable {l : ThrottleLimit} {limits : List ThrottleLimit}
  {key : CounterKey} {w : Window} {id : String} {ends : List Nat}
  {r : ThrottleReservation} {ttl holder : Nat} {s : Stored} {K₁ : Keyspace}
  {res : Keyspace × Reply}

theorem Fit.bounds (h : Fit l) : (l.kind = .requests ∨ l.kind = .tokens ∨ l.kind = .concurrency)
      ∧ 0 < l.amount ∧ 0 < l.limit := by
  have hvalid := h.valid
  unfold validateThrottleLimit at hvalid
  split at hvalid
  · cases hvalid
  rename_i hkind
  split at hvalid
  · cases hvalid
  rename_i hnumbers
  simp only [not_or, not_le] at hnumbers
  refine ⟨?_, hnumbers.2.1, hnumbers.2.2.1⟩
  by_contra hnone
  simp only [not_or] at hnone
  exact hkind hnone

theorem nul_notMem_toString (v : Int) : '\x00' ∉ (toString v).toList := by
  have hdigits : ∀ n : Nat, '\x00' ∉ n.repr.toList := by
    intro n hmem
    rw [Nat.toList_repr] at hmem
    have := Nat.isDigit_of_mem_toDigits (by decide) (by decide) hmem
    cases this
  rw [Int.toString_eq_repr, Int.repr_eq_if]
  split
  · exact hdigits _
  intro hmem
  rw [String.toList_append, List.mem_append] at hmem
  rcases hmem with hmem | hmem
  · revert hmem
    decide
  · exact hdigits _ hmem

theorem Fit.fields (h : Fit l) : ∀ f ∈ digestFields host l, '\x00' ∉ f := by
  intro f hf
  simp only [digestFields, List.mem_cons, List.not_mem_nil, or_false] at hf
  rcases hf with rfl | rfl | rfl | rfl | rfl
  · rcases h.bounds.1 with hk | hk | hk <;> rw [hk] <;> decide
  · exact h.plain
  · exact nul_notMem_toString _
  · exact nul_notMem_toString _
  · exact host.durationText_plain _

/-- Limits that fit are told apart by their digest, as far as their
counters go. -/
theorem throttleDigest_key {limits' : List ThrottleLimit}
    (h : ∀ l ∈ limits, Fit l) (h' : ∀ l ∈ limits', Fit l)
    (hdigest : throttleDigest host limits = throttleDigest host limits') :
    limits.map ThrottleLimit.key = limits'.map ThrottleLimit.key := by
  have hfields : ∀ {ls : List ThrottleLimit}, (∀ l ∈ ls, Fit l) →
      ∀ f ∈ ls.flatMap (digestFields host), '\x00' ∉ f := by
    intro ls hls f hf
    obtain ⟨l, hl, hf⟩ := List.mem_flatMap.mp hf
    exact (hls l hl).fields f hf
  have hflat := terminated_inj (hfields h) (hfields h') (congrArg LimitsDigest.text hdigest)
  have hrel := flatMap_inj (n := 5) (by decide) (fun _ => rfl) hflat
  clear hdigest hflat hfields
  induction hrel with
  | nil => rfl
  | @cons l l' ls ls' hl _ ih =>
    have hfit := h l List.mem_cons_self
    have hfit' := h' l' List.mem_cons_self
    simp only [digestFields, List.cons.injEq] at hl
    have hscope : l.scope = l'.scope := String.toList_inj.mp hl.2.1
    have htext : l.kind.text = l'.kind.text := String.toList_inj.mp hl.1
    have hkind : l.kind = l'.kind := by
      rcases hfit.bounds.1 with hk | hk | hk <;>
        rcases hfit'.bounds.1 with hk' | hk' | hk' <;>
        rw [hk, hk'] at htext ⊢ <;> revert htext <;> decide
    rw [List.map_cons, List.map_cons, ih (fun x hx => h x (List.mem_cons_of_mem _ hx))
        (fun x hx => h' x (List.mem_cons_of_mem _ hx))]
    simp only [ThrottleLimit.key, ThrottleLimit.keyDigest, hkind, hscope]

-- ===== reservations

/-- A reservation's text as the Function writes it. -/
def heldText (host : Host) (id : String) (limits : List ThrottleLimit)
    (ends : List Nat) : ThrottleText :=
  ⟨id, throttleDigest host limits, limits.map ThrottleLimit.wire,
    some (ends.map fun (e : Nat) => .plain e)⟩

/-- One counter of a reservation whose window was to end at `e`: the
window it was charged in, or a later one. -/
def HeldLine (L : Ledger) (now holder : Nat) (l : ThrottleLimit) (e : Nat) : Prop :=
  match L.window now l.key with
  | none => e ≤ now
  | some w => (w.ends = e ∧ (w.own holder : Int) = l.amount)
      ∨ (e + 1000 ≤ w.ends ∧ w.own holder = 0)

/-- What is known of a live reservation. -/
structure Held (host : Host) (L : Ledger) (now : Nat) (id : String)
    (s : Stored) (limits : List ThrottleLimit) (ends : List Nat)
    (holder : Nat) : Prop where
  fit : ∀ l ∈ limits, Fit l
  distinct : (limits.map ThrottleLimit.key).Nodup
  text : s.text = some (heldText host id limits ends)
  short : ∀ e ∈ ends, e < 10 ^ 14
  owner : L.holder id = some holder
  lines : List.Forall₂ (HeldLine L now holder) limits ends
  elsewhere : ∀ key, key ∉ limits.map ThrottleLimit.key →
    ∀ w, L.window now key = some w → w.own holder = 0

/-- A reservation that the store may have handed out. -/
def Issued (host : Host) (r : ThrottleReservation) : Prop :=
  ∃ limits : List ThrottleLimit, (∀ l ∈ limits, Fit l) ∧ r.digest = throttleDigest host limits
    ∧ r.limits = limits.map fun l => ⟨l.kind, l.keyDigest, l.amount⟩

/-- The store and its ledger agree. -/
structure Sim (host : Host) (K : Keyspace) (L : Ledger) : Prop where
  counts : ∀ key, Counts K L key
  safe : ∀ key, L.spent K.now key ≤ maxSafe
  short : ∀ key w, L.window K.now key = some w → w.ends < 10 ^ 14
  fresh : ∀ key w, L.windows key = some w → ∀ c ∈ w.charges, c.holder < L.created
  holders : ∀ id h, L.holder id = some h → h < L.created
  apart : ∀ id id' h, L.holder id = some h → L.holder id' = some h → id = id'
  held : ∀ id s, K.stored id = some s →
    ∃ limits ends holder, Held host L K.now id s limits ends holder
  issued : ∀ r ∈ L.issued, Issued host r

theorem Sim.empty (now : Nat) : Sim host (.empty now) .empty where
  counts _ := rfl
  safe _ := Nat.zero_le _
  short _ _ h := nomatch h
  fresh _ _ h := nomatch h
  holders _ _ h := nomatch h
  apart _ _ _ h := nomatch h
  held _ _ h := nomatch h
  issued _ h := nomatch h

variable {K : Keyspace} {L : Ledger}

/-- The value of a counter, zero when there is none. -/
def Keyspace.value (K : Keyspace) (key : CounterKey) : Int :=
  ((K.counter key).map Counter.value).getD 0

theorem Counts.value (h : Counts K L key) : K.value key = L.spent K.now key := by
  unfold Keyspace.value Ledger.spent
  rw [h]
  cases L.window K.now key with
  | none | some => rfl

theorem Counts.pttl_some (h : Counts K L key) (hw : L.window K.now key = some w) :
    K.pttl key = (w.ends : Int) - K.now := by
  unfold Keyspace.pttl
  rw [h, hw]
  rfl

-- ===== time advances

theorem window_later {now millis : Nat} (h : L.window (now + millis) key = some w) :
    L.window now key = some w := by
  obtain ⟨hw, hlive⟩ := Ledger.window_eq_some.mp h
  exact Ledger.window_eq_some.mpr ⟨hw, by omega⟩

theorem counter_later {millis : Nat} (key : CounterKey) :
    ({ K with now := K.now + millis } : Keyspace).counter key = (K.counter key).filter fun c =>
        c.expires.all (K.now + millis < ·) := by
  show (K.counters key).filter _ = ((K.counters key).filter _).filter _
  rw [Option.filter_filter]
  congr 1
  funext c
  cases c.expires with
  | none => rfl
  | some e =>
    show decide (K.now + millis < e) = (decide (K.now < e) && decide (K.now + millis < e))
    by_cases h : K.now + millis < e
    · have : K.now < e := by omega
      simp [h, this]
    · simp [h]

/-- How the window of a counter may go on while another reservation is
created or released or time passes: it keeps the holder's charges until it
ends, and a new one begins a second or more before its end. -/
def GoesOn (holder now now' : Nat) : Option Window → Option Window → Prop
  | none, none => True
  | none, some w' => now + 1000 ≤ w'.ends ∧ w'.own holder = 0
  | some w, some w' => w'.ends = w.ends ∧ w'.own holder = w.own holder
  | some w, none => w.ends ≤ now'

theorem GoesOn.refl {now now' : Nat} (w : Option Window) : GoesOn holder now now' w w := by
  cases w with
  | none => trivial
  | some w => exact ⟨rfl, rfl⟩

/-- A held reservation stays held while its windows go on. -/
theorem Held.goesOn {L' : Ledger} {now now' : Nat} (held : Held host L now id s limits ends holder)
    (howner : L'.holder id = some holder) (hnow : now ≤ now')
    (h : ∀ key, GoesOn holder now now' (L.window now key) (L'.window now' key)) :
    Held host L' now' id s limits ends holder where
  fit := held.fit
  distinct := held.distinct
  text := held.text
  short := held.short
  owner := howner
  lines := held.lines.imp fun l e hline => by
    have hkey := h l.key
    unfold HeldLine at hline ⊢
    generalize L.window now l.key = w at hline hkey
    generalize L'.window now' l.key = w' at hkey ⊢
    match w, w', hline, hkey with
    | none, none, hline, _ => exact hline.trans hnow
    | none, some w', (hline : e ≤ now), hkey => exact .inr ⟨by have := hkey.1; omega, hkey.2⟩
    | some w, none, hline, (hkey : w.ends ≤ now') =>
      show e ≤ now'
      rcases hline with ⟨hends, -⟩ | ⟨hends, -⟩ <;> omega
    | some w, some w', hline, hkey =>
      dsimp only at hline ⊢
      rw [hkey.1, hkey.2]
      exact hline
  elsewhere key hkey w' hw' := by
    have hgoes := h key
    rw [hw'] at hgoes
    cases hw : L.window now key with
    | none =>
      rw [hw] at hgoes
      exact hgoes.2
    | some w =>
      rw [hw] at hgoes
      exact hgoes.2.trans (held.elsewhere key hkey w hw)

theorem Sim.advance (h : Sim host K L) (millis : Nat) :
    Sim host { K with now := K.now + millis } L where
  counts key := by
    show ({ K with now := K.now + millis } : Keyspace).counter key
      = (L.window (K.now + millis) key).map Window.counter
    rw [counter_later, h.counts key]
    unfold Ledger.window
    cases L.windows key with
    | none => rfl
    | some w =>
      by_cases h₁ : K.now < w.ends
      · by_cases h₂ : K.now + millis < w.ends
        · simp [Option.filter_some, h₁, h₂, Window.counter]
        · simp [Option.filter_some, h₁, h₂, Window.counter]
      · have h₂ : ¬K.now + millis < w.ends := by omega
        simp [Option.filter_some, h₁, h₂]
  safe key := by
    refine le_trans ?_ (h.safe key)
    unfold Ledger.spent
    cases hw : L.window (K.now + millis) key with
    | none => exact Nat.zero_le _
    | some w => rw [window_later hw]
  short key w hw := h.short key w (window_later hw)
  fresh := h.fresh
  holders := h.holders
  apart := h.apart
  held id s hs := by
    have hs' : K.stored id = some s := by
      obtain ⟨hres, hlive⟩ := Option.filter_eq_some_iff.mp hs
      refine Option.filter_eq_some_iff.mpr ⟨hres, ?_⟩
      have hlive : K.now + millis < s.expires := of_decide_eq_true hlive
      exact decide_eq_true (by omega)
    obtain ⟨limits, ends, holder, held⟩ := h.held id s hs'
    refine ⟨limits, ends, holder, held.goesOn held.owner (Nat.le_add_right _ _) fun key => ?_⟩
    cases hw : L.window (K.now + millis) key with
    | some w =>
      rw [window_later hw]
      exact .refl _
    | none =>
      cases hw' : L.window K.now key with
      | none => trivial
      | some w =>
        -- the window has ended
        show w.ends ≤ K.now + millis
        by_contra hlive
        rw [Ledger.window_eq_some.mpr ⟨(Ledger.window_eq_some.mp hw').1, by omega⟩] at hw
        cases hw
  issued := h.issued

-- ===== numbers

theorem luaNumber_plain {v : Int} (h : v.natAbs < 10 ^ 14) : luaNumber (.plain v) = v :=
  luaDouble_of_le (by omega)

theorem cjsonLiteral_small {v : Int} (h : v.natAbs < 10 ^ 14) : cjsonLiteral v = .plain v :=
  if_pos h

theorem Fit.wire (h : Fit l) : l.wire.map luaNumber = l.lua ∧ l.lua.map cjsonLiteral = l.wire := by
  obtain ⟨-, hamount, hlimit⟩ := h.bounds
  have ha : l.amount.natAbs < 10 ^ 14 := by
    have := h.amount
    omega
  have hl : l.limit.natAbs < 10 ^ 14 := by
    have := h.limit
    omega
  simp only [ThrottleLimit.wire, ThrottleLimit.lua, ThrottleWireLimit.map,
    luaNumber_plain ha, luaNumber_plain hl, cjsonLiteral_small ha,
    cjsonLiteral_small hl, and_self]

/-- The Function reads a limit's numbers. -/
theorem Fit.integers (h : Fit l) :
    integer l.amount = some l.amount.toNat ∧ integer l.limit = some l.limit.toNat := by
  obtain ⟨-, hamount, hlimit⟩ := h.bounds
  have hsmall : (10 : Int) ^ 14 ≤ maxSafe := by decide
  have hsafe : ∀ {v : Int}, 0 < v → v < 10 ^ 14 → integer v = some v.toNat := fun hpos hlt =>
    durableInt_eq_some.mpr ⟨by omega, by omega⟩
  exact ⟨hsafe hamount h.amount, hsafe hlimit h.limit⟩

theorem map_wire (h : ∀ l ∈ limits, Fit l) :
    (limits.map ThrottleLimit.wire).map (ThrottleWireLimit.map luaNumber)
        = limits.map ThrottleLimit.lua
      ∧ (limits.map ThrottleLimit.lua).map (ThrottleWireLimit.map cjsonLiteral)
        = limits.map ThrottleLimit.wire := by
  simp only [List.map_map]
  exact ⟨List.map_congr_left fun l hl => (h l hl).wire.1,
    List.map_congr_left fun l hl => (h l hl).wire.2⟩

/-- The Function reads a held reservation as it was written. -/
theorem heldText_read (hfit : ∀ l ∈ limits, Fit l) (hshort : ∀ e ∈ ends, e < 10 ^ 14) :
    (heldText host id limits ends).map luaNumber
      = ⟨id, throttleDigest host limits, limits.map ThrottleLimit.lua,
        some (ends.map fun (e : Nat) => (e : Int))⟩ := by
  simp only [heldText, ThrottleWire.map, (map_wire hfit).1, Option.map_some, List.map_map]
  congr 2
  refine List.map_congr_left ?_
  intro e he
  exact luaNumber_plain (by simpa using hshort e he)

/-- A reservation decoded from a held text was handed out. -/
theorem issued_of_decode (hfit : ∀ l ∈ limits, Fit l)
    (h : decodeThrottleReservation (heldText host id limits ends) = .ok r) : Issued host r := by
  obtain ⟨decoded, hdecoded, h⟩ := bind_ok h
  obtain ⟨-, h⟩ := refusal_ok h
  obtain ⟨-, h⟩ := refusal_ok h
  cases h
  refine ⟨limits, hfit, rfl, ?_⟩
  have hrel := mapM_ok hdecoded
  have hall : List.Forall₂ (fun l (d : ThrottleReservationLimit) =>
      d = ⟨l.kind, l.keyDigest, l.amount⟩) limits decoded := by
    rw [heldText, List.forall₂_map_left_iff] at hrel
    refine hrel.imp ?_
    intro l d hd
    obtain ⟨amount, hamount, hd⟩ := bind_ok hd
    obtain ⟨_, -, hd⟩ := bind_ok hd
    cases hd
    have hgo : goInt64 (.plain l.amount) = .ok amount := hamount
    simp only [goInt64] at hgo
    split at hgo
    · cases hgo
      rfl
    · cases hgo
  exact forall₂_map_eq hall.flip fun h => h

-- ===== acquire

/-- The limits that `Acquire` submits are valid and distinct. -/
theorem acquireLoop_ok {seen : List KeyDigest} {start ttl : Int}
    (h : acquireLoop seen start limits = .ok ttl) :
    (limits.map ThrottleLimit.keyDigest).Nodup
      ∧ ∀ l ∈ limits, validateThrottleLimit l = .ok () ∧ l.keyDigest ∉ seen := by
  induction limits generalizing seen start with
  | nil =>
    cases h
    exact ⟨List.nodup_nil, nofun⟩
  | cons l rest ih =>
    obtain ⟨_, hvalid, h⟩ := bind_ok h
    obtain ⟨hseen, h⟩ := refusal_ok h
    obtain ⟨hnodup, hrest⟩ := ih h
    constructor
    · rw [List.map_cons, List.nodup_cons]
      refine ⟨?_, hnodup⟩
      intro hmem
      obtain ⟨l', hl', hsame⟩ := List.mem_map.mp hmem
      exact (hrest l' hl').2 (hsame ▸ List.mem_cons_self)
    · intro l' hl'
      rcases List.mem_cons.mp hl' with rfl | hl'
      · exact ⟨hvalid, hseen⟩
      · obtain ⟨hvalid', hnew⟩ := hrest l' hl'
        exact ⟨hvalid', fun hm => hnew (List.mem_cons_of_mem _ hm)⟩

theorem nodup_key (h : (limits.map ThrottleLimit.keyDigest).Nodup) :
    (limits.map ThrottleLimit.key).Nodup := by
  refine List.Nodup.of_map CounterKey.digest ?_
  rw [List.map_map]
  exact h

theorem refusal_ne {limit : ThrottleWireLimit Int} {status : Status}
    (h : refusal K key limit = some status) : status ≠ .created ∧ status ≠ .existing := by
  unfold refusal at h
  split at h
  · cases h
    decide
  split at h
  · cases h
    decide
  dsimp only at h
  split at h
  · cases h
    decide
  split at h
  · cases h
    decide
  · cases h

/-- The first loop answers the first refusal. -/
theorem checkLimits_eq (lines : List (CounterKey × ThrottleWireLimit Int)) :
    checkLimits K lines = lines.findSome? fun x => refusal K x.1 x.2 := by
  induction lines with
  | nil => rfl
  | cons head rest ih =>
    rw [checkLimits, List.findSome?_cons, ih]
    cases refusal K head.1 head.2 <;> rfl

/-- A limit that is not refused has room under its limit. -/
theorem room_of_refusal (h : Sim host K L) (hfit : Fit l)
    (hrefusal : refusal K l.key l.lua = none) :
    Room L K.now l ∧ (L.spent K.now l.key : Int) + l.amount ≤ l.limit := by
  obtain ⟨-, hamount, hlimit⟩ := hfit.bounds
  obtain ⟨ha, hl⟩ := hfit.integers
  have hparsed : ((K.counter l.key).bind (integer ·.value)).getD 0 = L.spent K.now l.key := by
    have hsafe := h.safe l.key
    rw [h.counts l.key]
    unfold Ledger.spent at hsafe ⊢
    cases hw : L.window K.now l.key with
    | none => rfl
    | some w =>
      rw [hw] at hsafe
      rw [Option.map_some, Option.bind_some,
        show integer w.counter.value = some w.spent from
          durableInt_eq_some.mpr ⟨rfl, hsafe⟩]
      rfl
  have hsmall : (10 : Int) ^ 14 ≤ maxSafe := by decide
  dsimp only [refusal, ThrottleLimit.lua] at hrefusal
  rw [ha] at hrefusal
  dsimp only at hrefusal
  rw [if_neg (by omega), hparsed, hl] at hrefusal
  split at hrefusal
  · cases hrefusal
  split at hrefusal
  · cases hrefusal
  rename_i hunder
  simp only [Option.any_some, decide_eq_true_eq, not_lt] at hunder
  have := hfit.amount
  exact ⟨⟨hamount, by omega⟩, by omega⟩

/-- When the windows end in which limits are charged. -/
def Ledger.chargedEnds (L : Ledger) (now ttl : Nat) (limits : List ThrottleLimit) : List Nat :=
  limits.map fun l => (L.grown now ttl l.line).ends

/-- What `Acquire` submits. -/
def acquirePayload (host : Host) (id : String) (limits : List ThrottleLimit) : ThrottleText :=
  ⟨id, throttleDigest host limits, limits.map ThrottleLimit.wire, none⟩

theorem grown_short (h : Sim host K L)
    (hshort : K.now + ttl * 1000 < 10 ^ 14) (line : CounterKey × Nat) :
    (L.grown K.now ttl line).ends < 10 ^ 14 := by
  unfold Ledger.grown
  split
  · exact hshort
  · rename_i w hw
    exact h.short line.1 w hw

/-- What an acquire that charges its limits leaves and answers. -/
structure Created (host : Host) (K : Keyspace) (L : Ledger) (id : String)
    (limits : List ThrottleLimit) (ttl : Nat) (K₁ : Keyspace)
    (res : Keyspace × Reply) : Prop where
  positive : 0 < ttl
  room : ∀ l ∈ limits, Room L K.now l ∧ (L.spent K.now l.key : Int) + l.amount ≤ l.limit
  now : K₁.now = K.now
  reservations : K₁.reservations = K.reservations
  counts : ∀ key, Counts K₁ ((limits.map ThrottleLimit.line).foldl (Ledger.charge K.now ttl) L) key
  answer : res = (K₁.setReservation id (some ⟨some (heldText host id limits
      (L.chargedEnds K.now ttl limits)), K.now + ttl * 1000⟩),
    ⟨.created, some (heldText host id limits (L.chargedEnds K.now ttl limits))⟩)

/-- What an acquire that finds its reservation, or refuses, leaves and
answers. -/
structure Leaves (K : Keyspace) (id : String) (res : Keyspace × Reply) :
    Prop where
  same : res.1 = K
  answer : res.2.status ≠ .created
  existing : res.2.status = .existing → ∃ s, K.stored id = some s ∧ res.2.record = s.text

theorem leaves_bare {status : Status} (h : status ≠ .created ∧ status ≠ .existing) :
    Leaves K id (K, .bare status) :=
  ⟨rfl, h.1, fun hexisting => absurd hexisting h.2⟩

/-- An acquire under the id of a live reservation leaves the keyspace. -/
theorem actionAcquire_live {keys : List CounterKey} {incoming : Option ThrottleText} {ttl : Int}
    (hs : K.stored id = some s) : Leaves K id (actionAcquire ⟨id, keys, incoming, ttl⟩ K) := by
  unfold actionAcquire reservation
  split
  · exact leaves_bare (by decide)
  rw [hs]
  dsimp only
  cases htext : s.text with
  | none => exact leaves_bare (by decide)
  | some text =>
    dsimp only
    split
    · exact leaves_bare (by decide)
    · exact ⟨rfl, fun h => (nomatch h), fun _ => ⟨s, hs, htext.symm⟩⟩

/-- An acquire leaves the keyspace, finding the reservation or refusing,
or finds none and charges every limit. -/
theorem actionAcquire_cases (h : Sim host K L) {ttl : Int} (hfit : ∀ l ∈ limits, Fit l)
    (hnodup : (limits.map ThrottleLimit.key).Nodup)
    (hshort : K.now + ttl.toNat * 1000 < 10 ^ 14) :
    let res := actionAcquire ⟨id, limits.map ThrottleLimit.key,
      some (acquirePayload host id limits), ttl⟩ K
    Leaves K id res ∨ ∃ K₁, Created host K L id limits ttl.toNat K₁ res := by
  cases hstored : K.stored id with
  | some s => exact .inl (actionAcquire_live hstored)
  | none =>
    simp only [actionAcquire, reservation, hstored, acquirePayload, ThrottleWire.map,
      (map_wire hfit).1, Option.map_none, List.zip_map']
    split
    · exact .inl (leaves_bare (by decide))
    split
    · exact .inl (leaves_bare (by decide))
    rename_i t ht
    obtain ⟨rfl, -⟩ := durableInt_eq_some.mp ht
    split
    · exact .inl (leaves_bare (by decide))
    rename_i hpos
    have hpos : 0 < t := Nat.pos_of_ne_zero hpos
    rw [checkLimits_eq]
    split
    · rename_i status hstatus
      obtain ⟨_, -, hrefusal⟩ := List.exists_of_findSome?_eq_some hstatus
      exact .inl (leaves_bare (refusal_ne hrefusal))
    · rename_i hcheck
      have hroom : ∀ l ∈ limits, Room L K.now l
          ∧ (L.spent K.now l.key : Int) + l.amount ≤ l.limit := fun l hl =>
        room_of_refusal h (hfit l hl)
          (List.findSome?_eq_none_iff.mp hcheck _ (List.mem_map_of_mem hl))
      obtain ⟨K₁, hcharge, hnow, hres, hcounts⟩ :=
        chargeLimits_spec hpos hnodup (fun l hl => (hroom l hl).1) h.counts
      refine .inr ⟨K₁, hpos, hroom, hnow, hres, hcounts, ?_⟩
      have hends : (limits.map fun l =>
          ((L.grown K.now t l.line).ends : Int)).map cjsonLiteral
          = (L.chargedEnds K.now t limits).map fun (e : Nat) => .plain e := by
        simp only [Ledger.chargedEnds, List.map_map]
        refine List.map_congr_left fun l _ => ?_
        exact cjsonLiteral_small (by simpa using grown_short h hshort l.line)
      rw [hcharge]
      simp only [Bool.not_true, Bool.false_eq_true, if_false, hnow, (map_wire hfit).2,
        Option.map_some, hends, heldText, Int.toNat_natCast]

-- ===== a new reservation

/-- Charges are made in the name of the reservation being created. -/
theorem fresh_foldl (now : Nat) {bound : Nat} {lines : List (CounterKey × Nat)}
    (hbound : L.created < bound)
    (h : ∀ key w, L.windows key = some w → ∀ c ∈ w.charges, c.holder < bound) :
    ∀ key w, (lines.foldl (Ledger.charge now ttl) L).windows key = some w →
      ∀ c ∈ w.charges, c.holder < bound := by
  induction lines generalizing L with
  | nil => exact h
  | cons line rest ih =>
    refine ih (L := L.charge now ttl line) hbound fun key w hw c hc => ?_
    have hw : Function.update L.windows line.1 (some (L.grown now ttl line)) key = some w := hw
    by_cases hkey : key = line.1
    · subst hkey
      rw [Function.update_self] at hw
      cases hw
      unfold Ledger.grown at hc
      split at hc
      · rw [List.mem_singleton.mp hc]
        exact hbound
      rename_i w hw
      rcases List.mem_cons.mp hc with rfl | hc
      · exact hbound
      · exact h _ w (Ledger.window_eq_some.mp hw).1 c hc
    · rw [Function.update_of_ne hkey] at hw
      exact h key w hw c hc

theorem stored_setReservation (id' : String) {new : Option Stored} (hnow : K₁.now = K.now)
    (hres : K₁.reservations = K.reservations) :
    (K₁.setReservation id new).stored id' = if id' = id then new.filter fun s => K.now < s.expires
        else K.stored id' := by
  unfold Keyspace.stored Keyspace.setReservation
  rw [hnow, hres]
  by_cases h : id' = id
  · subst h
    simp
  · simp [h]

theorem own_fresh (h : Sim host K L) (hw : L.window K.now key = some w) : w.own L.created = 0 :=
  Window.own_eq_zero fun c hc =>
    Nat.ne_of_lt (h.fresh key w (Ledger.window_eq_some.mp hw).1 c hc)

section Creates

variable (h : Sim host K L) (hfit : ∀ l ∈ limits, Fit l)
  (hnodup : (limits.map ThrottleLimit.key).Nodup)

include hnodup

theorem window_record (now : Nat) (httl : 0 < ttl) (L : Ledger) (id : String) :
    (∀ l ∈ limits, (L.record now ttl id (limits.map ThrottleLimit.line)).window now l.key
        = some (L.grown now ttl l.line))
      ∧ ∀ key, key ∉ limits.map ThrottleLimit.key →
        (L.record now ttl id (limits.map ThrottleLimit.line)).window now key = L.window now key :=
  Ledger.window_foldl_charge httl hnodup L

/-- What a new reservation leaves of another's window. -/
theorem goesOn_record (now : Nat) (httl : 0 < ttl) (id : String) (hother : holder ≠ L.created)
    (key : CounterKey) :
    GoesOn holder now now (L.window now key)
      ((L.record now ttl id (limits.map ThrottleLimit.line)).window now key) := by
  obtain ⟨hin, hout⟩ := window_record hnodup now httl L id
  by_cases hkey : key ∈ limits.map ThrottleLimit.key
  · obtain ⟨l, hl, rfl⟩ := List.mem_map.mp hkey
    have hown := Ledger.own_grown L now ttl l.line holder
    rw [if_neg hother, Nat.zero_add] at hown
    rw [hin l hl]
    have hends : (L.grown now ttl l.line).ends
        = ((L.window now l.key).map Window.ends).getD (now + ttl * 1000) := by
      show Window.ends (match L.window now l.key with | none => _ | some w => _) = _
      cases L.window now l.key <;> rfl
    have hown : _ = ((L.window now l.key).map (Window.own · holder)).getD 0 := hown
    cases hw : L.window now l.key with
    | none =>
      rw [hw] at hown hends
      have hends : _ = now + ttl * 1000 := hends
      exact ⟨by omega, hown⟩
    | some w =>
      rw [hw] at hown hends
      exact ⟨hends, hown⟩
  · rw [hout key hkey]
    exact .refl _

variable (hshort : K.now + ttl * 1000 < 10 ^ 14)
  (hcreated : Created host K L id limits ttl K₁ res)

include h hfit hshort hcreated

/-- A created reservation is held. -/
theorem Created.held
    (hs : s.text = some (heldText host id limits (L.chargedEnds K.now ttl limits))) :
    Held host (L.record K.now ttl id (limits.map ThrottleLimit.line)) K.now id s limits
      (L.chargedEnds K.now ttl limits) L.created := by
  obtain ⟨hin, hout⟩ := window_record hnodup K.now hcreated.positive L id
  refine ⟨hfit, hnodup, hs, ?_, ?_, ?_, ?_⟩
  · exact List.forall_mem_map.mpr fun l _ => grown_short h hshort l.line
  · rw [(L.record_frame K.now ttl id _).2.1, Function.update_self]
  · rw [Ledger.chargedEnds, List.forall₂_map_right_iff]
    refine List.forall₂_same.mpr fun l hl => ?_
    rw [HeldLine, hin l hl]
    refine .inl ⟨rfl, ?_⟩
    have hpos := (hcreated.room l hl).1.1
    have hrest : ((L.window K.now l.line.1).map (Window.own · L.created)).getD 0 = 0 := by
      cases hold : L.window K.now l.line.1 with
      | none => rfl
      | some w => exact own_fresh h hold
    rw [Ledger.own_grown, if_pos rfl, hrest]
    show ((l.amount.toNat + 0 : Nat) : Int) = l.amount
    omega
  · intro key hkey w hw
    rw [hout key hkey] at hw
    exact own_fresh h hw

/-- The store and its ledger agree after a reservation is created, and
its counters keep their limits. -/
theorem Created.sim : Sim host res.1 (L.record K.now ttl id (limits.map ThrottleLimit.line))
      ∧ ∀ l ∈ limits, res.1.value l.key ≤ l.limit := by
  obtain ⟨hin, hout⟩ := window_record hnodup K.now hcreated.positive L id
  obtain ⟨hnumber, hholder, hissued⟩ := L.record_frame K.now ttl id (limits.map ThrottleLimit.line)
  have hnow : res.1.now = K.now := by
    rw [hcreated.answer]
    exact hcreated.now
  have hcounts : ∀ key, Counts res.1
      (L.record K.now ttl id (limits.map ThrottleLimit.line)) key := by
    rw [hcreated.answer]
    exact hcreated.counts
  -- a charged counter has its grown window, any other the one it had
  have hspent : ∀ l ∈ limits, (L.record K.now ttl id (limits.map ThrottleLimit.line)).spent K.now
        l.key = L.spent K.now l.key + l.amount.toNat := by
    intro l hl
    rw [Ledger.spent, hin l hl]
    exact Ledger.spent_grown
  -- a holder is the new one or an old one
  have hholds : ∀ {id' holder}, (L.record K.now ttl id (limits.map ThrottleLimit.line)).holder id'
      = some holder → id' = id ∧ holder = L.created ∨ id' ≠ id ∧ L.holder id' = some holder := by
    intro id' holder hid'
    rw [hholder] at hid'
    by_cases hsame : id' = id
    · rw [hsame, Function.update_self] at hid'
      exact .inl ⟨hsame, (Option.some.inj hid').symm⟩
    · rw [Function.update_of_ne hsame] at hid'
      exact .inr ⟨hsame, hid'⟩
  have hvalue : ∀ l ∈ limits, res.1.value l.key ≤ l.limit := by
    intro l hl
    rw [(hcounts l.key).value, hnow, hspent l hl]
    have := (hcreated.room l hl).2
    have := (hcreated.room l hl).1.1
    omega
  refine ⟨⟨hcounts, ?_, ?_, ?_, ?_, ?_, ?_, ?_⟩, hvalue⟩
  · intro key
    rw [hnow]
    by_cases hkey : key ∈ limits.map ThrottleLimit.key
    · obtain ⟨l, hl, rfl⟩ := List.mem_map.mp hkey
      have := (hcreated.room l hl).1
      rw [hspent l hl]
      unfold Room at this
      omega
    · rw [Ledger.spent, hout key hkey]
      exact h.safe key
  · intro key w hw
    rw [hnow] at hw
    by_cases hkey : key ∈ limits.map ThrottleLimit.key
    · obtain ⟨l, hl, rfl⟩ := List.mem_map.mp hkey
      rw [hin l hl] at hw
      cases hw
      exact grown_short h hshort l.line
    · rw [hout key hkey] at hw
      exact h.short key w hw
  · rw [hnumber]
    refine fresh_foldl K.now (Nat.lt_succ_self _) fun key w hw c hc => ?_
    exact Nat.lt_succ_of_lt (h.fresh key w hw c hc)
  · intro id' holder hid'
    rw [hnumber]
    rcases hholds hid' with ⟨-, rfl⟩ | ⟨-, hold⟩
    · exact Nat.lt_succ_self _
    · exact Nat.lt_succ_of_lt (h.holders id' holder hold)
  · intro id₁ id₂ holder h₁ h₂
    rcases hholds h₁ with ⟨rfl, rfl⟩ | ⟨-, h₁⟩
    · rcases hholds h₂ with ⟨rfl, -⟩ | ⟨-, h₂⟩
      · rfl
      · exact absurd (h.holders id₂ _ h₂) (Nat.lt_irrefl _)
    · rcases hholds h₂ with ⟨-, rfl⟩ | ⟨-, h₂⟩
      · exact absurd (h.holders id₁ _ h₁) (Nat.lt_irrefl _)
      · exact h.apart id₁ id₂ holder h₁ h₂
  · intro id' s hs
    rw [hnow]
    rw [hcreated.answer] at hs
    rw [stored_setReservation id' hcreated.now hcreated.reservations] at hs
    by_cases hsame : id' = id
    · rw [if_pos hsame] at hs
      obtain ⟨hs, -⟩ := Option.filter_eq_some_iff.mp hs
      cases hs
      subst hsame
      exact ⟨limits, _, L.created, hcreated.held h hfit hnodup hshort rfl⟩
    · rw [if_neg hsame] at hs
      obtain ⟨limits', ends', holder', held⟩ := h.held id' s hs
      refine ⟨limits', ends', holder', held.goesOn ?_ le_rfl (goesOn_record hnodup K.now
        hcreated.positive id (Nat.ne_of_lt (h.holders id' holder' held.owner)))⟩
      rw [hholder, Function.update_of_ne hsame]
      exact held.owner
  · rw [hissued]
    exact h.issued

end Creates

/-- Handing out a reservation changes no counter. -/
theorem Sim.issue (h : Sim host K L)
    {returned : Except String ThrottleReservation}
    (hreturned : ∀ r, returned = .ok r → Issued host r) :
    Sim host K (L.issue returned) := by
  cases returned with
  | error e => exact h
  | ok r =>
    refine ⟨h.counts, h.safe, h.short, h.fresh, h.holders, h.apart, ?_, ?_⟩
    · intro id s hs
      obtain ⟨limits, ends, holder, held⟩ := h.held id s hs
      exact ⟨limits, ends, holder, held.goesOn held.owner le_rfl fun _ => .refl _⟩
    · intro r' hr'
      rcases List.mem_cons.mp hr' with rfl | hr'
      · exact hreturned _ rfl
      · exact h.issued r' hr'

-- ===== release

/-- A release lowers a counter of its reservation where the counter's
window is the one that the reservation was charged in. -/
theorem HeldLine.sameWindow {e : Nat} (hcount : Counts K L l.key)
    (hline : HeldLine L K.now holder l e) (hw : L.window K.now l.key = some w) :
    sameWindow K l.key e = true ↔ w.ends = e := by
  have hlive := (Ledger.window_eq_some.mp hw).2
  rw [HeldLine, hw] at hline
  rw [Throttle.sameWindow, hcount.pttl_some hw, Bool.and_eq_true, decide_eq_true_eq,
    decide_eq_true_eq]
  omega

theorem isSome_of_sameWindow {e : Int} (h : sameWindow K key e = true) :
    (K.counter key).isSome := by
  cases hc : K.counter key with
  | some c => rfl
  | none =>
    rw [sameWindow, Keyspace.pttl, hc] at h
    cases (Bool.and_eq_true_iff.mp h).1

section Released

variable {now holder : Nat} {id : String}

theorem window_release (howner : L.holder id = some holder) (now : Nat) (key : CounterKey) :
    (L.release id).window now key = (L.window now key).map (Window.without · holder) := by
  unfold Ledger.release
  rw [howner]
  show ((L.windows key).map _).filter _ = ((L.windows key).filter _).map _
  cases L.windows key with
  | none => rfl
  | some w =>
    by_cases hlive : now < w.ends
    · simp [Option.filter_some, Window.without, hlive]
    · simp [Option.filter_some, Window.without, hlive]

theorem release_frame (howner : L.holder id = some holder) :
    (L.release id).created = L.created ∧ (L.release id).holder = L.holder
      ∧ (L.release id).issued = L.issued
      ∧ ∀ key, (L.release id).windows key = (L.windows key).map (Window.without · holder) := by
  unfold Ledger.release
  rw [howner]
  exact ⟨rfl, rfl, rfl, fun _ => rfl⟩

/-- A release lowers what is charged to a window by its own charges. -/
theorem Ledger.spent_release (now : Nat) (id : String) (key : CounterKey) :
    ((L.release id).spent now key : Int) = (L.spent now key : Int) - (L.own now id key : Nat) := by
  unfold Ledger.own
  cases howner : L.holder id with
  | none =>
    unfold Ledger.release
    rw [howner]
    simp
  | some holder =>
    unfold Ledger.spent
    rw [window_release howner]
    cases L.window now key with
    | none => rfl
    | some w =>
      have := w.spent_without holder
      show ((w.without holder).spent : Int) = (w.spent : Int) - (w.own holder : Nat)
      omega

/-- A held reservation stays held when another is released. -/
theorem Held.release {id' : String} {s : Stored}
    {limits : List ThrottleLimit} {ends : List Nat} {holder' : Nat}
    (held : Held host L now id' s limits ends holder')
    (howner : L.holder id = some holder) (hne : holder' ≠ holder) :
    Held host (L.release id) now id' s limits ends holder' := by
  refine held.goesOn ?_ le_rfl fun key => ?_
  · rw [(release_frame howner).2.1]
    exact held.owner
  · rw [window_release howner]
    cases L.window now key with
    | none => trivial
    | some w => exact ⟨rfl, Window.own_without w hne⟩

end Released

/-- The keys and arguments that `Release` derives from the limits it was
given. -/
def releaseLines (limits : List ThrottleLimit) : List (CounterKey × Int) :=
  limits.map fun l => (l.key, l.amount)

/-- The window ends that the Function keeps. -/
def luaEnds (ends : List Nat) : Option (List Int) :=
  some (ends.map fun (e : Nat) => (e : Int))

/-- A release that passes its checks lowers the counters of the limits
that the Function keeps, by the amounts that it keeps. -/
theorem marks_zip {R : ThrottleLimit → Nat → Prop} {limits' : List ThrottleLimit}
    {all : List Int} {index : Nat} (hrel : List.Forall₂ R limits ends)
    (hall : all.drop index = ends.map fun (e : Nat) => (e : Int))
    (hkeys : limits.map ThrottleLimit.key = limits'.map ThrottleLimit.key)
    (hamounts : ∀ x ∈ (limits.map ThrottleLimit.lua).zip (releaseLines limits'),
      x.2.2 = x.1.amount) :
    (marks K (some all) index ((limits.map ThrottleLimit.lua).zip (releaseLines limits'))).zip
        (releaseLines limits')
      = (limits.zip ends).map fun x => (sameWindow K x.1.key x.2, x.1.key, x.1.amount) := by
  induction hrel generalizing index limits' with
  | nil => rfl
  | @cons l e limits ends _ _ ih =>
    obtain ⟨l', rest, rfl⟩ := List.exists_cons_of_ne_nil (l := limits') (by
      rintro rfl
      cases hkeys)
    rw [List.map_cons, List.map_cons, List.cons.injEq] at hkeys
    obtain ⟨hamount, hamounts⟩ := List.forall_mem_cons.mp hamounts
    have hamount : l'.amount = l.amount := hamount
    have hend : all[index]? = some (e : Int) := by
      rw [← List.head?_drop, hall]
      rfl
    have hrest : all.drop (index + 1) = ends.map fun (e : Nat) => (e : Int) := by
      rw [← List.tail_drop, hall]
      rfl
    simp only [releaseLines, List.map_cons, List.zip_cons_cons, marks, chargedHere, hend,
      ← hkeys.1, hamount]
    exact congrArg _ (ih hrest hkeys.2 hamounts)

theorem Window.counter_without_of_zero (hown : w.own holder = 0) :
    (w.without holder).counter = w.counter := by
  have hspent := w.spent_without holder
  rw [hown, Nat.add_zero] at hspent
  unfold Window.counter
  rw [hspent]
  rfl

/-- The lowered counters count the windows without the released
charges. -/
theorem counts_release {limits' : List ThrottleLimit} {charged : List Bool} (h : Sim host K L)
    (held : Held host L K.now id s limits ends holder)
    (hkeys : limits.map ThrottleLimit.key = limits'.map ThrottleLimit.key)
    (hcheck : checkRelease K (luaEnds ends) 0
      ((limits.map ThrottleLimit.lua).zip (releaseLines limits')) = .ok charged) :
    let K₁ := lowerCounters (charged.zip (releaseLines limits')) K
    K₁.now = K.now ∧ K₁.reservations = K.reservations
      ∧ ∀ key, K₁.counter key = ((L.window K.now key).map
        (Window.without · holder)).map Window.counter := by
  obtain ⟨rfl, hamounts⟩ := checkRelease_ok hcheck
  obtain ⟨hlength, hlines⟩ := List.forall₂_iff_zip.mp held.lines
  have hfst : ((limits.zip ends).map fun x =>
      (sameWindow K x.1.key x.2, x.1.key, x.1.amount)).map (fun x => x.2.1)
      = limits.map ThrottleLimit.key := by
    rw [List.map_map, ← List.map_fst_zip hlength.le, List.map_map, List.map_fst_zip hlength.le]
    rfl
  obtain ⟨hnow, hres, hin, hout⟩ := lowerCounters_spec (hfst ▸ held.distinct)
    (List.forall_mem_map.mpr fun x _ => isSome_of_sameWindow)
  rw [luaEnds, marks_zip held.lines rfl hkeys hamounts]
  refine ⟨hnow, hres, fun key => ?_⟩
  have hcount : K.counter key = (L.window K.now key).map Window.counter := h.counts key
  by_cases hkey : key ∈ limits.map ThrottleLimit.key
  · rw [← hfst] at hkey
    obtain ⟨x, hx, rfl⟩ := List.mem_map.mp hkey
    have hcounter := hin x hx
    obtain ⟨⟨l, e⟩, hle, rfl⟩ := List.mem_map.mp hx
    have hline := hlines hle
    cases hw : L.window K.now l.key with
    | none =>
      rw [hcounter, hcount, hw]
      rfl
    | some w =>
      have hsame := hline.sameWindow (h.counts l.key) hw
      simp only [hcounter, hcount, hw, Option.map_some, lowered, Option.some.injEq]
      rw [HeldLine, hw] at hline
      rcases hline with ⟨hends, hown⟩ | ⟨hends, hown⟩
      · -- the charge is in this window
        have hspent := w.spent_without holder
        rw [if_pos (hsame.mpr hends), (held.fit l (List.of_mem_zip hle).1).integers.1]
        simp only [Window.counter, Option.getD_some, Counter.mk.injEq]
        exact ⟨by omega, rfl⟩
      · -- a later window: the release leaves it
        rw [if_neg (by rw [hsame]; omega), Window.counter_without_of_zero hown]
  · rw [hout key (by rw [hfst]; exact hkey), hcount]
    cases hw : L.window K.now key with
    | none => rfl
    | some w =>
      simp only [Option.map_some, Window.counter_without_of_zero (held.elsewhere key hkey w hw)]

/-- The store and its ledger agree after a release. -/
theorem Sim.release (h : Sim host K L) (held : Held host L K.now id s limits ends holder)
    (hnow : K₁.now = K.now) (hres : K₁.reservations = K.reservations)
    (hcounts : ∀ key, K₁.counter key = ((L.window K.now key).map
      (Window.without · holder)).map Window.counter) :
    Sim host (K₁.setReservation id none) (L.release id) := by
  obtain ⟨hcreated, hholder, hissued, hwindows⟩ := release_frame held.owner
  have hnow' : (K₁.setReservation id none).now = K.now := hnow
  refine ⟨?_, ?_, ?_, ?_, ?_, ?_, ?_, ?_⟩
  · intro key
    unfold Counts
    rw [hnow', window_release held.owner]
    exact hcounts key
  · intro key
    refine le_trans ?_ (h.safe key)
    rw [hnow']
    unfold Ledger.spent
    rw [window_release held.owner]
    cases L.window K.now key with
    | none => exact le_rfl
    | some w =>
      have := w.spent_without holder
      show (w.without holder).spent ≤ w.spent
      omega
  · intro key w hw
    rw [hnow', window_release held.owner] at hw
    obtain ⟨w', hw', rfl⟩ := Option.map_eq_some_iff.mp hw
    exact h.short key w' hw'
  · intro key w hw c hc
    rw [hwindows] at hw
    obtain ⟨w', hw', rfl⟩ := Option.map_eq_some_iff.mp hw
    rw [hcreated]
    exact h.fresh key w' hw' c (List.mem_filter.mp hc).1
  · rw [hholder, hcreated]
    exact h.holders
  · rw [hholder]
    exact h.apart
  · intro id' s' hs'
    rw [hnow']
    rw [stored_setReservation id' hnow hres] at hs'
    by_cases hsame : id' = id
    · rw [if_pos hsame] at hs'
      cases hs'
    rw [if_neg hsame] at hs'
    obtain ⟨limits', ends', holder', held'⟩ := h.held id' s' hs'
    refine ⟨limits', ends', holder', held'.release held.owner ?_⟩
    intro hshared
    exact hsame (h.apart id' id holder (hshared ▸ held'.owner) held.owner)
  · rw [hissued]
    exact h.issued

/-- A release of a reservation that was handed out leaves the keyspace,
or takes the reservation's charges back. -/
theorem actionRelease_cases (h : Sim host K L) (hr : Issued host r) :
    let res := actionRelease ⟨r.id, r.digest, r.limits.map fun l =>
      (⟨l.kind, l.keyDigest⟩, l.amount)⟩ K
    (res.1 = K ∧ res.2.status ≠ .released) ∨ (res.2.status = .released
        ∧ Sim host res.1 (L.release r.id) ∧ res.1.now = K.now) := by
  obtain ⟨limits', hfit', hdigest', hlimits'⟩ := hr
  have hlines : (r.limits.map fun l =>
      ((⟨l.kind, l.keyDigest⟩ : CounterKey), l.amount))
      = releaseLines limits' := by
    rw [hlimits', List.map_map]
    rfl
  rw [hlines]
  unfold actionRelease reservation
  cases hstored : K.stored r.id with
  | none => exact .inl ⟨rfl, nofun⟩
  | some s =>
    obtain ⟨limits, ends, holder, held⟩ := h.held r.id s hstored
    dsimp only
    rw [held.text]
    dsimp only
    rw [heldText_read held.fit held.short]
    split
    · exact .inl ⟨rfl, nofun⟩
    rename_i hmatch
    simp only [not_or, not_not] at hmatch
    have hkeys := throttleDigest_key held.fit hfit' (hmatch.1.trans hdigest')
    split
    · rename_i status hstatus
      exact .inl ⟨rfl, checkRelease_error hstatus⟩
    rename_i charged hcheck
    obtain ⟨hnow, hres, hcounts⟩ := counts_release h held hkeys hcheck
    exact .inr ⟨rfl, h.release held hnow hres hcounts, hnow⟩

-- ===== runs

/-- A step whose scopes hold no NUL, whose numbers and window ends have
at most fourteen digits, and that releases what was handed out. -/
def Step.Fits (K : Keyspace) (L : Ledger) : Step → Prop
  | .acquire _ limits =>
    (∀ l ∈ limits, '\x00' ∉ l.scope.toList ∧ l.amount < 10 ^ 14 ∧ l.limit < 10 ^ 14)
    ∧ K.now + acquireTtl limits * 1000 < 10 ^ 14
  | .release r => r ∈ L.issued
  | _ => True

/-- What `Acquire` submits once its limits are accepted. -/
theorem submitAcquire_ok (hsubmit : submitAcquire host id limits K = .ok res) :
    ∃ ttl : Int, acquireLoop [] 1 limits = .ok ttl ∧ acquireTtl limits = ttl.toNat
      ∧ res = actionAcquire ⟨id, limits.map ThrottleLimit.key,
        some (acquirePayload host id limits), ttl⟩ K := by
  obtain ⟨-, hsubmit⟩ := refusal_ok hsubmit
  obtain ⟨ttl, hloop, hsubmit⟩ := bind_ok hsubmit
  obtain ⟨-, hsubmit⟩ := refusal_ok hsubmit
  refine ⟨ttl, hloop, ?_, (Except.ok.inj hsubmit).symm⟩
  rw [acquireTtl, hloop]

/-- A fitting acquire that reaches the Function leaves the keyspace or
creates its reservation. -/
theorem submitAcquire_cases (h : Sim host K L) (hfits : (Step.acquire id limits).Fits K L)
    (hsubmit : submitAcquire host id limits K = .ok res) :
    (∀ l ∈ limits, Fit l) ∧ (limits.map ThrottleLimit.key).Nodup ∧ (Leaves K id res ∨ ∃ K₁,
        Created host K L id limits (acquireTtl limits) K₁ res) := by
  obtain ⟨hplain, hshort⟩ := hfits
  obtain ⟨ttl, hloop, httl, rfl⟩ := submitAcquire_ok hsubmit
  obtain ⟨hdigests, hvalid⟩ := acquireLoop_ok hloop
  have hfit : ∀ l ∈ limits, Fit l := by
    intro l hl
    obtain ⟨hnul, hamount, hlimit⟩ := hplain l hl
    exact ⟨(hvalid l hl).1, hnul, hamount, hlimit⟩
  have hnodup := nodup_key hdigests
  rw [httl] at hshort ⊢
  exact ⟨hfit, hnodup, actionAcquire_cases h hfit hnodup hshort⟩

/-- The reservation in an answer was handed out. -/
theorem issued_of_answer {reply : Reply} (hfit : ∀ l ∈ limits, Fit l)
    (hrecord : reply.status = .created ∨ reply.status = .existing →
      reply.record = some (heldText host id limits ends))
    (hanswer : (answerAcquire reply).map
      ThrottleAcquireResult.reservation = .ok r) : Issued host r := by
  obtain ⟨result, hresult, rfl⟩ := map_ok hanswer
  have hdecode : ∀ {existing : Bool}, decodeAnswer existing (some (heldText host id limits ends))
        = .ok result → Issued host result.reservation := by
    intro existing hdecode
    unfold decodeAnswer at hdecode
    split at hdecode
    · cases hdecode
    rename_i text htext
    cases htext
    split at hdecode
    · cases hdecode
    rename_i reservation hreservation
    cases hdecode
    exact issued_of_decode hfit hreservation
  unfold answerAcquire at hresult
  cases hstatus : reply.status with
  | created =>
    rw [hstatus, hrecord (.inl hstatus)] at hresult
    exact hdecode hresult
  | existing =>
    rw [hstatus, hrecord (.inr hstatus)] at hresult
    exact hdecode hresult
  | released | denied | conflict | notFound | stateUnavailable
  | invalidRequest =>
    rw [hstatus] at hresult
    cases hresult

/-- An acquire keeps the agreement, and its limits if it creates. -/
theorem Sim.acquire (h : Sim host K L) (hfits : (Step.acquire id limits).Fits K L) :
    let out := (Step.acquire id limits).perform host (K, L)
    Sim host out.1.1 out.1.2 ∧ (out.2 = some .created →
      ∀ l ∈ limits, out.1.1.value l.key ≤ l.limit) := by
  cases hsubmit : submitAcquire host id limits K with
  | error e =>
    simp only [Step.perform, hsubmit]
    exact ⟨h, nofun⟩
  | ok res =>
    obtain ⟨hfit, hnodup, hcases⟩ := submitAcquire_cases h hfits hsubmit
    simp only [Step.perform, hsubmit]
    rcases hcases with hleaves | ⟨K₁, hcreated⟩
    · rw [if_neg hleaves.answer, hleaves.same]
      refine ⟨h.issue ?_, fun h => absurd (Option.some.inj h) hleaves.answer⟩
      intro r hr
      by_cases hfound : res.2.status = .existing
      · obtain ⟨s, hs, hrecord⟩ := hleaves.existing hfound
        obtain ⟨limits', ends, holder, held⟩ := h.held id s hs
        exact issued_of_answer held.fit (fun _ => hrecord.trans held.text) hr
      · have hnone : res.2.status = .created ∨ res.2.status = .existing →
            res.2.record = some (heldText host id limits []) := by
          rintro (h' | h')
          · exact absurd h' hleaves.answer
          · exact absurd h' hfound
        exact issued_of_answer hfit hnone hr
    · have hstatus : res.2.status = .created := by
        rw [hcreated.answer]
      obtain ⟨hsim, hlimit⟩ := hcreated.sim h hfit hnodup hfits.2
      rw [if_pos hstatus]
      refine ⟨hsim.issue ?_, fun _ => hlimit⟩
      intro r hr
      have hrecord : res.2.record = some (heldText host id limits
          (L.chargedEnds K.now (acquireTtl limits) limits)) := by
        rw [hcreated.answer]
      exact issued_of_answer hfit (fun _ => hrecord) hr

/-- A release keeps the agreement and takes back its own charges. -/
theorem Sim.released (h : Sim host K L) (hr : r ∈ L.issued) :
    let out := (Step.release r).perform host (K, L)
    Sim host out.1.1 out.1.2 ∧ (out.2 ≠ some .released → out.1.1 = K)
      ∧ (out.2 = some .released → ∀ key, out.1.1.value key
        = K.value key - (L.own K.now r.id key : Nat)) := by
  cases hsubmit : submitRelease r K with
  | error e =>
    simp only [Step.perform, hsubmit]
    exact ⟨h, fun _ => trivial, nofun⟩
  | ok res =>
    simp only [Step.perform, hsubmit]
    obtain ⟨-, hsubmit⟩ := refusal_ok hsubmit
    obtain ⟨-, hsubmit⟩ := refusal_ok hsubmit
    have hcases := actionRelease_cases h (h.issued r hr)
    rw [show actionRelease _ K = res from Except.ok.inj hsubmit] at hcases
    rcases hcases with ⟨hsame, hstatus⟩ | ⟨hstatus, hsim, hnow⟩
    · rw [if_neg hstatus, hsame]
      exact ⟨h, fun _ => rfl, fun h => absurd (Option.some.inj h) hstatus⟩
    · rw [if_pos hstatus]
      refine ⟨hsim, fun h => absurd (congrArg some hstatus) h, ?_⟩
      intro _ key
      rw [(hsim.counts key).value, (h.counts key).value, hnow]
      exact Ledger.spent_release K.now r.id key

theorem Sim.lookup (h : Sim host K L) (id : String) :
    Sim host K (L.issue (Throttle.lookup host id K)) := by
  refine h.issue ?_
  intro r hr
  unfold Throttle.lookup at hr
  split at hr
  · cases hr
  rename_i s hs
  obtain ⟨limits, ends, holder, held⟩ := h.held id s hs
  rw [held.text] at hr
  dsimp only at hr
  split at hr
  · cases hr
  · exact issued_of_decode held.fit hr

theorem Sim.perform (h : Sim host K L) {step : Step} (hfits : step.Fits K L) :
    Sim host (step.perform host (K, L)).1.1 (step.perform host (K, L)).1.2 := by
  cases step with
  | acquire id limits => exact (h.acquire hfits).1
  | lookup id => exact h.lookup id
  | release r => exact (h.released hfits).1
  | advance millis => exact h.advance millis

/-- A live reservation is found before anything is charged. -/
theorem acquire_live (hlive : (K.stored id).isSome) :
    let out := (Step.acquire id limits).perform host (K, L)
    out.1.1 = K ∧ out.1.2.windows = L.windows := by
  have hissue : ∀ returned, (L.issue returned).windows = L.windows := by
    intro returned
    cases returned <;> rfl
  cases hsubmit : submitAcquire host id limits K with
  | error e =>
    simp only [Step.perform, hsubmit, and_self]
  | ok res =>
    simp only [Step.perform, hsubmit]
    obtain ⟨ttl, -, -, hres⟩ := submitAcquire_ok hsubmit
    obtain ⟨s, hs⟩ := Option.isSome_iff_exists.mp hlive
    have hleaves : Leaves K id res := hres ▸ actionAcquire_live hs
    rw [if_neg hleaves.answer]
    exact ⟨hleaves.same, hissue _⟩

/-- The store and its ledger after a list of steps. -/
def reached (host : Host) (start : Nat) (steps : List Step) : Keyspace × Ledger :=
  runAll (Step.perform host) (.empty start, .empty) steps

/-- After every run of fitting steps a live counter holds the sum of the
charges made since its window began and not released; an acquire that
creates its reservation leaves its counters within their limits; an
acquire of a live reservation charges nothing; and a release lowers a
counter by what its reservation has charged to the counter's present
window, and by nothing else. -/
theorem throttle_conserves (host : Host) (start : Nat) (steps : List Step)
    (hfits : ∀ pre step post, steps = pre ++ step :: post →
      step.Fits (reached host start pre).1 (reached host start pre).2) :
    let K := (reached host start steps).1
    let L := (reached host start steps).2
    (∀ key c, K.counter key = some c → c.value = L.spent K.now key)
    ∧ (∀ id limits, (Step.acquire id limits).Fits K L →
      let out := (Step.acquire id limits).perform host (K, L)
      out.2 = some .created → ∀ l ∈ limits, out.1.1.value l.key ≤ l.limit)
    ∧ (∀ id limits, (K.stored id).isSome →
      let out := (Step.acquire id limits).perform host (K, L)
      out.1.1 = K ∧ out.1.2.windows = L.windows)
    ∧ ∀ r ∈ L.issued,
      let out := (Step.release r).perform host (K, L)
      (out.2 ≠ some .released → out.1.1 = K)
      ∧ (out.2 = some .released → ∀ key, out.1.1.value key
        = K.value key - (L.own K.now r.id key : Nat)) := by
  have hsim : Sim host (reached host start steps).1 (reached host start steps).2 :=
    runAll_invariant_at (I := fun s : Keyspace × Ledger =>
        Sim host s.1 s.2)
      (Sim.empty start) fun pre step post hsteps h =>
        h.perform (hfits pre step post hsteps)
  refine ⟨?_, ?_, ?_, ?_⟩
  · intro key c hc
    have hvalue := (hsim.counts key).value
    unfold Keyspace.value at hvalue
    rw [hc] at hvalue
    exact hvalue
  · intro id limits hstep
    exact (hsim.acquire hstep).2
  · intro id limits hlive
    exact acquire_live hlive
  · intro r hr
    exact (hsim.released hr).2

-- ===== samples

def sampleHost : Host where
  maxRecordBytes := 65536
  payloadBytes _ := 512
  recordBytes _ := 512
  durationText _ := "1s"
  durationText_plain _ := by decide

/-- Requests in a window of one second. -/
def sampleLimit (scope : String) (amount : Int) : ThrottleLimit :=
  ⟨.requests, scope, amount, 10, 10 ^ 9⟩

def sampleKey (scope : String) : CounterKey :=
  ⟨.requests, ⟨.requests, scope⟩⟩

/-- Two reservations of one scope. -/
def sampleSteps : List Step :=
  [.acquire "x" [sampleLimit "tenant" 3], .acquire "y" [sampleLimit "tenant" 4]]

theorem sampleSteps_fit : ∀ pre step post, sampleSteps = pre ++ step :: post →
    step.Fits (reached sampleHost 0 pre).1 (reached sampleHost 0 pre).2 := by
  have hlimit : ∀ amount : Int, amount < 10 ^ 14 →
      ∀ l ∈ [sampleLimit "tenant" amount], '\x00' ∉ l.scope.toList
        ∧ l.amount < 10 ^ 14 ∧ l.limit < 10 ^ 14 := by
    intro amount hamount l hl
    obtain rfl := List.mem_singleton.mp hl
    exact ⟨by show '\x00' ∉ "tenant".toList; decide, hamount,
      by show (10 : Int) < 10 ^ 14; decide⟩
  intro pre step post hsteps
  match pre with
  | [] =>
    cases hsteps
    exact ⟨hlimit 3 (by decide), by decide⟩
  | [first] =>
    cases hsteps
    exact ⟨hlimit 4 (by decide), by decide +kernel⟩
  | first :: second :: rest =>
    have := congrArg List.length hsteps
    simp [sampleSteps] at this

/-- After both, the counter holds seven, which the ledger lists. -/
theorem throttle_conserves_two : (reached sampleHost 0 sampleSteps).1.counter (sampleKey "tenant")
        = some ⟨7, some 1000⟩
      ∧ (7 : Int) = (reached sampleHost 0 sampleSteps).2.spent 0 (sampleKey "tenant") :=
  ⟨by decide +kernel,
    (throttle_conserves sampleHost 0 sampleSteps sampleSteps_fit).1
      (sampleKey "tenant") ⟨7, some 1000⟩ (by decide +kernel)⟩

/-- Two limits whose digest is that of two others. -/
def firstPair : List ThrottleLimit :=
  [sampleLimit "a\x001\x0010\x001s\x00requests\x00b" 1, sampleLimit "c" 1]

def secondPair : List ThrottleLimit :=
  [sampleLimit "a" 1, sampleLimit "b\x001\x0010\x001s\x00requests\x00c" 1]

/-- The reservation that `Acquire` returns for the first pair. -/
def firstLease (id : String) : ThrottleReservation :=
  ⟨id, throttleDigest sampleHost firstPair, firstPair.map fun l =>
    ⟨l.kind, l.keyDigest, l.amount⟩⟩

/-- The first pair is acquired and released under one id and acquired
under another; then the second pair is acquired under the first id and
the first reservation is released once more. -/
def staleSteps : List Step :=
  [.acquire "x" firstPair, .release (firstLease "x"),
    .acquire "y" firstPair, .acquire "x" secondPair]

/-- The repeated release is answered `released`, takes back a request of
the reservation `y`, which is still held, and leaves the counter of the
released one. -/
theorem stale_release_lowers_another :
    let before := reached sampleHost 0 staleSteps
    let out := (Step.release (firstLease "x")).perform sampleHost before
    firstLease "x" ∈ before.2.issued ∧ out.2 = some .released
      ∧ out.1.1.counter (sampleKey "c") = some ⟨0, some 1000⟩
      ∧ out.1.2.spent 0 (sampleKey "c") = 1
      ∧ out.1.1.counter (sampleKey "a") = some ⟨1, some 1000⟩
      ∧ out.1.2.spent 0 (sampleKey "a") = 0 := by
  decide +kernel

end LlmTemporalWorker.Throttle
