/-
Any number of calls at work on one store.

A pool is the store, the calls made so far (what is left of each, or
what it returned) and the operations whose callers stopped waiting.
A move starts a call, performs the next operation of one call, lets a
caller give up on an operation that is still under way, lets such an
operation land, or changes the store from outside. A worker that dies
is a call that gets no further move.

The rule of the module: if every call started is proved against the
contract from the state it starts in, and nobody disturbs a running call
beyond what it can bear, then the contract holds after every run.
-/
import LlmTemporalWorker.Lib.Lists
import LlmTemporalWorker.Lib.Program
import LlmTemporalWorker.Lib.Run

namespace LlmTemporalWorker.Lib

/-- A call: what it is, the state in which it began (no operation can
see it), and what is left of it. -/
structure Thread (S : System) where
  job : S.Job
  since : S.State
  rest : Program S.Op S.Answer S.Result

/-- An operation whose caller stopped waiting. -/
structure Orphan (S : System) where
  job : S.Job
  op : S.Op

structure Pool (S : System) where
  state : S.State
  threads : List (Thread S)
  orphans : List (Orphan S)

inductive Move (S : System)
  | start (job : S.Job)
  | act (i : Nat) (fate : S.Fate)
  | detach (i : Nat)
  | land (k : Nat) (fate : S.Fate)
  | event (e : S.Event)

/-- The call that a move starts. -/
def Move.job? {S : System} : Move S → Option S.Job
  | .start job => some job
  | _ => none

namespace Thread

variable {S : System}

/-- What the call returned. -/
def result? (t : Thread S) : Option S.Result :=
  t.rest.result?

/-- The call after an answer to its next operation. -/
def next (t : Thread S) (rest : Program S.Op S.Answer S.Result) : Thread S :=
  { t with rest := rest }

/-- The return of the call, if it has returned. -/
def returned (t : Thread S) : Option (S.Job × S.Result) :=
  t.result?.map (t.job, ·)

theorem returned_eq {t : Thread S} {job : S.Job} {r : S.Result}
    (h : t.returned = some (job, r)) : t.job = job ∧ t.rest = .done r := by
  obtain ⟨r', hr', heq⟩ := Option.map_eq_some_iff.mp h
  obtain ⟨rfl, rfl⟩ := Prod.mk.inj heq
  exact ⟨rfl, Program.eq_done_of_result? hr'⟩

end Thread

namespace Pool

variable {S : System}

/-- The store with nothing going on. -/
def init (s : S.State) : Pool S :=
  ⟨s, [], []⟩

/-- One move, and the call that returned by it. -/
def step : Move S → Pool S → Pool S × Option (S.Job × S.Result)
  | .start job, P =>
    let t : Thread S := ⟨job, P.state, S.program job⟩
    ({ P with threads := P.threads ++ [t] }, t.returned)
  | .act i fate, P =>
    match P.threads[i]? with
    | some ⟨job, since, .call op next⟩ =>
      let r := S.exec op fate P.state
      let t : Thread S := ⟨job, since, next r.1⟩
      ({ P with state := r.2, threads := P.threads.set i t }, t.returned)
    | _ => (P, none)
  | .detach i, P =>
    match P.threads[i]? with
    | some ⟨job, since, .call op next⟩ =>
      match S.lost op with
      | some answer =>
        let t : Thread S := ⟨job, since, next answer⟩
        ({ P with
            threads := P.threads.set i t
            orphans := P.orphans ++ [⟨job, op⟩] }, t.returned)
      | none => (P, none)
    | _ => (P, none)
  | .land k fate, P =>
    match P.orphans[k]? with
    | some ⟨_, op⟩ =>
      ({ P with
          state := (S.exec op fate P.state).2
          orphans := P.orphans.eraseIdx k }, none)
    | none => (P, none)
  | .event e, P => ({ P with state := S.event e P.state }, none)

/-- The pool after a list of moves. -/
def run (P : Pool S) (moves : List (Move S)) : Pool S :=
  runAll step P moves

variable {P P' : Pool S} {moves : List (Move S)} {m : Move S}
  {ret : Option (S.Job × S.Result)}

theorem run_append {more : List (Move S)} : P.run (moves ++ more) = (P.run moves).run more :=
  runAll_append

theorem run_snoc : P.run (moves ++ [m]) = (step m (P.run moves)).1 := runAll_snoc

/-- What a move can be: nothing at all, a new call, the next operation
of a call (performed or left behind), an operation landing late, or an
event. -/
inductive Stepped (P : Pool S) :
    Move S → Pool S → Option (S.Job × S.Result) → Prop
  | idle {m : Move S} (hstart : ∀ job, m ≠ .start job) : Stepped P m P none
  | start {t : Thread S} (hsince : t.since = P.state) (hrest : t.rest = S.program t.job) :
      Stepped P (.start t.job) { P with threads := P.threads ++ [t] } t.returned
  | act {i : Nat} {t : Thread S} {op : S.Op}
      {next : S.Answer op → Program S.Op S.Answer S.Result}
      (fate : S.Fate) (ht : P.threads[i]? = some t)
      (hrest : t.rest = .call op next) :
      Stepped P (.act i fate)
        { P with
          state := (S.exec op fate P.state).2
          threads := P.threads.set i (t.next (next (S.exec op fate P.state).1)) }
        (t.next (next (S.exec op fate P.state).1)).returned
  | detach {i : Nat} {t : Thread S} {op : S.Op}
      {next : S.Answer op → Program S.Op S.Answer S.Result}
      {answer : S.Answer op} (ht : P.threads[i]? = some t)
      (hrest : t.rest = .call op next) (hlost : S.lost op = some answer) :
      Stepped P (.detach i)
        { P with
          threads := P.threads.set i (t.next (next answer))
          orphans := P.orphans ++ [⟨t.job, op⟩] }
        (t.next (next answer)).returned
  | land {k : Nat} {o : Orphan S} (fate : S.Fate) (ho : P.orphans[k]? = some o) :
      Stepped P (.land k fate)
        { P with
          state := (S.exec o.op fate P.state).2
          orphans := P.orphans.eraseIdx k } none
  | event (e : S.Event) : Stepped P (.event e) { P with state := S.event e P.state } none

theorem step_stepped (m : Move S) (P : Pool S) : Stepped P m (step m P).1 (step m P).2 := by
  cases m with
  | start job => exact @Stepped.start S P ⟨job, P.state, S.program job⟩ rfl rfl
  | act i fate =>
    rcases ht : P.threads[i]? with _ | ⟨job, since, _ | ⟨op, next⟩⟩ <;> simp only [step, ht]
    · exact .idle nofun
    · exact .idle nofun
    · exact .act fate ht rfl
  | detach i =>
    rcases ht : P.threads[i]? with _ | ⟨job, since, _ | ⟨op, next⟩⟩ <;> simp only [step, ht]
    · exact .idle nofun
    · exact .idle nofun
    · rcases hlost : S.lost op with _ | answer
      · exact .idle nofun
      · exact .detach ht rfl hlost
  | land k fate =>
    rcases ho : P.orphans[k]? with _ | o <;> simp only [step, ho]
    · exact .idle nofun
    · exact .land fate ho
  | event e => exact .event e

/-- A call keeps its place, its job and its beginning; a new one begins
in the state it finds. -/
theorem Stepped.thread (h : Stepped P m P' ret) {i : Nat} {t : Thread S}
    (ht : P'.threads[i]? = some t) :
    (∃ u, P.threads[i]? = some u ∧ u.job = t.job ∧ u.since = t.since) ∨
      P.threads.length ≤ i ∧ t.since = P.state := by
  have hset : ∀ {k : Nat} {u : Thread S}
      (p : Program S.Op S.Answer S.Result), P.threads[k]? = some u →
      (P.threads.set k (u.next p))[i]? = some t →
      ∃ u, P.threads[i]? = some u ∧ u.job = t.job ∧ u.since = t.since := by
    intro k u p hu ht
    rcases getElem?_set_cases ht with ht | ⟨rfl, rfl⟩
    · exact ⟨t, ht, rfl, rfl⟩
    · exact ⟨u, hu, rfl, rfl⟩
  cases h with
  | idle | land | event => exact .inl ⟨t, ht, rfl, rfl⟩
  | act fate hu hrest | detach hu hrest _ => exact .inl (hset _ hu ht)
  | @start u hsince hrest =>
    by_cases hi : i < P.threads.length
    · rw [List.getElem?_append_left hi] at ht
      exact .inl ⟨t, ht, rfl, rfl⟩
    have hle := Nat.le_of_not_lt hi
    rw [List.getElem?_append_right hle] at ht
    obtain ⟨_, rfl⟩ := List.getElem?_eq_some_iff.mp ht
    exact .inr ⟨hle, by simpa using hsince⟩

theorem Stepped.jobs (h : Stepped P m P' ret) :
    P'.threads.map (·.job) = P.threads.map (·.job) ++ m.job?.toList := by
  cases h with
  | @idle m hstart =>
    cases m with
    | start job => exact absurd rfl (hstart job)
    | act | detach | land | event => simp [Move.job?]
  | start _ _ => simp [Move.job?]
  | act fate ht hrest => exact (map_set_of_eq ht (by rfl)).trans (List.append_nil _).symm
  | detach ht hrest _ => exact (map_set_of_eq ht (by rfl)).trans (List.append_nil _).symm
  | land | event => simp [Move.job?]

/-- The calls of a pool are those that were started, in order. -/
theorem run_jobs : (P.run moves).threads.map (·.job) =
      P.threads.map (·.job) ++ moves.filterMap Move.job? := by
  induction moves using List.reverseRecOn with
  | nil => simp [run, runAll]
  | append_singleton moves m ih =>
    rw [run_snoc, (step_stepped m _).jobs, ih]
    cases hm : m.job? <;> simp [hm]

/-- A call whose operations are all performed, with nothing in between,
comes to the result it has on its own. -/
theorem run_alone {i : Nat} {t : Thread S} (fate : S.Fate) (ht : P.threads[i]? = some t) :
    ∃ n, (P.run (List.replicate n (.act i fate))).threads[i]? = some (t.next (.done
        (t.rest.alone (fun op => S.exec op fate) P.state).1)) := by
  obtain ⟨job, since, rest⟩ := t
  induction rest generalizing P with
  | done r => exact ⟨0, ht⟩
  | call op next ih =>
    obtain ⟨hlt, -⟩ := List.getElem?_eq_some_iff.mp ht
    have hstep : (step (.act i fate) P).1.threads[i]? =
        some ⟨job, since, next (S.exec op fate P.state).1⟩ := by
      simp only [step, ht]
      exact List.getElem?_set_self hlt
    obtain ⟨n, hn⟩ := ih _ hstep
    refine ⟨n + 1, ?_⟩
    refine hn.trans ?_
    simp only [step, ht]
    rfl

/-- How many calls returned as `mark` says. -/
def count (mark : S.Job × S.Result → Bool) (P : Pool S) : Nat :=
  P.threads.countP fun t => t.returned.any mark

/-- A move adds the return it made to the count, and nothing else. -/
theorem Stepped.count (h : Stepped P m P' ret) (mark : S.Job × S.Result → Bool) :
    P'.count mark = P.count mark + if ret.any mark then 1 else 0 := by
  -- a call that moves on had not returned before
  have hset : ∀ {i : Nat} {t : Thread S} {op : S.Op}
      {next : S.Answer op → Program S.Op S.Answer S.Result}
      (p : Program S.Op S.Answer S.Result), P.threads[i]? = some t →
      t.rest = .call op next →
      (P.threads.set i (t.next p)).countP (fun t => t.returned.any mark) =
        P.count mark + if (t.next p).returned.any mark then 1 else 0 := by
    intro i t op next p ht hrest
    obtain ⟨hi, rfl⟩ := List.getElem?_eq_some_iff.mp ht
    rw [List.countP_set hi]
    simp [Thread.returned, Thread.result?, hrest, Pool.count]
  cases h with
  | idle _ => simp
  | land | event => simp [Pool.count]
  | start _ _ => simp [Pool.count, List.countP_append, List.countP_singleton]
  | act fate ht hrest | detach ht hrest _ => exact hset _ ht hrest

end Pool

namespace Contract

variable {S : System} (c : Contract S)

/-- A pool in which every call keeps the contract: the ones at work from
where they are, the ones that returned at the moment they did. -/
structure Holds (P : Pool S) : Prop where
  inv : c.inv P.state
  since : ∀ t ∈ P.threads, c.later t.since P.state
  running : ∀ t ∈ P.threads, t.result? = none →
    c.wp t.job t.rest (c.post t.job t.since) P.state P.state
  returned : ∀ t ∈ P.threads, ∀ r, t.result? = some r →
    ∃ s₀ s, c.post t.job t.since s₀ s r ∧ c.later s P.state
  orphans : ∀ o ∈ P.orphans, c.Harmless o.job o.op P.state

/-- The calls that may start and the events that may happen. -/
def Allows (P : Pool S) : Move S → Prop
  | .start job =>
    c.wp job (S.program job) (c.post job P.state) P.state P.state
  | .event e =>
    c.inv (S.event e P.state) ∧ c.later P.state (S.event e P.state)
  | _ => True

/-- From one pool to the next no running call was disturbed by the
move of another. -/
def Calm (P P' : Pool S) : Prop :=
  ∀ (i : Nat) (t : Thread S), P.threads[i]? = some t → P'.threads[i]? = some t → t.result? = none →
      c.keeps t.job P.state P'.state

variable {c} {P P' : Pool S} {m : Move S} {t : Thread S}
variable {ret : Option (S.Job × S.Result)}

theorem holds_init {s : S.State} (h : c.inv s) : c.Holds (Pool.init s) where
  inv := h
  since := nofun
  running := nofun
  returned := nofun
  orphans := nofun

namespace Holds

theorem rely (h : c.Holds P) (j : S.Job) : c.Rely j P.state P.state := .refl h.inv

/-- What a call meets when it performs its next operation. -/
theorem call {op : S.Op}
    {next : S.Answer op → Program S.Op S.Answer S.Result}
    (h : c.Holds P) (ht : t ∈ P.threads) (hrest : t.rest = .call op next) :
    c.Harmless t.job op P.state ∧
    (∀ fate, c.wp t.job (next (S.exec op fate P.state).1)
      (c.post t.job t.since) P.state (S.exec op fate P.state).2) ∧
    ∀ a ∈ S.lost op, c.wp t.job (next a) (c.post t.job t.since) P.state P.state := by
  have hrun : t.result? = none := by simp [Thread.result?, hrest]
  have hwp := h.running t ht hrun
  rw [hrest] at hwp
  exact hwp P.state (h.rely t.job)

/-- The state moves on, to one that keeps the invariant. -/
theorem step_state (h : c.Holds P) (hm : c.Allows P m) (hs : Pool.Stepped P m P' ret) :
    c.inv P'.state ∧ c.later P.state P'.state := by
  have hstay := And.intro h.inv (c.later_refl P.state)
  cases hs with
  | idle | start | detach => exact hstay
  | act fate ht hrest =>
    have hmoves := (h.call (List.mem_of_getElem? ht) hrest).1 P.state h.inv (c.later_refl _) fate
    exact ⟨hmoves.inv, hmoves.later⟩
  | land fate ho =>
    have hmoves := h.orphans _ (List.mem_of_getElem? ho) P.state h.inv (c.later_refl _) fate
    exact ⟨hmoves.inv, hmoves.later⟩
  | event e => exact hm

/-- A call that has just performed an operation, or has just begun, or
has not moved. -/
theorem step_thread (h : c.Holds P) (hm : c.Allows P m) (hs : Pool.Stepped P m P' ret) {i : Nat}
    (ht : P'.threads[i]? = some t) :
    P.threads[i]? = some t ∨ c.later t.since P.state ∧
      c.wp t.job t.rest (c.post t.job t.since) P.state P'.state := by
  cases hs with
  | idle | land | event => exact .inl ht
  | @start t' hsince hrest =>
    by_cases hi : i < P.threads.length
    · rw [List.getElem?_append_left hi] at ht
      exact .inl ht
    rw [List.getElem?_append_right (Nat.le_of_not_lt hi)] at ht
    obtain rfl := List.mem_singleton.mp (List.mem_of_getElem? ht)
    refine .inr ⟨hsince ▸ c.later_refl _, ?_⟩
    rw [hrest, hsince]
    exact hm
  | @act k t' op next fate ht' hrest =>
    have hmem := List.mem_of_getElem? ht'
    rcases getElem?_set_cases ht with ht | ⟨-, rfl⟩
    · exact .inl ht
    · exact .inr ⟨h.since t' hmem, (h.call hmem hrest).2.1 fate⟩
  | @detach k t' op next answer ht' hrest hlost =>
    have hmem := List.mem_of_getElem? ht'
    rcases getElem?_set_cases ht with ht | ⟨-, rfl⟩
    · exact .inl ht
    · exact .inr ⟨h.since t' hmem, (h.call hmem hrest).2.2 answer hlost⟩

theorem step_orphans (h : c.Holds P) (hm : c.Allows P m)
    (hs : Pool.Stepped P m P' ret) {o : Orphan S} (ho : o ∈ P'.orphans) :
    c.Harmless o.job o.op P'.state := by
  have hlater := (h.step_state hm hs).2
  cases hs with
  | @detach i t op' next answer ht hrest _ =>
    rcases List.mem_append.mp ho with ho | ho
    · exact h.orphans o ho
    · obtain rfl := List.mem_singleton.mp ho
      exact (h.call (List.mem_of_getElem? ht) hrest).1
  | land fate ho' => exact (h.orphans o (List.mem_of_mem_eraseIdx ho)).mono hlater
  | idle | start => exact h.orphans o ho
  | act | event => exact (h.orphans o ho).mono hlater

/-- One move keeps the contract. -/
theorem step (h : c.Holds P) (hm : c.Allows P m) (hcalm : c.Calm P P')
    (hs : Pool.Stepped P m P' ret) : c.Holds P' := by
  obtain ⟨hinv, hlater⟩ := h.step_state hm hs
  refine ⟨hinv, ?_, ?_, ?_, fun o => h.step_orphans hm hs⟩
  · intro t ht
    obtain ⟨i, hi⟩ := List.mem_iff_getElem?.mp ht
    rcases h.step_thread hm hs hi with hi | ⟨hsince, _⟩
    · exact c.later_trans (h.since t (List.mem_of_getElem? hi)) hlater
    · exact c.later_trans hsince hlater
  · intro t ht hrun
    obtain ⟨i, hi'⟩ := List.mem_iff_getElem?.mp ht
    rcases h.step_thread hm hs hi' with hi | ⟨_, hwp⟩
    · exact wp_rely (h.running t (List.mem_of_getElem? hi) hrun) hrun
        ⟨hinv, hlater, hcalm i t hi hi' hrun⟩
    · exact wp_rely hwp hrun (.refl hinv)
  · intro t ht r hr
    obtain ⟨i, hi⟩ := List.mem_iff_getElem?.mp ht
    rcases h.step_thread hm hs hi with hi | ⟨_, hwp⟩
    · obtain ⟨s₀, s, hpost, hs⟩ := h.returned t (List.mem_of_getElem? hi) r hr
      exact ⟨s₀, s, hpost, c.later_trans hs hlater⟩
    · rw [Program.eq_done_of_result? hr] at hwp
      exact ⟨_, _, hwp, c.later_refl _⟩

/-- The next operation of a call does what the call may do. -/
theorem step_act {i : Nat} {fate : S.Fate} (h : c.Holds P) (ht : P.threads[i]? = some t) :
    c.acts t.job P.state (Pool.step (.act i fate) P).1.state := by
  have hs := Pool.step_stepped (.act i fate) P
  generalize (Pool.step (.act i fate) P).1 = P' at hs ⊢
  generalize (Pool.step (.act i fate) P).2 = ret at hs
  cases hs with
  | idle _ => exact c.acts_refl _ _
  | @act _ u op next _ hu hrest =>
    obtain rfl := Option.some.inj (ht.symm.trans hu)
    exact ((h.call (List.mem_of_getElem? ht) hrest).1 P.state h.inv (c.later_refl _) fate).acts

/-- So does an operation that a call has left behind. -/
theorem step_land {k : Nat} {fate : S.Fate} {o : Orphan S} (h : c.Holds P)
    (ho : P.orphans[k]? = some o) :
    c.acts o.job P.state (Pool.step (.land k fate) P).1.state := by
  have hmoves := h.orphans o (List.mem_of_getElem? ho) P.state h.inv (c.later_refl _) fate
  simp only [Pool.step, ho]
  exact hmoves.acts

/-- The call that a move lets return meets its postcondition there. -/
theorem step_returned {job : S.Job} {r : S.Result} (h : c.Holds P)
    (hm : c.Allows P m) (hs : Pool.Stepped P m P' ret)
    (hret : ret = some (job, r)) :
    ∃ since, c.later since P.state ∧ c.post job since P.state P'.state r := by
  -- a call that an answer brings to its end
  have hlast : ∀ {t : Thread S} {p : Program S.Op S.Answer S.Result}, t ∈ P.threads →
      c.wp t.job p (c.post t.job t.since) P.state P'.state →
      (t.next p).returned = some (job, r) →
      ∃ since, c.later since P.state ∧ c.post job since P.state P'.state r := by
    intro t p hmem hwp hret
    obtain ⟨rfl, hdone⟩ := Thread.returned_eq hret
    rw [show p = .done r from hdone] at hwp
    exact ⟨t.since, h.since t hmem, hwp⟩
  cases hs with
  | idle | land | event => cases hret
  | @start t hsince hrest =>
    obtain ⟨rfl, hdone⟩ := Thread.returned_eq hret
    refine ⟨P.state, c.later_refl _, ?_⟩
    have hwp : c.wp t.job (S.program t.job) (c.post t.job P.state) P.state P.state := hm
    rw [← hrest, hdone] at hwp
    exact hwp
  | act fate ht hrest =>
    have hmem := List.mem_of_getElem? ht
    exact hlast hmem ((h.call hmem hrest).2.1 fate) hret
  | detach ht hrest hlost =>
    have hmem := List.mem_of_getElem? ht
    exact hlast hmem ((h.call hmem hrest).2.2 _ hlost) hret

end Holds

/-- A run whose every call may start where it does, whose events may
happen, and that disturbs no running call. -/
def Admits (c : Contract S) (P : Pool S) (moves : List (Move S)) : Prop :=
  ∀ pre m post, moves = pre ++ m :: post →
    c.Allows (P.run pre) m ∧ c.Calm (P.run pre) (P.run (pre ++ [m]))

variable {moves more : List (Move S)}

theorem Admits.left (h : c.Admits P (moves ++ more)) : c.Admits P moves := by
  intro pre m post heq
  exact h pre m (post ++ more) (by simp [heq])

theorem Admits.right (h : c.Admits P (moves ++ more)) : c.Admits (P.run moves) more := by
  intro pre m post heq
  have := h (moves ++ pre) m post (by simp [heq])
  simpa [Pool.run_append] using this

namespace Holds

/-- Every run that the contract admits keeps it. -/
theorem run (h : c.Holds P) (hmoves : c.Admits P moves) : c.Holds (P.run moves) := by
  refine runAll_invariant_at h ?_
  intro pre m post hpre hpool
  obtain ⟨hm, hcalm⟩ := hmoves pre m post hpre
  rw [Pool.run_snoc] at hcalm
  exact step hpool hm hcalm (Pool.step_stepped m _)

/-- The contract may be used at every move to show that the move is
admitted. -/
theorem admits (h : c.Holds P)
    (hmoves : ∀ pre m post, moves = pre ++ m :: post → c.Holds (P.run pre) →
      c.Allows (P.run pre) m ∧ c.Calm (P.run pre) (P.run (pre ++ [m]))) :
    c.Admits P moves := by
  induction moves using List.reverseRecOn with
  | nil =>
    intro pre m post heq
    simp at heq
  | append_singleton moves m ih =>
    have hbefore : c.Admits P moves := ih fun pre m' post heq =>
      hmoves pre m' (post ++ [m]) (by simp [heq])
    intro pre m' post heq
    rcases List.eq_nil_or_concat post with rfl | ⟨post, last, rfl⟩
    · obtain ⟨rfl, hm⟩ := List.append_inj' heq rfl
      obtain rfl := List.singleton_inj.mp hm
      exact hmoves _ _ [] rfl (h.run hbefore)
    · refine hbefore pre m' post ?_
      have : moves ++ [m] = (pre ++ m' :: post) ++ [last] := by
        simpa using heq
      exact (List.append_inj' this rfl).1

/-- A rule for properties of pools that single moves keep. -/
theorem run_invariant {I : Pool S → Prop} (h : c.Holds P) (hmoves : c.Admits P moves) (hI : I P)
    (hstep : ∀ Q Q' m ret, c.Holds Q → c.Allows Q m →
      Pool.Stepped Q m Q' ret → I Q → I Q') : I (P.run moves) := by
  refine runAll_invariant_at hI ?_
  intro pre m post hpre hI
  subst hpre
  exact hstep _ _ m _ (h.run hmoves.left) (hmoves pre m post rfl).1 (Pool.step_stepped m _) hI

theorem run_later (h : c.Holds P) (hmoves : c.Admits P moves) :
    c.later P.state (P.run moves).state := by
  refine h.run_invariant hmoves (I := fun Q => c.later P.state Q.state) (c.later_refl _) ?_
  intro Q Q' m ret hQ hm hs hlater
  exact c.later_trans hlater (hQ.step_state hm hs).2

/-- A call that was not there yet begins later. -/
theorem run_since (h : c.Holds P) (hmoves : c.Admits P moves) {i : Nat}
    {t : Thread S} (hi : P.threads.length ≤ i)
    (ht : (P.run moves).threads[i]? = some t) :
    c.later P.state t.since := by
  have hall : ∀ i t, P.threads.length ≤ i →
      (P.run moves).threads[i]? = some t → c.later P.state t.since := by
    refine And.left (b := c.later P.state (P.run moves).state)
      (h.run_invariant hmoves (I := fun Q => (∀ i t, P.threads.length ≤ i → Q.threads[i]? = some t →
        c.later P.state t.since) ∧ c.later P.state Q.state) ?_ ?_)
    · refine ⟨fun i t hi ht => ?_, c.later_refl _⟩
      rw [List.getElem?_eq_none hi] at ht
      cases ht
    · rintro Q Q' m ret hQ hm hs ⟨hnew, hlater⟩
      refine ⟨fun i t hi ht => ?_, c.later_trans hlater (hQ.step_state hm hs).2⟩
      rcases hs.thread ht with ⟨u, hu, _, hsince⟩ | ⟨_, hsince⟩
      · exact hsince ▸ hnew i u hi hu
      · exact hsince ▸ hlater
  exact hall i t hi ht

/-- Returns that each cost one unit of what never shrinks are no more
than there is of it. -/
theorem run_count {mark : S.Job × S.Result → Bool} {μ : S.State → Nat}
    (h : c.Holds P) (hmoves : c.Admits P moves)
    (hlater : ∀ s s', c.later s s' → μ s ≤ μ s')
    (hmark : ∀ job r since s s', c.post job since s s' r → mark (job, r) = true → μ s + 1 ≤ μ s')
    (h₀ : P.count mark ≤ μ P.state) :
    (P.run moves).count mark ≤ μ (P.run moves).state := by
  refine h.run_invariant hmoves (I := fun Q => Q.count mark ≤ μ Q.state) h₀ ?_
  intro Q Q' m ret hQ hm hs hle
  have hstate := hlater _ _ (hQ.step_state hm hs).2
  rw [hs.count mark]
  rcases hret : ret with _ | ⟨job, r⟩
  · simpa using Nat.le_trans hle hstate
  · by_cases hmarked : mark (job, r) = true
    · obtain ⟨since, _, hpost⟩ := hQ.step_returned hm hs hret
      have hmore := hmark _ _ _ _ _ hpost hmarked
      simp only [Option.any_some, hmarked, if_true]
      omega
    · simp only [Option.any_some, hmarked]
      simpa using Nat.le_trans hle hstate

end Holds

end Contract

end LlmTemporalWorker.Lib
