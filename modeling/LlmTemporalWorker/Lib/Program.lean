/-
Programs that call on a shared store.

A program is what is left of a call: either its result, or one operation
on the store and what the program goes on with for every answer. The
operation is the atom. Between two operations anything may happen to
the store, so a program is judged by `wp`: from a state in which the
others may still act (`rely`), every operation it performs keeps the
invariant whenever it lands, and what it returns satisfies the
postcondition at the operation that decided it.

The postcondition sees the state before and after that last operation,
so that "this very call wrote it" can be said.
-/
import Mathlib

namespace LlmTemporalWorker.Lib

/-- What is left of a call. -/
inductive Program (Op : Type) (Answer : Op → Type) (α : Type)
  | done (result : α)
  | call (op : Op) (next : Answer op → Program Op Answer α)

namespace Program

variable {Op : Type} {Answer : Op → Type} {α β : Type}

protected def bind : Program Op Answer α → (α → Program Op Answer β) → Program Op Answer β
  | .done a, f => f a
  | .call op next, f => .call op fun answer => (next answer).bind f

instance : Monad (Program Op Answer) where
  pure := .done
  bind := Program.bind

/-- The program that performs one operation and returns its answer. -/
def perform (op : Op) : Program Op Answer (Answer op) :=
  .call op .done

/-- The result of a program that has nothing left to do. -/
def result? : Program Op Answer α → Option α
  | .done a => some a
  | .call _ _ => none

@[simp] theorem result?_call {op : Op} {next : Answer op → Program Op Answer α} :
    (call op next).result? = none := rfl

theorem eq_done_of_result? {p : Program Op Answer α} {a : α}
    (h : p.result? = some a) : p = .done a := by
  cases p with
  | done b => exact congrArg _ (Option.some.inj h)
  | call op next => cases h

/-- The result of a program that nobody interferes with, and the state
it leaves. -/
def alone {σ : Type} (exec : (op : Op) → σ → Answer op × σ) : Program Op Answer α → σ → α × σ
  | .done a, s => (a, s)
  | .call op next, s => (next (exec op s).1).alone exec (exec op s).2

@[simp] theorem alone_bind {σ : Type}
    {exec : (op : Op) → σ → Answer op × σ} {p : Program Op Answer α}
    {f : α → Program Op Answer β} {s : σ} :
    (p >>= f).alone exec s = (f (p.alone exec s).1).alone exec (p.alone exec s).2 := by
  induction p generalizing s with
  | done a => rfl
  | call op next ih => exact ih _

/-- An operation that may fail, as a step that may fail. -/
def request {ε : Type} {Value : Op → Type} (op : Op) :
    ExceptT ε (Program Op fun op => Except ε (Value op)) (Value op) :=
  ExceptT.mk (perform op)

/-- The outcome of a step, whatever it is. -/
def observe {ε : Type} (x : ExceptT ε (Program Op Answer) α) :
    ExceptT ε (Program Op Answer) (Except ε α) :=
  ExceptT.lift x.run

/-- A step that asks nothing of the store. -/
def check {ε : Type} (x : Except ε α) : ExceptT ε (Program Op Answer) α :=
  ExceptT.mk (pure x)

section

variable {ε σ : Type} {exec : (op : Op) → σ → Answer op × σ} {s s' : σ}

theorem alone_run_bind {x : ExceptT ε (Program Op Answer) α}
    {f : α → ExceptT ε (Program Op Answer) β} {a : α}
    (h : x.run.alone exec s = (.ok a, s')) :
    (x >>= f).run.alone exec s = (f a).run.alone exec s' := by
  refine Eq.trans (alone_bind (p := x.run)) ?_
  rw [h]
  rfl

theorem alone_run_observe {x : ExceptT ε (Program Op Answer) α}
    {r : Except ε α} (h : x.run.alone exec s = (r, s')) :
    (observe x).run.alone exec s = (.ok r, s') := by
  refine Eq.trans (alone_bind (p := x.run)) ?_
  rw [h]
  rfl

end

end Program

/-- A shared store and the calls that work on it. `fate` is what becomes
of one operation (performed or not, acknowledged or not), `lost` the
answer to one that is still under way when its caller gives up waiting,
if it is one that can be given up,
`event` what happens to the store without any call. -/
structure System where
  (State Op : Type)
  Answer : Op → Type
  (Fate Event Job Result : Type)
  exec : (op : Op) → Fate → State → Answer op × State
  lost : (op : Op) → Option (Answer op)
  event : Event → State → State
  program : Job → Program Op Answer Result

/-- What every call keeps and what it may count on. `later` says how the
state moves on, `acts` what else the operations of a call may do to it,
`keeps` what a call of its own kind needs from the others while it runs.
`post` speaks of the state in which the call began and of the states
around its last operation. -/
structure Contract (S : System) where
  inv : S.State → Prop
  later : S.State → S.State → Prop
  (acts keeps : S.Job → S.State → S.State → Prop)
  post : S.Job → S.State → S.State → S.State → S.Result → Prop
  later_refl : ∀ s, later s s
  later_trans : ∀ {s t u}, later s t → later t u → later s u
  acts_refl : ∀ j s, acts j s s
  keeps_refl : ∀ j s, keeps j s s
  keeps_trans : ∀ {j s t u}, keeps j s t → keeps j t u → keeps j s u

namespace Contract

variable {S : System} (c : Contract S) (j : S.Job)
variable {α β ε : Type}

/-- What the others may have done since `s`. -/
structure Rely (s s' : S.State) : Prop where
  inv : c.inv s'
  later : c.later s s'
  keeps : c.keeps j s s'

/-- From one state to another as the operations of a call may take it. -/
structure Moves (s s' : S.State) : Prop where
  inv : c.inv s'
  later : c.later s s'
  acts : c.acts j s s'

/-- An operation that may land at any later time. -/
def Harmless (op : S.Op) (s : S.State) : Prop :=
  ∀ s', c.inv s' → c.later s s' → ∀ fate, c.Moves j s' (S.exec op fate s').2

/-- The weakest precondition of a program among others. -/
def wp : Program S.Op S.Answer α → (S.State → S.State → α → Prop) → S.State → S.State → Prop
  | .done a, Q, s₀, s => Q s₀ s a
  | .call op next, Q, _, s => ∀ s', c.Rely j s s' → c.Harmless j op s' ∧
      (∀ fate, wp (next (S.exec op fate s').1) Q s' (S.exec op fate s').2) ∧
      ∀ a ∈ S.lost op, wp (next a) Q s' s'

variable {c j} {s s' s₀ t₀ : S.State}
variable {Q R : S.State → S.State → α → Prop}

theorem Rely.refl (h : c.inv s) : c.Rely j s s := ⟨h, c.later_refl s, c.keeps_refl j s⟩

theorem Rely.trans {s'' : S.State} (h : c.Rely j s s') (h' : c.Rely j s' s'') : c.Rely j s s'' :=
  ⟨h'.inv, c.later_trans h.later h'.later, c.keeps_trans h.keeps h'.keeps⟩

theorem Moves.refl (h : c.inv s) : c.Moves j s s := ⟨h, c.later_refl s, c.acts_refl j s⟩

variable {op : S.Op} {p : Program S.Op S.Answer α}

theorem Harmless.mono (h : c.Harmless j op s) (hs : c.later s s') : c.Harmless j op s' :=
  fun t ht hst => h t ht (c.later_trans hs hst)

@[simp] theorem wp_pure {a : α} : c.wp j (pure a) Q s₀ s ↔ Q s₀ s a := Iff.rfl

theorem wp_mono (h : c.wp j p Q s₀ s) (hQ : ∀ s₀ s a, Q s₀ s a → R s₀ s a) : c.wp j p R s₀ s := by
  induction p generalizing s₀ s with
  | done a => exact hQ s₀ s a h
  | call op next ih =>
    intro s' hs'
    obtain ⟨hop, hnext, hlost⟩ := h s' hs'
    exact ⟨hop, fun fate => ih _ (hnext fate), fun a ha => ih _ (hlost a ha)⟩

@[simp] theorem wp_bind {f : α → Program S.Op S.Answer β}
    {Q : S.State → S.State → β → Prop} :
    c.wp j (p >>= f) Q s₀ s ↔ c.wp j p (fun s₀ s a => c.wp j (f a) Q s₀ s) s₀ s := by
  induction p generalizing s₀ s with
  | done a => exact Iff.rfl
  | call op next ih =>
    refine forall_congr' fun s' => forall_congr' fun _ =>
      and_congr_right fun _ => and_congr (forall_congr' fun fate => ?_)
        (forall_congr' fun a => forall_congr' fun _ => ?_)
    · exact ih _
    · exact ih _

/-- A program leaves the state in order, and later than it found it. -/
theorem wp_later {t : S.State} (h : c.wp j p Q s₀ s) (hinv : c.inv s) (hlater : c.later t s) :
    c.wp j p (fun s₀ s a => Q s₀ s a ∧ c.inv s ∧ c.later t s) s₀ s := by
  induction p generalizing s₀ s with
  | done a => exact ⟨h, hinv, hlater⟩
  | call op next ih =>
    intro s' hs'
    obtain ⟨hop, hnext, hlost⟩ := h s' hs'
    have hlater' := c.later_trans hlater hs'.later
    refine ⟨hop, fun fate => ?_, fun a ha => ?_⟩
    · have hmoves := hop s' hs'.inv (c.later_refl s') fate
      exact ih _ (hnext fate) hmoves.inv (c.later_trans hlater' hmoves.later)
    · exact ih _ (hlost a ha) hs'.inv hlater'

/-- A program that still has an operation ahead does not mind what the
others do first. -/
theorem wp_rely (h : c.wp j p Q s₀ s) (hp : p.result? = none)
    (hs : c.Rely j s s') : c.wp j p Q t₀ s' := by
  cases p with
  | done a => cases hp
  | call op next => exact fun t ht => h t (hs.trans ht)

/-- An operation that only looks is harmless. -/
theorem harmless_of_read (h : ∀ fate s, (S.exec op fate s).2 = s) : c.Harmless j op s := by
  intro s' hs' _ fate
  rw [h]
  exact .refl hs'

/-- One operation that only looks. -/
theorem wp_read {Q : S.State → S.State → S.Answer op → Prop}
    (h : ∀ fate s, (S.exec op fate s).2 = s)
    (hQ : ∀ s', c.Rely j s s' → (∀ fate, Q s' s' (S.exec op fate s').1) ∧
        ∀ a ∈ S.lost op, Q s' s' a) :
    c.wp j (Program.perform op) Q s₀ s := by
  intro s' hs'
  refine ⟨harmless_of_read h, fun fate => ?_, (hQ s' hs').2⟩
  rw [h]
  exact (hQ s' hs').1 fate

-- ===== programs that fail

@[simp] theorem wp_run_pure {a : α} {Q : S.State → S.State → Except ε α → Prop} :
    c.wp j (pure a : ExceptT ε (Program S.Op S.Answer) α).run Q s₀ s ↔ Q s₀ s (.ok a) := Iff.rfl

variable {x : ExceptT ε (Program S.Op S.Answer) α}

@[simp] theorem wp_run_bind
    {f : α → ExceptT ε (Program S.Op S.Answer) β}
    {Q : S.State → S.State → Except ε β → Prop} :
    c.wp j (x >>= f).run Q s₀ s ↔ c.wp j x.run (fun s₀ s r => match r with
        | .ok a => c.wp j (f a).run Q s₀ s
        | .error e => Q s₀ s (.error e)) s₀ s := by
  refine wp_bind.trans (Iff.of_eq ?_)
  congr 1
  funext s₀ s r
  cases r <;> rfl

@[simp] theorem wp_run_lift {Q : S.State → S.State → Except ε α → Prop} :
    c.wp j (ExceptT.lift p : ExceptT ε (Program S.Op S.Answer) α).run Q
      s₀ s ↔ c.wp j p (fun s₀ s a => Q s₀ s (.ok a)) s₀ s := by
  refine wp_bind.trans (Iff.of_eq ?_)
  rfl

@[simp] theorem wp_run_observe
    {Q : S.State → S.State → Except ε (Except ε α) → Prop} :
    c.wp j (Program.observe x).run Q s₀ s ↔ c.wp j x.run (fun s₀ s r => Q s₀ s (.ok r)) s₀ s :=
  wp_run_lift

@[simp] theorem wp_run_check {x : Except ε α}
    {Q : S.State → S.State → Except ε α → Prop} :
    c.wp j (Program.check x : ExceptT ε (Program S.Op S.Answer) α).run Q s₀ s ↔ Q s₀ s x := Iff.rfl

variable {f : α → ExceptT ε (Program S.Op S.Answer) β} {R : S.State → S.State → Except ε β → Prop}

theorem wp_check_bind {x : Except ε α} : c.wp j (Program.check x >>= f).run R s₀ s ↔ match x with
      | .ok a => c.wp j (f a).run R s₀ s
      | .error e => R s₀ s (.error e) :=
  wp_run_bind.trans wp_run_check

theorem wp_observe_bind
    {f : Except ε α → ExceptT ε (Program S.Op S.Answer) β} :
    c.wp j (Program.observe x >>= f).run R s₀ s ↔
      c.wp j x.run (fun s₀ s r => c.wp j (f r).run R s₀ s) s₀ s :=
  wp_run_bind.trans wp_run_observe

theorem wp_ite {b : Prop} [Decidable b] {x y : ExceptT ε (Program S.Op S.Answer) β}
    (hx : b → c.wp j x.run R s₀ s) (hy : ¬b → c.wp j y.run R s₀ s) :
    c.wp j (if b then x else y).run R s₀ s := by
  split
  next h => exact hx h
  next h => exact hy h

end Contract

end LlmTemporalWorker.Lib
