/-
The storage under the durable state: rows that are read and written one
at a time, each write on a condition.

What becomes of an operation is not up to its caller. It may be
performed and acknowledged, it may be performed while its
acknowledgement is lost, or it may not be performed. A caller that
learns of no outcome is told so; an operation of which it is told
nothing may also land much later.
-/
import LlmTemporalWorker.Lib.Pool

namespace LlmTemporalWorker.CloudState

open Lib

/-- The errors of the durable state and of the storage below it. An
error that joins another one with an unknown outcome is an unknown
outcome; `indexPending` is joined with its cause. -/
inductive CloudError
  | invalid
  | corrupt
  | recordTooLarge
  | indexPending (cause : CloudError)
  | notFound
  | conflict
  | alreadyExists
  | outcomeUnknown
  | unavailable
  /-- The request has no budget plan, no provider execution, no attempt. -/
  | planMissing
  | executionMissing
  | attemptMissing
  deriving DecidableEq, Repr

namespace CloudError

/-- The storage was not available, or an acknowledgement was lost. -/
def isStorage : CloudError → Bool
  | .outcomeUnknown => true
  | .unavailable => true
  | _ => false

/-- A conflict, on its own or as the cause of a pending index. -/
def isConflict : CloudError → Bool
  | .conflict => true
  | .indexPending cause => cause.isConflict
  | _ => false

theorem isStorage_cases {e : CloudError} (h : e.isStorage = true) :
    e = .outcomeUnknown ∨ e = .unavailable := by
  cases e <;> simp_all [isStorage]

end CloudError

inductive Fate
  | done
  | lost
  | failed
  deriving DecidableEq, Repr

/-- A read of what may be missing. -/
def readRow {α : Type} (fate : Fate) (row : Option α) : Except CloudError α :=
  match fate, row with
  | .failed, _ => .error .unavailable
  | _, some value => .ok value
  | _, none => .error .notFound

/-- A conditional write: `next` is the state if the condition holds. -/
def writeRow {σ α : Type} (fate : Fate) (condition : Bool)
    (refusal : CloudError) (value : α) (s next : σ) :
    Except CloudError α × σ :=
  match fate with
  | .failed => (.error .unavailable, s)
  | .lost => (.error .outcomeUnknown, if condition then next else s)
  | .done => if condition then (.ok value, next) else (.error refusal, s)

/-- A store of rows and the calls that work on it. -/
structure Storage where
  (State Op : Type)
  Value : Op → Type
  (Event Job Result : Type)
  exec : (op : Op) → Fate → State → Except CloudError (Value op) × State
  event : Event → State → State
  program : Job → Program Op (fun op => Except CloudError (Value op)) Result

/-- A caller that stops waiting is told that the outcome is unknown. -/
abbrev Storage.system (D : Storage) : System where
  State := D.State
  Op := D.Op
  Answer := fun op => Except CloudError (D.Value op)
  Fate := Fate
  Event := D.Event
  Job := D.Job
  Result := D.Result
  exec := D.exec
  lost := fun _ => some (.error .outcomeUnknown)
  event := D.event
  program := D.program

section

variable {D : Storage} {c : Contract D.system} {j : D.Job} {op : D.Op}
variable {s₀ s : D.State}
variable {Q : D.State → D.State → Except CloudError (D.Value op) → Prop}

/-- One read. -/
theorem wp_get {row : D.State → Option (D.Value op)}
    (hexec : ∀ fate s, D.exec op fate s = (readRow fate (row s), s))
    (hsome : ∀ s' value, c.Rely j s s' → row s' = some value → Q s' s' (.ok value))
    (hnone : ∀ s', c.Rely j s s' → row s' = none → Q s' s' (.error .notFound))
    (hstorage : ∀ s' e, c.Rely j s s' → e.isStorage = true → Q s' s' (.error e)) :
    c.wp j (Program.request op).run Q s₀ s := by
  refine Contract.wp_read (fun fate s => ?_) fun s' hs' => ⟨fun fate => ?_, fun a ha => ?_⟩
  · exact congrArg Prod.snd (hexec fate s)
  · show Q s' s' (D.exec op fate s').1
    rw [hexec]
    cases hrow : row s' with
    | none =>
      cases fate with
      | failed => exact hstorage s' _ hs' rfl
      | done | lost => exact hnone s' hs' hrow
    | some value =>
      cases fate with
      | failed => exact hstorage s' _ hs' rfl
      | done | lost => exact hsome s' value hs' hrow
  · obtain rfl := Option.some.inj ha
    exact hstorage s' _ hs' rfl

/-- One conditional write. Where the condition holds it has to be
harmless, now and later. -/
theorem wp_put {condition : D.State → Bool} {refusal : CloudError}
    {value : D.Value op} {next : D.State → D.State}
    (hexec : ∀ fate s, D.exec op fate s = writeRow fate (condition s) refusal value s (next s))
    (hnext : ∀ s' t, c.Rely j s s' → c.inv t → c.later s' t →
      condition t = true → c.Moves j t (next t))
    (hdone : ∀ s', c.Rely j s s' → condition s' = true → Q s' (next s') (.ok value))
    (hrefused : ∀ s', c.Rely j s s' → condition s' = false → Q s' s' (.error refusal))
    (hstorage : ∀ s' t e, c.Rely j s s' → e.isStorage = true →
      t = s' ∨ condition s' = true ∧ t = next s' → Q s' t (.error e)) :
    c.wp j (Program.request op).run Q s₀ s := by
  intro s' hs'
  refine ⟨fun t ht hst fate => ?_, fun fate => ?_, fun a ha => ?_⟩
  · show c.Moves j t (D.exec op fate t).2
    rw [hexec]
    have hstay : c.Moves j t t := .refl ht
    cases hcond : condition t with
    | false => cases fate <;> exact hstay
    | true =>
      cases fate with
      | failed => exact hstay
      | done | lost => exact hnext s' t hs' ht hst hcond
  · show Q s' (D.exec op fate s').2 (D.exec op fate s').1
    rw [hexec]
    cases hcond : condition s' with
    | false =>
      cases fate with
      | failed | lost => exact hstorage s' s' _ hs' rfl (.inl rfl)
      | done => exact hrefused s' hs' hcond
    | true =>
      cases fate with
      | failed => exact hstorage s' s' _ hs' rfl (.inl rfl)
      | done => exact hdone s' hs' hcond
      | lost => exact hstorage s' _ _ hs' rfl (.inr ⟨hcond, rfl⟩)
  · obtain rfl := Option.some.inj ha
    exact hstorage s' s' _ hs' rfl (.inl rfl)

end

end LlmTemporalWorker.CloudState
