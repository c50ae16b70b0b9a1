import TreeScript.Proofs.Course

/-!
# What a host is asked

`Script.asked` lists the effects that a run asks its host for, in their order. What a sequence of
scripts asks for is put together from what its parts ask for, as long as these return
(`Script.asked_bind`).

What happened before a run is in the log, and a run adds to it without looking at it. So a run that
starts with a longer log ends as it would otherwise, with this log before its own
(`Script.run_ignoresLog`), and asks for the same (`Script.asked_prelog`).
-/

namespace TreeScript

variable {σ α β : Type} {handler : Option (Handler σ)}

/-- An effect that a host is asked for. -/
abbrev Script.Request := String × Bindings

/-- What a step asks the host for. -/
def Step.request? : Step → Option Script.Request
  | .perform name args => some (name, args)
  | _ => none

/-- The effects that the host is asked for when a script runs. -/
def Script.asked (handler : Option (Handler σ)) : Script α → Machine σ → List Request
  | .done _, _ => []
  | .stop _, _ => []
  | .step s next, m =>
    s.request?.toList ++
      match (s.run handler).run.run m with
      | (.ok r, m') => (next r).asked handler m'
      | (.error _, _) => []

/-- What the second of two scripts asks for comes after what the first asks for, if the first
returns. -/
theorem Script.asked_bind (x : Script α) (f : α → Script β) (m : Machine σ) :
    (x >>= f).asked handler m = x.asked handler m ++
      match (x.run handler).run.run m with
      | (.ok a, m') => (f a).asked handler m'
      | (.error _, _) => [] := by
  show (x.bind f).asked handler m = _
  induction x generalizing m with
  | done a => rfl
  | stop cause => rfl
  | step s next ih =>
    rw [bind, asked, asked]
    rcases hs : (s.run handler).run.run m with ⟨stop | r, m'⟩
    · rw [run_step_of_error hs]
      simp
    · rw [run_step_of_ok hs, List.append_assoc, ← ih r m']

/-! ## The log from before -/

/-- The machine with a log before its own. -/
def Machine.prelog (m : Machine σ) (records : List Record) : Machine σ :=
  { m with log := records ++ m.log }

/-- What a computation does is not changed by what is in the log before it. -/
def Run.IgnoresLog (x : Run σ α) : Prop :=
  ∀ m records, x.run.run (m.prelog records) = Prod.map id (·.prelog records) (x.run.run m)

namespace Run.IgnoresLog

theorem pure (a : α) : (Pure.pure a : Run σ α).IgnoresLog := fun _ _ => rfl

theorem throw (stop : Stop) : (MonadExcept.throw stop : Run σ α).IgnoresLog := fun _ _ => rfl

theorem ofResult (result : Result α) : (Run.ofResult result : Run σ α).IgnoresLog := by
  cases result with
  | ok a => exact pure a
  | error failure => exact throw _

theorem bind {x : Run σ α} {f : α → Run σ β} (hx : x.IgnoresLog) (hf : ∀ a, (f a).IgnoresLog) :
    (x >>= f).IgnoresLog := by
  intro m records
  rw [run_bind, run_bind, hx m records]
  rcases x.run.run m with ⟨stop | a, m'⟩
  · rfl
  · exact hf a m' records

theorem retrace (told : String → String) :
    (modify fun m => if m.tracing then { m with trace := told m.trace } else m :
      Run σ Unit).IgnoresLog := by
  intro m records
  show (Except.ok (), if m.tracing then { m.prelog records with trace := told m.trace }
    else m.prelog records) = ((.ok (), Machine.prelog (if m.tracing then
      { m with trace := told m.trace } else m) records) : Except Stop Unit × Machine σ)
  split <;> rfl

theorem adoptScope (v : Value) (env : Environment) :
    (adoptScope v env : Run σ Unit).IgnoresLog := by
  cases v <;> exact fun _ _ => rfl

theorem tellEffect (name : String) (args : Bindings) :
    (Run.tellEffect name args : Run σ Unit).IgnoresLog := by
  unfold Run.tellEffect
  split
  · exact retrace fun trace => trace ++ "[DBG] " ++ _ ++ "\n"
  · exact retrace fun trace => trace ++ "[DBG] EFFECT " ++ name ++ " "

/-- The host adds its records to the end of the log. -/
theorem perform (answer : Handler σ) (name : String) (args : Bindings) :
    (Run.perform answer name args).IgnoresLog := by
  intro m records
  have hrun : ∀ m : Machine σ, (Run.perform answer name args).run.run m =
      (Run.ofResult (answer name args m.host).outcome : Run σ Value).run.run
        { m with
          log := m.log ++ (answer name args m.host).records
          host := (answer name args m.host).host } := fun _ => rfl
  rw [hrun, hrun, ← ofResult _ _ records]
  simp only [Machine.prelog, List.append_assoc]

theorem step (s : Step) : (s.run handler).IgnoresLog := by
  cases s with
  | close env => exact fun _ _ => rfl
  | define key value env =>
    exact (adoptScope value env).bind fun _ => retrace fun trace => trace ++ "[DBG] " ++ _ ++ "\n"
  | branch taken e => exact retrace fun trace => trace ++ "[DBG] " ++ _ ++ "\n"
  | enter ref frame => exact fun _ _ => rfl
  | leave => exact fun _ _ => rfl
  | perform name args =>
    refine (tellEffect name args).bind fun _ => ?_
    cases handler with
    | none => exact throw _
    | some answer => exact perform answer name args

end Run.IgnoresLog

namespace Script

theorem run_ignoresLog (x : Script α) : (x.run handler).IgnoresLog := by
  induction x with
  | done a => exact .pure a
  | stop cause => exact .throw _
  | step s next ih => exact (Run.IgnoresLog.step s).bind ih

theorem asked_prelog (x : Script α) (m : Machine σ) (records : List Record) :
    x.asked handler (m.prelog records) = x.asked handler m := by
  induction x generalizing m with
  | done a => rfl
  | stop cause => rfl
  | step s next ih =>
    rw [asked, asked, Run.IgnoresLog.step s m records]
    rcases (s.run handler).run.run m with ⟨stop | r, m'⟩
    · rfl
    · exact congrArg (s.request?.toList ++ ·) (ih r m')

end Script

end TreeScript
