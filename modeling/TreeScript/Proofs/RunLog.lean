import TreeScript.Effect.Dispatch
import TreeScript.Platform.Bundled
import TreeScript.Proofs.Batches
import TreeScript.Proofs.HostIndependence

/-!
# The log of a run

A session whose effects are answered by a dispatcher has a log to which the dispatcher adds what it
is asked for and what is printed, and the session adds why a run has failed. Here the log is told
from the effects that the program has asked for (`Session.asked`), without looking at it:
`attendAll` does for each of them what the table says, one after the other, and `Attended.records`
says what is to be found in the log for one of them.

A step of a run that asks for nothing leaves the log and the host as they are, and one that asks is
attended. From this `Script.run_attends` follows by induction on the course of a run. The main
statement `log_of_run` is about sessions that may have been through any number of runs, failed ones
among them, and of resets.
-/

namespace TreeScript

/-! ## What is done for effects -/

section

variable {τ : Type}

/-- What an action answers, and the host after it. -/
def Effect.Action.complete (action : Action τ) (args : Bindings) (host : Host τ) :
    Result Value × Host τ :=
  match action.start args host with
  | (.finished outcome, after) => (outcome, after)
  | (.waiting pending, after) => finishCall pending after

/-- An effect that a program has asked for, with what came of it. -/
structure Attended where
  /-- The name. -/
  name : String
  /-- The arguments. -/
  args : Bindings
  /-- What the action of this name has answered, or how it has failed; nothing if there is none. -/
  outcome? : Option (Result Value)

namespace Attended

/-- There is an action of the name, and it has answered. -/
def Answered (c : Attended) : Prop := ∃ v, c.outcome? = some (.ok v)

/-- What is in the log for an effect: that it was asked for, if there is an action of its name, and
then the answer if that was to be printed. -/
def records (c : Attended) : List Record :=
  match c.outcome? with
  | none => []
  | some (.error _) => [.effect (.str c.name) c.args]
  | some (.ok v) => .effect (.str c.name) c.args :: if c.name = "print" then [.output v] else []

/-- What the program gets back. -/
def reply (c : Attended) : Result Value :=
  c.outcome?.getD (.error (.unknownEffect c.name))

theorem answered_of_reply {c : Attended} {v : Value} (h : c.reply = .ok v) : c.Answered := by
  obtain ⟨name, args, _ | outcome⟩ := c
  · cases h
  · exact ⟨v, congrArg some h⟩

end Attended

/-- Does what a table says for an effect. -/
def attend (table : Effect.Table τ) (request : Script.Request) (host : Host τ) :
    Attended × Host τ :=
  match table.find? request.1 with
  | none => (⟨request.1, request.2, none⟩, host)
  | some action =>
    let (outcome, after) := action.complete request.2 host
    (⟨request.1, request.2, some outcome⟩, after)

/-- Does what a table says for effects, one after the other. -/
def attendAll (table : Effect.Table τ) :
    List Script.Request → Host τ → List Attended × Host τ
  | [], host => ([], host)
  | request :: rest, host =>
    let (first, after) := attend table request host
    let (others, last) := attendAll table rest after
    (first :: others, last)

theorem attendAll_cons (table : Effect.Table τ) (request : Script.Request)
    (rest : List Script.Request) (host : Host τ) :
    attendAll table (request :: rest) host =
      ((attend table request host).1 :: (attendAll table rest (attend table request host).2).1,
        (attendAll table rest (attend table request host).2).2) := rfl

/-- An effect leaves nothing in the log if and only if there is no action of its name. -/
theorem attend_records (table : Effect.Table τ) (request : Script.Request) (host : Host τ) :
    (attend table request host).1.records = [] ↔
      table.find? (attend table request host).1.name = none := by
  unfold attend
  cases haction : table.find? request.1 with
  | none => simp [Attended.records, haction]
  | some action =>
    rcases hcomplete : action.complete request.2 host with ⟨failure | v, after⟩ <;>
      simp [Attended.records, haction, hcomplete]

theorem attend_request (table : Effect.Table τ) (request : Script.Request) (host : Host τ) :
    ((attend table request host).1.name, (attend table request host).1.args) = request := by
  unfold attend
  cases table.find? request.1 <;> rfl

theorem attendAll_requests (table : Effect.Table τ) (requests : List Script.Request)
    (host : Host τ) :
    (attendAll table requests host).1.map (fun c => (c.name, c.args)) = requests := by
  induction requests generalizing host with
  | nil => rfl
  | cons request rest ih => rw [attendAll_cons, List.map_cons, attend_request, ih]

theorem attendAll_records {table : Effect.Table τ} {requests : List Script.Request}
    {host : Host τ} {c : Attended} (h : c ∈ (attendAll table requests host).1) :
    c.records = [] ↔ table.find? c.name = none := by
  induction requests generalizing host with
  | nil => cases h
  | cons request rest ih =>
    rw [attendAll_cons] at h
    rcases List.mem_cons.1 h with rfl | h
    · exact attend_records table request host
    · exact ih h

theorem Dispatcher.resolve_str (d : Dispatcher τ) (name : String) :
    d.resolve (.str name) =
      match d.table.find? name with
      | some action => .ok (name, action)
      | none => .error (.unknownEffect name) := by
  show (match d.table.find? name with
    | some action => pure (name, action)
    | none => throw (Failure.unknownEffect name)) = _
  cases d.table.find? name <;> rfl

/-- A dispatcher attends to an effect. -/
theorem Dispatcher.call_str (d : Dispatcher τ) (name : String) (args : Bindings) :
    d.call (.str name) args =
      ⟨(attend d.table (name, args) d.host).1.reply, (attend d.table (name, args) d.host).1.records,
        { d with host := (attend d.table (name, args) d.host).2 }⟩ := by
  have houtput : ∀ outcome, .effect (.str name) args :: outputRecords name outcome =
      Attended.records ⟨name, args, some outcome⟩ := by
    intro outcome
    cases outcome with
    | error failure => rfl
    | ok v => simp [outputRecords, Attended.records, printName]
  unfold call start attend
  rw [resolve_str]
  cases d.table.find? name with
  | none => rfl
  | some action =>
    dsimp only [Effect.Action.complete]
    rcases action.start args d.host with ⟨outcome | pending, after⟩
    · simp only [resume, List.singleton_append, houtput]
      rfl
    · simp only [resume, List.singleton_append, houtput]
      rfl

/-- What is recorded gets into the log that the dispatcher records into. -/
theorem Dispatcher.handler_eq {log : LogRef} {d : Dispatcher τ} (hsink : d.sink = some log)
    (name : String) (args : Bindings) :
    Dispatcher.handler log name args d =
      ⟨(attend d.table (name, args) d.host).1.reply, (attend d.table (name, args) d.host).1.records,
        { d with host := (attend d.table (name, args) d.host).2 }⟩ := by
  rw [handler, call_str, recordedIn, if_pos hsink]

/-! ## Runs -/

/-- What a run that asks for effects does with the log and the host of a machine. -/
structure Attends {α : Type} (m : Machine (Dispatcher τ)) (requests : List Script.Request)
    (ended : Except Stop α × Machine (Dispatcher τ)) : Prop where
  log_eq : ended.2.log =
    m.log ++ (attendAll m.host.table requests m.host.host).1.flatMap Attended.records
  host_eq : ended.2.host =
    { m.host with host := (attendAll m.host.table requests m.host.host).2 }
  /-- Only the last effect may have failed. -/
  early : ∀ c ∈ (attendAll m.host.table requests m.host.host).1.dropLast, c.Answered
  /-- None has failed if the run returns. -/
  returns : ∀ a, ended.1 = .ok a → ∀ c ∈ (attendAll m.host.table requests m.host.host).1, c.Answered

namespace Attends

variable {α : Type} {m m' : Machine (Dispatcher τ)} {requests : List Script.Request}
  {request : Script.Request} {ended : Except Stop α × Machine (Dispatcher τ)}

/-- The machine is as it was, as far as the log and the host go. -/
theorem still (outcome : Except Stop α) (hlog : m'.log = m.log) (hhost : m'.host = m.host) :
    Attends m [] (outcome, m') where
  log_eq := hlog.trans (List.append_nil m.log).symm
  host_eq := hhost
  early := fun _ h => nomatch h
  returns := fun _ _ _ h => nomatch h

/-- Where the machine has stayed as it was, a run goes on. -/
theorem of_still (h : Attends m' requests ended) (hlog : m'.log = m.log)
    (hhost : m'.host = m.host) :
    Attends m requests ended := by
  obtain ⟨hlog', hhost', hearly, hreturns⟩ := h
  rw [hhost] at hlog' hhost' hearly hreturns
  rw [hlog] at hlog'
  exact ⟨hlog', hhost', hearly, hreturns⟩

/-- A run that the host refuses an effect ends there. -/
theorem refused (stop : Stop)
    (hlog : m'.log = m.log ++ (attend m.host.table request m.host.host).1.records)
    (hhost : m'.host = { m.host with host := (attend m.host.table request m.host.host).2 }) :
    Attends m [request] ((.error stop : Except Stop α), m') where
  log_eq := by
    rw [hlog]
    simp [attendAll]
  host_eq := hhost
  early := by simp [attendAll]
  returns := fun _ h => nomatch h

/-- A run whose first effect is answered goes on with the others. -/
theorem cons (hfirst : (attend m.host.table request m.host.host).1.Answered)
    (hlog : m'.log = m.log ++ (attend m.host.table request m.host.host).1.records)
    (hhost : m'.host = { m.host with host := (attend m.host.table request m.host.host).2 })
    (h : Attends m' requests ended) : Attends m (request :: requests) ended := by
  obtain ⟨hlog', hhost', hearly, hreturns⟩ := h
  rw [hlog, hhost] at hlog'
  rw [hhost] at hhost' hearly hreturns
  refine ⟨?_, hhost', ?_, ?_⟩
  · rw [hlog', attendAll_cons, List.flatMap_cons, List.append_assoc]
  · intro c hc
    rw [attendAll_cons] at hc
    cases hothers : (attendAll m.host.table requests
        (attend m.host.table request m.host.host).2).1 with
    | nil =>
      rw [hothers] at hc
      cases hc
    | cons second others =>
      rw [hothers, List.dropLast_cons_cons, ← hothers] at hc
      rcases List.mem_cons.1 hc with rfl | hc
      · exact hfirst
      · exact hearly c hc
  · intro a ha c hc
    rcases List.mem_cons.1 hc with rfl | hc
    · exact hfirst
    · exact hreturns a ha c hc

end Attends

/-- A step that asks is attended. -/
theorem Step.run_perform {log : LogRef} {m : Machine (Dispatcher τ)}
    (hsink : m.host.sink = some log) (name : String) (args : Bindings) :
    ∃ m', ((perform name args).run (some (Dispatcher.handler log))).run.run m =
        ((attend m.host.table (name, args) m.host.host).1.reply.mapError Stop.failure, m') ∧
      m'.log = m.log ++ (attend m.host.table (name, args) m.host.host).1.records ∧
      m'.host = { m.host with host := (attend m.host.table (name, args) m.host.host).2 } := by
  obtain ⟨trace, hrun⟩ := Run.ask_run (Dispatcher.handler log) name args m
  rw [Dispatcher.handler_eq hsink] at hrun
  exact ⟨_, hrun, rfl, rfl⟩

/-- A run records the effects that it asks for, and only these. -/
theorem Script.run_attends {α : Type} {log : LogRef} (x : Script α) (m : Machine (Dispatcher τ))
    (hsink : m.host.sink = some log) :
    Attends m (x.asked (some (Dispatcher.handler log)) m)
      ((x.run (some (Dispatcher.handler log))).run.run m) := by
  induction x generalizing m with
  | done a => exact .still (.ok a) rfl rfl
  | stop cause => exact .still (.error cause.stop) rfl rfl
  | step s next ih =>
    cases hask : s.request? with
    | none =>
      obtain ⟨r, m', hrun, -, -, -, hhost, hlog⟩ :=
        Step.run_withHost hask (some (Dispatcher.handler log)) (none : Option (Handler Unit)) m ()
      rw [asked, hask, hrun, run_step_of_ok hrun]
      exact (ih r m' (hhost ▸ hsink)).of_still hlog hhost
    | some request =>
      cases s with
      | perform name args =>
        obtain rfl := Option.some.inj hask
        obtain ⟨m', hrun, hlog, hhost⟩ := Step.run_perform hsink name args
        cases hreply : (attend m.host.table (name, args) m.host.host).1.reply with
        | error failure =>
          rw [hreply] at hrun
          rw [asked, hask, hrun, run_step_of_error hrun]
          exact .refused _ hlog hhost
        | ok v =>
          rw [hreply] at hrun
          rw [asked, hask, hrun, run_step_of_ok hrun]
          exact .cons (Attended.answered_of_reply hreply) hlog hhost
            (ih v m' (by rw [hhost]; exact hsink))
      | _ => cases hask

end

/-! ## Sessions -/

namespace Session

variable {σ τ : Type}

/-- What can happen to a session. -/
inductive Event where
  /-- A program is given to it, with some fuel. -/
  | run (fuel : Nat) (program : Value)
  /-- It is reset. -/
  | reset

/-- The session after something has happened, whatever has come of it. -/
def undergo (s : Session σ) : Event → Session σ
  | .run fuel program => (s.handle fuel program).2
  | .reset => s.reset

/-- A run that has stopped is reported, or why it has stopped is passed on. -/
theorem stopped_cases (s : Session σ) (stop : Stop) :
    (∃ message, s.stopped stop = s.fail message) ∨
      ∃ stop', s.stopped stop = (.error stop', s) := by
  cases stop with
  | outOfFuel => exact .inr ⟨_, rfl⟩
  | failure failure =>
    unfold stopped
    dsimp only
    split
    · exact .inr ⟨_, rfl⟩
    · exact .inl ⟨_, rfl⟩
    · exact .inl ⟨_, rfl⟩

theorem asked_of_refused (s : Session σ) (fuel : Nat) {program : Value} {message : String}
    (h : Refused s.yaml program message) : s.asked fuel program = [] := by
  unfold asked
  rcases h with ⟨failure, hparse, -⟩ | ⟨tree, flaw, hparse, hdecode, -⟩
  · rw [hparse]
    rfl
  · rw [hparse, Result.ok_bind, hdecode]

/-- The session has a dispatcher with a table, which records into the log of the session. -/
structure RecordsInto (log : LogRef) (table : Effect.Table τ)
    (s : Session (Dispatcher τ)) : Prop where
  handler : s.handler = some (Dispatcher.handler log)
  table : s.machine.host.table = table
  sink : s.machine.host.sink = some log

/-- A session over a dispatcher has its records, wherever they went before. -/
theorem withDispatcher_recordsInto (yaml : Yaml.Library) (log : LogRef) (env : Environment)
    (scopes : Array Environment) (tracing : Bool) (d : Dispatcher τ) :
    RecordsInto log d.table (withDispatcher yaml log env scopes tracing d) :=
  ⟨rfl, rfl, rfl⟩

/-- What a program does in a session with a dispatcher. -/
theorem evalAll_attends {log : LogRef} {table : Effect.Table τ} {s : Session (Dispatcher τ)}
    (hs : s.RecordsInto log table) (fuel : Nat) {program : Value} {es : List Expr}
    (hgiven : Given s.yaml program es) :
    Attends s.fresh.machine (s.asked fuel program)
      ((evalAll s.handler fuel es s.env).run.run s.fresh.machine) := by
  rw [s.asked_of_given fuel hgiven, ← evaluations_run, hs.handler]
  exact Script.run_attends _ _ hs.sink

/-- Whatever comes of a run, the session keeps its dispatcher with the same table. If it reports, it
has logged the effects of the run and the failure. -/
theorem handle_attends {log : LogRef} {table : Effect.Table τ} {s : Session (Dispatcher τ)}
    (hs : s.RecordsInto log table) (fuel : Nat) (program : Value) :
    let attended := (attendAll table (s.asked fuel program) s.machine.host.host).1
    let ended := s.handle fuel program
    RecordsInto log table ended.2 ∧
    ∀ report, ended.1 = .ok report →
      ended.2.machine.log =
        attended.flatMap Attended.records ++ (report.errorMessage?.map Record.error).toList ∧
      (∀ c ∈ attended.dropLast, c.Answered) ∧
      (report.errorMessage? = none → ∀ c ∈ attended, c.Answered) := by
  obtain ⟨hhandler, rfl, hsink⟩ := hs
  intro attended ended
  rcases s.handle_cases fuel program with
    ⟨es, hgiven, hrun⟩ | ⟨message, hrefused, hfail⟩ | ⟨failure, hraise⟩
  · obtain ⟨hlog, hhost, hearly, hreturns⟩ := evalAll_attends ⟨hhandler, rfl, hsink⟩ fuel hgiven
    have htable := congrArg Dispatcher.table hhost
    have hsink' := (congrArg Dispatcher.sink hhost).trans hsink
    rcases s.fresh.run_cases fuel es with ⟨results, env, m, heval, hrun'⟩ | ⟨stop, m, heval, hrun'⟩
    · change (evalAll s.handler fuel es s.env).run.run s.fresh.machine = _ at heval
      rw [heval] at hlog htable hsink' hreturns
      rw [show ended = _ from hrun.trans hrun']
      refine ⟨⟨hhandler, htable, hsink'⟩, ?_⟩
      rintro _ ⟨⟩
      exact ⟨hlog.trans (List.append_nil _).symm, hearly, fun _ => hreturns _ rfl⟩
    · change (evalAll s.handler fuel es s.env).run.run s.fresh.machine = _ at heval
      rw [heval] at hlog htable hsink'
      rcases stopped_cases { s.fresh with machine := m } stop with
        ⟨message, hfail⟩ | ⟨stop', hraise⟩
      · rw [show ended = _ from hrun.trans (hrun'.trans hfail)]
        refine ⟨⟨hhandler, htable, hsink'⟩, ?_⟩
        rintro _ ⟨⟩
        exact ⟨congrArg (· ++ [Record.error message]) hlog, hearly, fun hnone => nomatch hnone⟩
      · rw [show ended = _ from hrun.trans (hrun'.trans hraise)]
        exact ⟨⟨hhandler, htable, hsink'⟩, fun _ hok => nomatch hok⟩
  · have hnone : attended = [] := by
      show (attendAll _ (s.asked fuel program) _).1 = []
      rw [s.asked_of_refused fuel hrefused]
      rfl
    rw [show ended = _ from hfail, hnone]
    refine ⟨⟨hhandler, rfl, hsink⟩, ?_⟩
    rintro _ ⟨⟩
    exact ⟨rfl, (fun _ hc => nomatch hc), fun hnone => nomatch hnone⟩
  · rw [show ended = _ from hraise]
    exact ⟨⟨hhandler, rfl, hsink⟩, fun _ hok => nomatch hok⟩

/-- The session keeps its dispatcher with the same table in all that can happen to it. -/
theorem RecordsInto.history {log : LogRef} {table : Effect.Table τ} {s : Session (Dispatcher τ)}
    (hs : s.RecordsInto log table) (history : List Event) :
    RecordsInto log table (history.foldl undergo s) := by
  induction history generalizing s with
  | nil => exact hs
  | cons event later ih =>
    refine ih ?_
    cases event with
    | run fuel program => exact (handle_attends hs fuel program).1
    | reset => exact ⟨hs.handler, hs.table, hs.sink⟩

/-- Let a session be made over a dispatcher, whose actions may change the context and keep a state
of their own, and which may have recorded into another log before. Let programs have been run in it,
and let it have been reset, any number of times and whatever came of it. If it reports on another
program, its log has in order: for each effect that the program has asked for, if there is an action
of this name in the table, that it was asked for, and then its answer if the name is `print` and the
action has answered; and at the end the failure, if and only if one is reported. Nothing else is in
it. There is nothing for effects without an action, all effects but the last have been answered, and
the last has too unless a failure is reported. -/
theorem log_of_run (yaml : Yaml.Library) (log : LogRef) (d : Dispatcher τ) (env : Environment)
    (scopes : Array Environment) (tracing : Bool) (history : List Event) {fuel : Nat}
    {program : Value} {report : Report} {t : Session (Dispatcher τ)} :
    let s := history.foldl undergo (withDispatcher yaml log env scopes tracing d)
    let attended := (attendAll d.table (s.asked fuel program) s.machine.host.host).1
    s.handle fuel program = (.ok report, t) →
    t.machine.log =
      attended.flatMap Attended.records ++ (report.errorMessage?.map Record.error).toList ∧
    attended.map (fun c => (c.name, c.args)) = s.asked fuel program ∧
    (∀ c ∈ attended, c.records = [] ↔ d.table.find? c.name = none) ∧
    (∀ c ∈ attended.dropLast, c.Answered) ∧
    (report.errorMessage? = none → ∀ c ∈ attended, c.Answered) := by
  intro s attended h
  have hs : RecordsInto log d.table s :=
    (withDispatcher_recordsInto yaml log env scopes tracing d).history history
  obtain ⟨-, hreport⟩ := handle_attends hs fuel program
  rw [h] at hreport
  obtain ⟨hlog, hearly, hanswered⟩ := hreport report rfl
  exact ⟨hlog, attendAll_requests .., fun c hc => attendAll_records hc, hearly, hanswered⟩

/-- Counts how often it is asked, and answers with the number and the name of the model, which it
takes from the context. It fails from the third time on. -/
def tally : Effect.Action Nat :=
  .custom fun _ => do
    let host ← get
    set { host with own := host.own + 1 }
    if host.own < 2 then pure (.list [.int host.own, host.context.model])
    else throw (.value "asked too often")

/-- A dispatcher that prints what the counting action answers, and has recorded into another log. -/
def counting : Dispatcher Nat where
  table := [("print", tally), ("count", tally)]
  host := { context := .default, world := .ofFiles .bundled default, own := 0 }
  sink := some 7

/-- A program of one effect. -/
def askFor (name : String) (args : List (Value × Arg)) : Value :=
  .node (.effect name args none none)

/-- What earlier runs have left in the log is not seen, but the action still knows of them. It is
asked under two names, of which the first is printed; the second time it fails. -/
theorem log_of_run_counting :
    let earlier := Event.run 2 (askFor "count" [])
    let s := [earlier, .reset].foldl undergo (withDispatcher .bundled 3 .empty #[] false counting)
    let program := Value.list [askFor "print" [], askFor "count" [], askFor "nope" []]
    let answer := Value.list [.int 1, .str Model.defaultName]
    let attended : List Attended := [⟨"print", [], some (.ok answer)⟩,
      ⟨"count", [], some (.error (.value "asked too often"))⟩]
    s.asked 2 program = [("print", []), ("count", [])] ∧
    ∃ message t, s.handle 2 program = (.ok (.error message), t) ∧
      t.machine.log = [.effect (.str "print") [], .output answer, .effect (.str "count") [],
        .error message] ∧
      (∀ c ∈ attended, c.records = [] ↔ counting.table.find? c.name = none) ∧
      ∀ c ∈ attended.dropLast, c.Answered := by
  intro earlier s program answer attended
  obtain ⟨message, t, hhandle⟩ : ∃ message t, s.handle 2 program = (.ok (.error message), t) :=
    ⟨_, _, rfl⟩
  have hasked : s.asked 2 program = [("print", []), ("count", [])] := rfl
  have hattended : (attendAll counting.table [("print", []), ("count", [])]
      s.machine.host.host).1 = attended := rfl
  obtain ⟨hlog, -, hrecords, hearly, -⟩ :=
    log_of_run .bundled 3 counting .empty #[] false [earlier, .reset] hhandle
  change t.machine.log = (attendAll counting.table (s.asked 2 program)
    s.machine.host.host).1.flatMap _ ++ _ at hlog
  rw [hasked, hattended] at hlog
  exact ⟨hasked, message, t, hhandle, hlog, hrecords, hearly⟩

end Session

end TreeScript
