import Mathlib
import TreeScript.Effect.Dispatch

/-!
# The budget of calls of the model

Calls of the model share the depth of a context. A call reads its limit, then checks the depth and
reserves a level in one go, then words its request and asks the client, and takes what the client
delivers, which gives the level back if it is a failure. `advance` is one of these steps: `begin` is
the first three of them in a row, and `finish` is the last.

Calls that run side by side take their steps in any order, and the client delivers what it likes to
whom it likes. An `Interleaving` is what a number of calls has done so far in such a way, with an
`Event` for every step.

The depth has gone up by the number of calls that hold a level, and this is what the main statement
`calls_within_budget` rests on. A call that was refused, or found no client, has left no trace in
the context and has not asked. By `callAll_interleaves`, what a dispatcher does with calls side by
side is such an interleaving.
-/

namespace TreeScript.Model

/-- Where a call stands. -/
inductive Phase where
  /-- It has not begun. -/
  | ready
  /-- It knows its limit. -/
  | limited (limit : Int)
  /-- It has reserved a level. -/
  | reserved (client : Client)
  /-- It has asked the client and waits. -/
  | asking (client : Client) (request : Request)
  /-- The client has replied. -/
  | replied (outcome : Result Value)
  /-- The client has failed, and the level has been given back. -/
  | released (failure : Failure)
  /-- It is beyond the limit. -/
  | refused
  /-- There is no client. -/
  | clientless
  /-- Its limit is no number. -/
  | unlimited (failure : Failure)
  /-- It has reserved a level and failed to word its request. -/
  | unworded (failure : Failure)

namespace Phase

/-- Whether a call has a level of the depth. -/
def holds : Phase → Bool
  | reserved _ | asking .. | replied _ | unworded _ => true
  | _ => false

/-- Whether a call has not got as far as to reserve a level. -/
def idle : Phase → Bool
  | ready | limited _ | refused | clientless | unlimited _ => true
  | _ => false

/-- Whether a call waits for the client. -/
def isAsking : Phase → Bool
  | asking .. => true
  | _ => false

/-- Whether a call has got a reply. -/
def isReplied : Phase → Bool
  | replied _ => true
  | _ => false

theorem holds_of_idle {phase : Phase} (h : phase.idle = true) : phase.holds = false := by
  cases phase with
  | ready | limited | refused | clientless | unlimited => rfl
  | _ => cases h

end Phase

/-- Checks the depth against a limit and reserves a level. -/
def reserve (limit : Int) (context : Context) : Phase × Context :=
  if limit ≤ context.depth then (.refused, context)
  else
    match context.client with
    | none => (.clientless, context)
    | some client => (.reserved client, { context with depth := context.depth + 1 })

/-- A step of a call. What the client delivers counts where the call waits for it; a call that has
come to its end stays there. -/
def advance (args : Bindings) (delivered : Result Value) (phase : Phase) (context : Context) :
    Phase × Context :=
  match phase with
  | .ready =>
    match limitOf args context with
    | .error failure => (.unlimited failure, context)
    | .ok limit => (.limited limit, context)
  | .limited limit => reserve limit context
  | .reserved client =>
    match requestOf args context with
    | .error failure => (.unworded failure, context)
    | .ok request => (.asking client request, context)
  | .asking .. =>
    let (outcome, after) := finish (args.getD "expect" .null) delivered context
    match delivered with
    | .ok _ => (.replied outcome, after)
    | .error failure => (.released failure, after)
  | ended => (ended, context)

/-- What the client is asked in a step between two phases. -/
def asked? : Phase → Phase → Option Request
  | .reserved _, .asking _ request => some request
  | _, _ => none

/-! ## What a step does -/

/-- The limit of a call depends on the arguments and the limit of the context only. -/
theorem limitOf_congr (args : Bindings) {context context' : Context}
    (h : context'.maxDepth = context.maxDepth) : limitOf args context' = limitOf args context := by
  unfold limitOf
  rw [h]

theorem reserve_cases (limit : Int) (context : Context) :
    reserve limit context = (.refused, context) ∨ reserve limit context = (.clientless, context) ∨
      ∃ client, context.depth < limit ∧ reserve limit context =
        (.reserved client, { context with depth := context.depth + 1 }) := by
  unfold reserve
  split
  · exact .inl rfl
  · rename_i hlt
    cases context.client with
    | none => exact .inr (.inl rfl)
    | some client => exact .inr (.inr ⟨client, Int.not_le.1 hlt, rfl⟩)

/-- The four kinds of steps: a call stays idle, or reserves a level, or goes on with it, or gives it
back. -/
theorem advance_cases (args : Bindings) (delivered : Result Value) (phase : Phase)
    (context : Context) :
    (phase.idle = true ∧ ∃ phase', advance args delivered phase context = (phase', context) ∧
      phase'.idle = true ∧ ∀ limit, phase' = .limited limit → limitOf args context = .ok limit) ∨
    (∃ limit client, phase = .limited limit ∧ context.depth < limit ∧
      advance args delivered phase context =
        (.reserved client, { context with depth := context.depth + 1 })) ∨
    (phase.idle = false ∧ ∃ phase', advance args delivered phase context = (phase', context) ∧
      phase'.idle = false ∧ phase'.holds = phase.holds) ∨
    (∃ client request failure, phase = .asking client request ∧
      advance args delivered phase context =
        (.released failure, { context with depth := context.depth - 1 })) := by
  cases phase with
  | ready =>
    refine .inl ⟨rfl, ?_⟩
    unfold advance
    cases limitOf args context with
    | error failure => exact ⟨_, rfl, rfl, fun _ h => nomatch h⟩
    | ok limit =>
      refine ⟨_, rfl, rfl, fun limit' h => ?_⟩
      cases h
      rfl
  | limited limit =>
    rcases reserve_cases limit context with hrefused | hclientless | ⟨client, hlt, hreserved⟩
    · exact .inl ⟨rfl, .refused, hrefused, rfl, fun _ h => nomatch h⟩
    · exact .inl ⟨rfl, .clientless, hclientless, rfl, fun _ h => nomatch h⟩
    · exact .inr (.inl ⟨limit, client, rfl, hlt, hreserved⟩)
  | reserved client =>
    refine .inr (.inr (.inl ⟨rfl, ?_⟩))
    unfold advance
    cases requestOf args context with
    | error failure => exact ⟨_, rfl, rfl, rfl⟩
    | ok request => exact ⟨_, rfl, rfl, rfl⟩
  | asking client request =>
    cases delivered with
    | ok reply => exact .inr (.inr (.inl ⟨rfl, _, rfl, rfl, rfl⟩))
    | error failure => exact .inr (.inr (.inr ⟨client, request, failure, rfl, rfl⟩))
  | refused | clientless => exact .inl ⟨rfl, _, rfl, rfl, fun _ h => nomatch h⟩
  | unlimited failure => exact .inl ⟨rfl, _, rfl, rfl, fun _ h => nomatch h⟩
  | replied | released | unworded => exact .inr (.inr (.inl ⟨rfl, _, rfl, rfl, rfl⟩))

/-! ## Calls side by side -/

/-- Calls with the context that they share. -/
structure Calls where
  /-- The context. -/
  context : Context
  /-- The arguments of each call, and where it stands. -/
  calls : List (Bindings × Phase)

/-- Calls that have not begun. -/
def Calls.start (context : Context) (argss : List Bindings) : Calls :=
  ⟨context, argss.map fun args => (args, .ready)⟩

/-- The number of calls in phases of some kind. -/
def Calls.count (s : Calls) (kind : Phase → Bool) : Nat := s.calls.countP fun call => kind call.2

/-- A step of a call. -/
structure Event where
  /-- Which call it is. -/
  caller : Nat
  /-- The context before the step. -/
  before : Context
  /-- The context after the step. -/
  after : Context
  /-- What the client is asked in the step. -/
  asked : Option Request

/-- A level is reserved in a step, for a call whose limit is above the depth. -/
def Event.Reserves (e : Event) (args : Bindings) : Prop :=
  ∃ limit, limitOf args e.before = .ok limit ∧ e.before.depth < limit ∧
    e.after = { e.before with depth := e.before.depth + 1 }

/-- What calls have done so far that take their steps in any order, while the texts that are kept
beside them may change. -/
inductive Interleaving (s₀ : Calls) : List Event → Calls → Prop
  | start : Interleaving s₀ [] s₀
  | call {events : List Event} {s : Calls} {i : Nat} {args : Bindings} {phase phase' : Phase}
    {after : Context} (delivered : Result Value) :
    Interleaving s₀ events s → s.calls[i]? = some (args, phase) →
      advance args delivered phase s.context = (phase', after) →
      Interleaving s₀ (events ++ [⟨i, s.context, after, asked? phase phase'⟩])
        ⟨after, s.calls.set i (args, phase')⟩
  | keep {events : List Event} {s : Calls} (store : Bindings) :
    Interleaving s₀ events s →
      Interleaving s₀ events { s with context := { s.context with store := store } }

/-- What holds of calls at every time, given the context and the arguments at the beginning. -/
structure Budget (context : Context) (argss : List Bindings) (events : List Event) (s : Calls) :
    Prop where
  args_eq : s.calls.map Prod.fst = argss
  maxDepth_eq : s.context.maxDepth = context.maxDepth
  /-- The depth counts the levels that are held. -/
  depth_eq : s.context.depth = context.depth + s.count Phase.holds
  depth_le : ∀ most, (∀ args ∈ argss, ∀ limit, limitOf args context = .ok limit → limit ≤ most) →
    s.context.depth ≤ max context.depth most
  limit_eq : ∀ (i : Nat) args limit, s.calls[i]? = some (args, .limited limit) →
    limitOf args context = .ok limit
  /-- A call without a level has changed nothing and asked nothing. -/
  idle : ∀ (i : Nat) args phase, s.calls[i]? = some (args, phase) → phase.idle = true →
    ∀ e ∈ events, e.caller = i → e.after = e.before ∧ e.asked = none
  reserved : ∀ (i : Nat) args phase, s.calls[i]? = some (args, phase) → phase.idle = false →
    ∃ e ∈ events, e.caller = i ∧ e.Reserves args
  /-- Who asks the client has reserved a level before. -/
  asked : ∀ earlier e, earlier ++ [e] <+: events → e.asked.isSome = true →
    ∃ args, argss[e.caller]? = some args ∧ ∃ r ∈ earlier, r.caller = e.caller ∧ r.Reserves args

theorem countP_set {α : Type} {p : α → Bool} {l : List α} {i : Nat} {a b : α}
    (h : l[i]? = some b) :
    (l.set i a).countP p + (p b).toNat = l.countP p + (p a).toNat := by
  induction l generalizing i with
  | nil => cases h
  | cons x rest ih =>
    cases i with
    | zero =>
      cases h
      rw [List.set_cons_zero, List.countP_cons, List.countP_cons]
      cases p a <;> cases p b <;> rfl
    | succ i =>
      have hrest := ih h
      rw [List.set_cons_succ, List.countP_cons, List.countP_cons]
      omega

theorem getElem?_set_eq_some {α : Type} {l : List α} {i j : Nat} {a b x : α} (h : l[i]? = some b)
    (hx : (l.set i a)[j]? = some x) : j = i ∧ x = a ∨ j ≠ i ∧ l[j]? = some x := by
  have hi : i < l.length := (List.getElem?_eq_some_iff.1 h).1
  by_cases hj : j = i
  · subst hj
    rw [List.getElem?_set_self hi] at hx
    exact .inl ⟨rfl, (Option.some.inj hx).symm⟩
  · rw [List.getElem?_set_ne (Ne.symm hj)] at hx
    exact .inr ⟨hj, hx⟩

namespace Budget

variable {context after : Context} {argss : List Bindings} {events : List Event} {s : Calls}
  {i : Nat} {args : Bindings} {phase phase' : Phase}

theorem start (context : Context) (argss : List Bindings) :
    Budget context argss [] (.start context argss) where
  args_eq := by
    show (argss.map fun args => (args, Phase.ready)).map Prod.fst = argss
    rw [List.map_map]
    exact List.map_id argss
  maxDepth_eq := rfl
  depth_eq := by
    have hcount : (Calls.start context argss).count Phase.holds = 0 :=
      List.countP_eq_zero.2 (by simp [Calls.start, Phase.holds])
    rw [hcount]
    exact (Int.add_zero context.depth).symm
  depth_le := fun most _ => Int.le_max_left context.depth most
  limit_eq := by simp [Calls.start]
  idle := fun _ _ _ _ _ _ h => nomatch h
  reserved := by
    intro i args phase hcall hphase
    obtain ⟨args', -, hready⟩ := List.mem_map.1 (List.mem_of_getElem? hcall)
    cases hready
    cases hphase
  asked := by
    intro earlier e hearlier
    simp at hearlier

/-- Nothing but the depth of the context matters. -/
theorem keep (h : Budget context argss events s) (store : Bindings) :
    Budget context argss events { s with context := { s.context with store := store } } :=
  { h with }

theorem mem_args (h : Budget context argss events s) (hcall : s.calls[i]? = some (args, phase)) :
    argss[i]? = some args := by
  rw [← h.args_eq, List.getElem?_map, hcall]
  rfl

/-- The invariant is kept if a call goes from one phase to another and this fits what happens to the
context. -/
theorem set (h : Budget context argss events s) (hcall : s.calls[i]? = some (args, phase))
    {asked : Option Request} (hmax : after.maxDepth = s.context.maxDepth)
    (hdepth : after.depth + phase.holds.toNat = s.context.depth + phase'.holds.toNat)
    (hle : after.depth ≤ s.context.depth ∨ ∃ limit, phase = .limited limit ∧ after.depth ≤ limit)
    (hlimit : ∀ limit, phase' = .limited limit → limitOf args context = .ok limit)
    (hidle : phase'.idle = true → phase.idle = true ∧ after = s.context ∧ asked = none)
    (hreserved : phase'.idle = false →
      phase.idle = false ∨ Event.Reserves ⟨i, s.context, after, asked⟩ args)
    (hasked : asked.isSome = true → phase.idle = false) :
    Budget context argss (events ++ [⟨i, s.context, after, asked⟩])
      ⟨after, s.calls.set i (args, phase')⟩ where
  args_eq := by
    have hi : i < argss.length := (List.getElem?_eq_some_iff.1 (h.mem_args hcall)).1
    have hargs : argss[i] = args := (List.getElem?_eq_some_iff.1 (h.mem_args hcall)).2
    rw [List.map_set, h.args_eq, ← hargs]
    exact List.set_getElem_self hi
  maxDepth_eq := hmax.trans h.maxDepth_eq
  depth_eq := by
    have hcount := countP_set (p := fun call : Bindings × Phase => call.2.holds)
      (a := (args, phase')) hcall
    -- this call is all that changes in the count
    have hold := h.depth_eq
    unfold Calls.count at hold ⊢
    dsimp only at hcount ⊢
    omega
  depth_le := by
    intro most hmost
    -- the depth grows only where a call is within its limit
    rcases hle with hle | ⟨limit, rfl, hle⟩
    · exact Int.le_trans hle (h.depth_le most hmost)
    · have hargs : args ∈ argss := List.mem_of_getElem? (h.mem_args hcall)
      have hlimit := hmost args hargs limit (h.limit_eq i args limit hcall)
      exact Int.le_trans (Int.le_trans hle hlimit) (Int.le_max_right ..)
  limit_eq := by
    intro j args' limit hj
    rcases getElem?_set_eq_some hcall hj with ⟨rfl, heq⟩ | ⟨-, hj⟩
    · cases heq
      exact hlimit limit rfl
    · exact h.limit_eq j args' limit hj
  idle := by
    intro j args' phase'' hj hphase e he hcaller
    rcases getElem?_set_eq_some hcall hj with ⟨rfl, heq⟩ | ⟨hne, hj⟩
    · cases heq
      obtain ⟨hphase, hafter, hnone⟩ := hidle hphase
      rcases List.mem_append.1 he with he | he
      · exact h.idle j args phase hcall hphase e he hcaller
      · obtain rfl := List.mem_singleton.1 he
        exact ⟨hafter, hnone⟩
    -- another call: the new event is not one of its own
    · rcases List.mem_append.1 he with he | he
      · exact h.idle j args' phase'' hj hphase e he hcaller
      · obtain rfl := List.mem_singleton.1 he
        exact absurd hcaller.symm hne
  reserved := by
    intro j args' phase'' hj hphase
    rcases getElem?_set_eq_some hcall hj with ⟨rfl, heq⟩ | ⟨-, hj⟩
    · cases heq
      rcases hreserved hphase with hphase | hnew
      · obtain ⟨e, he, hreserves⟩ := h.reserved j args phase hcall hphase
        exact ⟨e, List.mem_append_left _ he, hreserves⟩
      · exact ⟨_, List.mem_append_right _ (List.mem_singleton_self _), rfl, hnew⟩
    · obtain ⟨e, he, hreserves⟩ := h.reserved j args' phase'' hj hphase
      exact ⟨e, List.mem_append_left _ he, hreserves⟩
  asked := by
    intro earlier e hearlier hsome
    -- the new event itself, or one from before
    rcases List.prefix_concat_iff.1 hearlier with heq | hearlier
    · obtain ⟨rfl, he⟩ := List.append_inj' heq rfl
      cases he
      exact ⟨args, h.mem_args hcall, h.reserved i args phase hcall (hasked hsome)⟩
    · exact h.asked earlier e hearlier hsome

/-- Every step of a call keeps the invariant. -/
theorem advance (h : Budget context argss events s) (hcall : s.calls[i]? = some (args, phase))
    {delivered : Result Value} (hstep : advance args delivered phase s.context = (phase', after)) :
    Budget context argss (events ++ [⟨i, s.context, after, asked? phase phase'⟩])
      ⟨after, s.calls.set i (args, phase')⟩ := by
  rcases advance_cases args delivered phase s.context with
    ⟨hphase, _, hadvance, hphase', hlimit⟩ | ⟨limit, client, rfl, hlt, hadvance⟩ |
    ⟨hphase, _, hadvance, hphase', hholds⟩ | ⟨client, request, failure, rfl, hadvance⟩
  · cases hstep.symm.trans hadvance
    have hnone : asked? phase phase' = none := by
      cases phase with
      | reserved => cases hphase
      | _ => rfl
    refine h.set hcall rfl ?_ (.inl (Int.le_refl _)) ?_ (fun _ => ⟨hphase, rfl, hnone⟩) ?_ ?_
    · rw [Phase.holds_of_idle hphase, Phase.holds_of_idle hphase']
    · intro limit heq
      rw [← limitOf_congr args h.maxDepth_eq]
      exact hlimit limit heq
    · rw [hphase']
      exact fun h => nomatch h
    · rw [hnone]
      exact fun h => nomatch h
  · cases hstep.symm.trans hadvance
    have hreserves : Event.Reserves
        ⟨i, s.context, { s.context with depth := s.context.depth + 1 }, none⟩ args := by
      refine ⟨limit, ?_, hlt, rfl⟩
      rw [limitOf_congr args h.maxDepth_eq]
      exact h.limit_eq i args limit hcall
    refine h.set hcall rfl ?_ (.inr ⟨limit, rfl, hlt⟩) (fun _ heq => nomatch heq)
      (fun hidle => nomatch hidle) (fun _ => .inr hreserves) fun hsome => nomatch hsome
    exact Int.add_zero (s.context.depth + 1)
  · cases hstep.symm.trans hadvance
    refine h.set hcall rfl (by rw [hholds]) (.inl (Int.le_refl _)) ?_ ?_ (fun _ => .inl hphase)
      fun _ => hphase
    · rintro limit rfl
      cases hphase'
    · rw [hphase']
      exact fun h => nomatch h
  · cases hstep.symm.trans hadvance
    refine h.set hcall rfl ?_ (.inl (Int.sub_le_self _ (by decide))) (fun _ heq => nomatch heq)
      (fun hidle => nomatch hidle) (fun _ => .inl rfl) fun _ => rfl
    exact (Int.sub_add_cancel s.context.depth 1).trans (Int.add_zero s.context.depth).symm

end Budget

/-- The invariant holds whatever calls have done so far. -/
theorem Interleaving.budget {context : Context} {argss : List Bindings} {events : List Event}
    {s : Calls} (h : Interleaving (.start context argss) events s) :
    Budget context argss events s := by
  induction h with
  | start => exact .start context argss
  | call delivered _ hcall hstep ih => exact ih.advance hcall hstep
  | keep store _ ih => exact ih.keep store

/-- A call that waits for the client or has got a reply has a level. -/
theorem Calls.count_asking_add_replied (s : Calls) :
    s.count Phase.isAsking + s.count Phase.isReplied ≤ s.count Phase.holds := by
  have hphase : ∀ phase : Phase, (if phase.isAsking then 1 else 0) +
      (if phase.isReplied then 1 else 0) ≤ if phase.holds then 1 else 0 := by
    intro phase
    cases phase <;> simp [Phase.isAsking, Phase.isReplied, Phase.holds]
  unfold count
  induction s.calls with
  | nil => exact Nat.le_refl _
  | cons call rest ih =>
    have hcall := hphase call.2
    rw [List.countP_cons, List.countP_cons, List.countP_cons]
    omega

/-- Whatever calls that share a context have done so far, each with its own limit, and whatever the
client has delivered: the calls that wait for the client or have got a reply are at most as many as
the depth has gone up; the depth is no less than at the beginning, and no more than that and all
limits; who asks the client has reserved a level when the depth was below its limit; and a call that
was refused, or found no client, has not changed the context and not asked. -/
theorem calls_within_budget {context : Context} {argss : List Bindings} {events : List Event}
    {s : Calls} (h : Interleaving (.start context argss) events s) :
    (s.count Phase.isAsking + s.count Phase.isReplied : Int) ≤ s.context.depth - context.depth ∧
    context.depth ≤ s.context.depth ∧
    (∀ most, (∀ args ∈ argss, ∀ limit, limitOf args context = .ok limit → limit ≤ most) →
      s.context.depth ≤ max context.depth most) ∧
    (∀ earlier e, earlier ++ [e] <+: events → e.asked.isSome = true →
      ∃ args, argss[e.caller]? = some args ∧ ∃ r ∈ earlier, r.caller = e.caller ∧ r.Reserves args) ∧
    ∀ (i : Nat) args phase, s.calls[i]? = some (args, phase) →
      phase = .refused ∨ phase = .clientless →
      ∀ e ∈ events, e.caller = i → e.after = e.before ∧ e.asked = none := by
  have hbudget := h.budget
  have hdepth := hbudget.depth_eq
  have hcount := s.count_asking_add_replied
  refine ⟨by omega, by omega, hbudget.depth_le, hbudget.asked, fun i args phase hcall hphase => ?_⟩
  refine hbudget.idle i args phase hcall ?_
  rcases hphase with rfl | rfl <;> rfl

/-- Two calls of which the limit allows one: while the first waits for the client, the second is
refused. -/
theorem calls_within_budget_two :
    let context := { Context.default with client := some (.rehearsed false), maxDepth := .int 1 }
    ∃ events s, Interleaving (.start context [[], []]) events s ∧
      s.count Phase.isAsking = 1 ∧ s.calls[1]? = some ([], .refused) ∧
      (s.count Phase.isAsking + s.count Phase.isReplied : Int) ≤ s.context.depth - context.depth ∧
      s.context.depth ≤ max context.depth 1 ∧
      ∀ e ∈ events, e.caller = 1 → e.after = e.before ∧ e.asked = none := by
  intro context
  obtain ⟨events, s, h, hasking, hrefused⟩ : ∃ events s,
      Interleaving (.start context [[], []]) events s ∧
      s.count Phase.isAsking = 1 ∧ s.calls[1]? = some ([], .refused) := by
    -- Both read their limits before the first reserves a level.
    have h₁ : Interleaving (.start context [[], []]) _ _ :=
      .call (i := 0) (.ok .null) .start rfl rfl
    have h₂ := Interleaving.call (i := 1) (.ok .null) h₁ rfl rfl
    have h₃ := Interleaving.call (i := 0) (.ok .null) h₂ rfl rfl
    have h₄ := Interleaving.call (i := 1) (.ok .null) h₃ rfl rfl
    have h₅ := Interleaving.call (i := 0) (.ok .null) h₄ rfl rfl
    exact ⟨_, _, h₅, rfl, rfl⟩
  obtain ⟨hcount, -, hmost, -, hidle⟩ := calls_within_budget h
  refine ⟨events, s, h, hasking, hrefused, hcount, hmost 1 ?_,
    hidle 1 [] .refused hrefused (.inl rfl)⟩
  intro args hargs limit hlimit
  obtain rfl : args = [] := by simpa using hargs
  cases hlimit
  exact Int.le_refl 1

/-! ## The calls of a dispatcher

`Dispatcher.callAll` runs calls in one of the orders that are spoken of above. -/

/-- What a call returns, once it has come to its end. -/
def Phase.outcome? : Phase → Option (Result Value)
  | replied outcome => some outcome
  | released failure => some (.error failure)
  | refused => some (.ok depthExceeded)
  | clientless => some (.error .missingModelClient)
  | unlimited failure => some (.error failure)
  | unworded failure => some (.error failure)
  | _ => none

/-- How a call has begun, if it has come as far as to ask or has ended before. -/
def Phase.begun? : Phase → Option Begun
  | asking client request => some (.asking client request)
  | refused => some .refused
  | clientless => some (.failed .missingModelClient)
  | unlimited failure => some (.failed failure)
  | unworded failure => some (.failed failure)
  | _ => none

/-- To begin a call is to read its limit, to reserve a level and to word the request. -/
theorem begin_eq (args : Bindings) (context : Context) :
    begin args context =
      match limitOf args context with
      | .error failure => (.failed failure, context)
      | .ok limit =>
        match reserve limit context with
        | (.reserved client, after) =>
          match requestOf args after with
          | .error failure => (.failed failure, after)
          | .ok request => (.asking client request, after)
        | (.clientless, after) => (.failed .missingModelClient, after)
        | (_, after) => (.refused, after) := by
  unfold begin reserve
  cases limitOf args context with
  | error failure => rfl
  | ok limit =>
    dsimp only
    split
    · rfl
    · cases context.client <;> rfl

/-- A call stands where a dispatcher says that it stands. -/
def StandsAs (call : Bindings × Phase) : Effect.Standing → Prop
  | .finished outcome => call.2.outcome? = some outcome
  | .waiting pending => call.2.isAsking = true ∧ pending.expect = call.1.getD "expect" .null

theorem start_callModel {τ : Type} {d : Dispatcher τ} {name : String}
    (hname : d.table.find? name = some (.builtin .callModel)) (args : Bindings) :
    d.start (.str name) args =
      (⟨name, (Effect.startCall args d.host).1⟩, [.effect (.str name) args],
        { d with host := (Effect.startCall args d.host).2 }) := by
  have hresolve : d.resolve (.str name) = .ok (name, .builtin .callModel) := by
    simp only [Dispatcher.resolve, Value.checkKey, hname]
    rfl
  rw [Dispatcher.start, hresolve]
  rfl

/-- Calls can get from one state to another. -/
def Reachable (s₀ s : Calls) : Prop := ∃ events, Interleaving s₀ events s

namespace Reachable

variable {τ : Type} {s₀ : Calls} {context after : Context} {earlier later : List (Bindings × Phase)}
  {args : Bindings} {phase phase' : Phase}

theorem step (h : Reachable s₀ ⟨context, earlier ++ (args, phase) :: later⟩)
    (delivered : Result Value) (hstep : advance args delivered phase context = (phase', after)) :
    Reachable s₀ ⟨after, earlier ++ (args, phase') :: later⟩ := by
  obtain ⟨events, h⟩ := h
  have hcall : (earlier ++ (args, phase) :: later)[earlier.length]? = some (args, phase) := by simp
  have hset : (earlier ++ (args, phase) :: later).set earlier.length (args, phase') =
      earlier ++ (args, phase') :: later := by simp
  rw [← hset]
  exact ⟨_, .call delivered h hcall hstep⟩

/-- A call begins in up to three steps. -/
theorem begin (h : Reachable s₀ ⟨context, earlier ++ (args, .ready) :: later⟩) :
    ∃ phase, Reachable s₀ ⟨(Model.begin args context).2, earlier ++ (args, phase) :: later⟩ ∧
      phase.begun? = some (Model.begin args context).1 := by
  rw [begin_eq]
  cases hlimit : limitOf args context with
  | error failure =>
    exact ⟨.unlimited failure, h.step (.ok .null) (by rw [advance, hlimit]), rfl⟩
  | ok limit =>
    have hlimited : Reachable s₀ ⟨context, earlier ++ (args, .limited limit) :: later⟩ :=
      h.step (.ok .null) (by rw [advance, hlimit])
    dsimp only
    rcases reserve_cases limit context with hrefused | hclientless | ⟨client, -, hreserved⟩
    · rw [hrefused]
      exact ⟨.refused, hlimited.step (.ok .null) hrefused, rfl⟩
    · rw [hclientless]
      exact ⟨.clientless, hlimited.step (.ok .null) hclientless, rfl⟩
    · have hreached := hlimited.step (.ok .null) hreserved
      rw [hreserved]
      dsimp only
      cases hrequest : requestOf args { context with depth := context.depth + 1 } with
      | error failure =>
        exact ⟨.unworded failure, hreached.step (.ok .null) (by rw [advance, hrequest]), rfl⟩
      | ok request =>
        exact ⟨.asking client request, hreached.step (.ok .null) (by rw [advance, hrequest]), rfl⟩

/-- A call that waits for the client finishes in one step. -/
theorem finishCall {host : Host τ} {pending : Pending}
    (h : Reachable s₀ ⟨host.context, earlier ++ (args, phase) :: later⟩)
    (hstands : StandsAs (args, phase) (.waiting pending)) :
    ∃ phase', Reachable s₀
        ⟨(Effect.finishCall pending host).2.context, earlier ++ (args, phase') :: later⟩ ∧
      phase'.outcome? = some (Effect.finishCall pending host).1 := by
  obtain ⟨delivered, expect⟩ := pending
  obtain ⟨hphase, rfl⟩ := hstands
  cases phase with
  | asking client request =>
    cases delivered with
    | ok reply => exact ⟨_, h.step (.ok reply) rfl, rfl⟩
    | error failure => exact ⟨_, h.step (.error failure) rfl, rfl⟩
  | _ => cases hphase

theorem startCall {host : Host τ}
    (h : Reachable s₀ ⟨host.context, earlier ++ (args, .ready) :: later⟩) :
    ∃ phase, Reachable s₀
        ⟨(Effect.startCall args host).2.context, earlier ++ (args, phase) :: later⟩ ∧
      StandsAs (args, phase) (Effect.startCall args host).1 := by
  obtain ⟨phase, hbegun, hphase⟩ := h.begin
  unfold Effect.startCall
  generalize Model.begin args host.context = begun at hbegun hphase ⊢
  obtain ⟨begun, context⟩ := begun
  cases begun with
  | refused =>
    refine ⟨phase, hbegun, ?_⟩
    cases phase <;> cases hphase
    rfl
  | failed failure =>
    refine ⟨phase, hbegun, ?_⟩
    cases phase <;> cases hphase <;> rfl
  | asking client request =>
    dsimp only
    generalize consult client request host.world = consulted
    obtain ⟨delivered, atOnce, world⟩ := consulted
    have hstands : StandsAs (args, phase) (.waiting ⟨delivered, args.getD "expect" .null⟩) := by
      cases phase <;> cases hphase
      exact ⟨rfl, rfl⟩
    cases atOnce with
    | false => exact ⟨phase, hbegun, hstands⟩
    | true =>
      have hhost : Reachable s₀
          ⟨(Host.mk context world host.own).context, earlier ++ (args, phase) :: later⟩ := hbegun
      exact hhost.finishCall hstands

/-- The calls that a dispatcher starts in order. -/
theorem startAll {name : String} {argss : List Bindings} {d : Dispatcher τ}
    (hname : d.table.find? name = some (.builtin .callModel))
    (h : Reachable s₀ ⟨d.host.context, earlier ++ argss.map fun args => (args, .ready)⟩) :
    ∃ begun, Reachable s₀
        ⟨(Dispatcher.startAll (argss.map fun args => (.str name, args)) d).2.2.host.context,
          earlier ++ begun⟩ ∧
      List.Forall₂ (fun call started => StandsAs call started.standing) begun
        (Dispatcher.startAll (argss.map fun args => (.str name, args)) d).1 := by
  induction argss generalizing d earlier with
  | nil => exact ⟨[], h, .nil⟩
  | cons args rest ih =>
    obtain ⟨phase, hphase, hstands⟩ := startCall h
    rw [List.append_cons] at hphase
    rw [List.map_cons, Dispatcher.startAll, start_callModel hname args]
    obtain ⟨begun, hbegun, hall⟩ :=
      ih (d := { d with host := (Effect.startCall args d.host).2 }) hname hphase
    rw [← List.append_cons] at hbegun
    exact ⟨(args, phase) :: begun, hbegun, .cons hstands hall⟩

/-- The calls that a dispatcher brings to their ends in order. -/
theorem resumeAll {begun : List (Bindings × Phase)} {started : List Dispatcher.Started}
    {d : Dispatcher τ} (h : Reachable s₀ ⟨d.host.context, earlier ++ begun⟩)
    (hstands : List.Forall₂ (fun call started => StandsAs call started.standing) begun started) :
    ∃ ended, Reachable s₀ ⟨(Dispatcher.resumeAll started d).2.2.host.context, earlier ++ ended⟩ ∧
      ended.map (fun call => call.2.outcome?) = (Dispatcher.resumeAll started d).1.map some := by
  induction hstands generalizing d earlier with
  | nil => exact ⟨[], h, rfl⟩
  | @cons call first begun started hfirst _ ih =>
    obtain ⟨args, phase⟩ := call
    have hresume : ∃ phase', Reachable s₀
          ⟨(d.resume first).host.host.context, earlier ++ (args, phase') :: begun⟩ ∧
        phase'.outcome? = some (d.resume first).outcome := by
      obtain ⟨name, standing⟩ := first
      cases standing with
      | finished outcome => exact ⟨phase, h, hfirst⟩
      | waiting pending => exact finishCall h hfirst
    obtain ⟨phase', hphase', houtcome⟩ := hresume
    rw [List.append_cons] at hphase'
    obtain ⟨ended, hended, houtcomes⟩ := ih hphase'
    rw [← List.append_cons] at hended
    exact ⟨(args, phase') :: ended, hended, congrArg₂ List.cons houtcome houtcomes⟩

end Reachable

/-- The calls that a dispatcher runs side by side are run in one of the orders that are spoken of
here, and return what they return there. -/
theorem callAll_interleaves {τ : Type} {d : Dispatcher τ} {name : String}
    (hname : d.table.find? name = some (.builtin .callModel)) (argss : List Bindings) :
    ∃ events s, Interleaving (.start d.host.context argss) events s ∧
      s.context = (d.callAll (argss.map fun args => (.str name, args))).2.2.host.context ∧
      s.calls.map (fun call => call.2.outcome?) =
        (d.callAll (argss.map fun args => (.str name, args))).1.map some := by
  have hstart : Reachable (.start d.host.context argss)
      ⟨d.host.context, [] ++ argss.map fun args => (args, .ready)⟩ := ⟨[], .start⟩
  obtain ⟨begun, hbegun, hstands⟩ := hstart.startAll hname
  obtain ⟨ended, ⟨events, hended⟩, houtcomes⟩ := hbegun.resumeAll hstands
  exact ⟨events, _, hended, rfl, houtcomes⟩

end TreeScript.Model
