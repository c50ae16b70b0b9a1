import Mathlib
import TreeScript.Proofs.Basic
import TreeScript.Proofs.CallBudget

/-!
# What failed calls of the model leave behind

A call of the model that fails before the client has replied should leave no trace in the depth of
its context. This is so if its limit is no number, if there is no client, and if the client fails:
in the first two cases it has not reserved a level, in the last it has given it back. But between
reserving a level and asking the client a call words its request, and a call that fails to do so
keeps its level for good (`Phase.unworded`). `Unwordable` says what arguments these are: a prompt
without a text, or the name of a context that cannot be a key.

What the depth would be without a call is told by the other calls alone. They are taken out of an
interleaving together with their steps (`Interleaving.without`): unless one of them is refused, it
takes the same steps at a depth that is lower by the level which the left-out call has. The main
statement `failed_call_gives_back` compares the depth after a failed call with the one without it.
-/

namespace TreeScript

/-! ## Requests that cannot be worded -/

mutual

/-- What can be a key has a text. -/
theorem Value.exists_literalText_of_key :
    ∀ v : Value, v.unhashable? = none → ∃ text, v.literalText = .ok text
  | .tuple items, h => by
    rw [Value.unhashable?] at h
    obtain ⟨texts, htexts⟩ := exists_literalTexts_of_keys items h
    rw [Value.literalText, htexts]
    exact ⟨_, rfl⟩
  | .null, _ | .bool _, _ | .int _, _ | .float _, _ | .str _, _ | .bytes _, _ | .date _, _
  | .datetime _, _ | .undefined, _ => by
    rw [Value.literalText]
    exact ⟨_, rfl⟩
  | .list _, h | .map _, h | .set _, h | .closure .., h | .node _, h | .literal _, h | .env _, h
  | .object _, h => by
    rw [Value.unhashable?] at h
    cases h
termination_by structural v => v

theorem exists_literalTexts_of_keys :
    ∀ vs : List Value, unhashableItem? vs = none → ∃ texts, literalTexts vs = .ok texts
  | [], _ => by
    rw [literalTexts]
    exact ⟨[], rfl⟩
  | v :: rest, h => by
    rw [unhashableItem?, Option.or_eq_none_iff] at h
    obtain ⟨text, htext⟩ := Value.exists_literalText_of_key v h.1
    obtain ⟨texts, htexts⟩ := exists_literalTexts_of_keys rest h.2
    rw [literalTexts, htext, htexts]
    exact ⟨_, rfl⟩
termination_by structural vs => vs

end

theorem Value.exists_text_of_key {v : Value} (h : v.unhashable? = none) :
    ∃ text, v.text = .ok text := by
  unfold Value.text
  split
  · exact ⟨_, rfl⟩
  · exact ⟨_, rfl⟩
  · exact ⟨_, rfl⟩
  · exact v.exists_literalText_of_key h

theorem Value.text_str (s : String) : (Value.str s).text = .ok s := rfl

/-- A value that cannot be shown as a text. -/
def Value.Textless (v : Value) : Prop := ∃ failure, v.text = .error failure

namespace Model

/-- From these arguments no request can be worded while these texts are kept: the prompt has no
text, or a context is named by what cannot be a key, or what is kept under its name has no text. -/
def Unwordable (args store : Bindings) : Prop :=
  ((args.getD "prompt" .null).truth = true ∧ (args.getD "prompt" .null).Textless) ∨
  (args.getD "context_name" .null).truth = true ∧
    ((args.getD "context_name" .null).unhashable? ≠ none ∨
      ∃ stored, store.lookup? (args.getD "context_name" .null) = some stored ∧
        stored.truth = true ∧ stored.Textless)

theorem framePrompt_eq_error_iff (prompt : String) (name : Value) (store : Bindings) :
    (∃ failure, framePrompt (.str prompt) name store = .error failure) ↔
      name.truth = true ∧ (name.unhashable? ≠ none ∨
        ∃ stored, store.lookup? name = some stored ∧ stored.truth = true ∧ stored.Textless) := by
  unfold framePrompt Value.checkKey
  by_cases htruth : name.truth = true
  · cases hkey : name.unhashable? with
    | some kind => simp [htruth]
    | none =>
      obtain ⟨text, htext⟩ := Value.exists_text_of_key hkey
      cases hfind : store.lookup? name with
      | none => simp [htruth]
      | some stored =>
        by_cases hstored : stored.truth = true
        · cases hbody : stored.text with
          | ok body => simp [htruth, hstored, htext, hbody, Value.Textless, Value.text_str]
          | error failure => simp [htruth, hstored, htext, hbody, Value.Textless]
        · simp [htruth, hstored]
  · simp [htruth]

theorem requestOf_eq_error_iff (args : Bindings) (context : Context) :
    (∃ failure, requestOf args context = .error failure) ↔ Unwordable args context.store := by
  have hframe : ∀ (prompt : String) (wrap : Value → Request),
      (∃ failure, (framePrompt (.str prompt) (args.getD "context_name" .null) context.store >>=
        fun framed => (.ok (wrap framed) : Result Request)) = .error failure) ↔
      (args.getD "context_name" .null).truth = true ∧
        ((args.getD "context_name" .null).unhashable? ≠ none ∨
          ∃ stored, context.store.lookup? (args.getD "context_name" .null) = some stored ∧
            stored.truth = true ∧ stored.Textless) := by
    intro prompt wrap
    rw [← framePrompt_eq_error_iff prompt]
    cases framePrompt (.str prompt) (args.getD "context_name" .null) context.store <;> simp
  unfold requestOf Unwordable
  by_cases htruth : (args.getD "prompt" .null).truth = true
  · cases hprompt : (args.getD "prompt" .null).text with
    | error failure => simp [htruth, hprompt, Value.Textless]
    | ok prompt =>
      simp only [htruth, hprompt, if_true, Result.ok_bind, Result.pure_eq_ok, hframe]
      simp [hprompt, Value.Textless]
  · have huntrue : (args.getD "prompt" .null).truth = false := by simpa using htruth
    simp only [huntrue, Bool.false_eq_true, if_false, false_and, false_or, Result.ok_bind,
      Result.pure_eq_ok]
    exact hframe "" _

/-! ## Calls without one of them -/

namespace Phase

/-- Whether a call has failed, and the client has not replied to it. -/
def failed : Phase → Bool
  | released _ | clientless | unlimited _ | unworded _ => true
  | _ => false

/-- Whether a call has failed to word its request. -/
def isUnworded : Phase → Bool
  | unworded _ => true
  | _ => false

/-- Of the calls that have failed, those that could not word their requests have kept a level. -/
theorem holds_of_failed {phase : Phase} (h : phase.failed = true) :
    phase.holds = phase.isUnworded := by
  cases phase with
  | released | clientless | unlimited | unworded => rfl
  | _ => cases h

end Phase

/-- In a step nothing but the depth of the context changes, by the level that the call takes or
gives back. -/
theorem advance_level {args : Bindings} {delivered : Result Value} {phase phase' : Phase}
    {context after : Context} (h : advance args delivered phase context = (phase', after)) :
    after = { context with
      depth := context.depth + phase'.holds.toNat - phase.holds.toNat } := by
  rcases advance_cases args delivered phase context with
    ⟨hphase, _, hadvance, hphase', -⟩ | ⟨limit, client, rfl, -, hadvance⟩ |
    ⟨-, _, hadvance, -, hholds⟩ | ⟨client, request, failure, rfl, hadvance⟩
  · cases h.symm.trans hadvance
    simp [Phase.holds_of_idle hphase, Phase.holds_of_idle hphase']
  · cases h.symm.trans hadvance
    simp [Phase.holds]
  · cases h.symm.trans hadvance
    simp [hholds]
  · cases h.symm.trans hadvance
    simp [Phase.holds]

theorem unwordable_of_advance {args : Bindings} {delivered : Result Value} {phase : Phase}
    {context after : Context} {failure : Failure}
    (h : advance args delivered phase context = (.unworded failure, after)) :
    phase = .unworded failure ∨ Unwordable args context.store := by
  cases phase with
  | reserved client =>
    rw [advance] at h
    cases hrequest : requestOf args context with
    | error failure' => exact .inr ((requestOf_eq_error_iff args context).1 ⟨failure', hrequest⟩)
    | ok request =>
      rw [hrequest] at h
      cases h
  | unworded failure' =>
    cases h
    exact .inl rfl
  | limited limit =>
    rcases reserve_cases limit context with hreserve | hreserve | ⟨client, -, hreserve⟩ <;>
      cases h.symm.trans hreserve
  | ready =>
    rw [advance] at h
    cases hlimit : limitOf args context <;> rw [hlimit] at h <;> cases h
  | asking => cases delivered <;> cases h
  | replied | released | refused | clientless | unlimited => cases h

/-- A context whose depth is less by some levels. -/
def lowered (context : Context) (levels : Nat) : Context :=
  { context with depth := context.depth - levels }

theorem limitOf_lowered (args : Bindings) (context : Context) (levels : Nat) :
    limitOf args (lowered context levels) = limitOf args context := rfl

theorem requestOf_lowered (args : Bindings) (context : Context) (levels : Nat) :
    requestOf args (lowered context levels) = requestOf args context := rfl

/-- A step that does not end in a refusal is the same at a lower depth. -/
theorem advance_lowered {args : Bindings} {delivered : Result Value} {phase phase' : Phase}
    {context after : Context} (h : advance args delivered phase context = (phase', after))
    (hphase' : phase' ≠ .refused) (levels : Nat) :
    advance args delivered phase (lowered context levels) = (phase', lowered after levels) := by
  cases phase with
  | ready =>
    rw [advance] at h ⊢
    rw [limitOf_lowered]
    cases hlimit : limitOf args context <;> rw [hlimit] at h <;> cases h <;> rfl
  | limited limit =>
    rw [advance, reserve] at h ⊢
    by_cases hle : limit ≤ context.depth
    · rw [if_pos hle] at h
      cases h
      exact absurd rfl hphase'
    · have hlow : ¬ limit ≤ (lowered context levels).depth := by
        show ¬ limit ≤ context.depth - levels
        omega
      rw [if_neg hle] at h
      rw [if_neg hlow]
      rw [show (lowered context levels).client = context.client from rfl]
      cases hclient : context.client with
      | none =>
        rw [hclient] at h
        cases h
        rfl
      | some client =>
        rw [hclient] at h
        cases h
        have hdepth : context.depth - levels + 1 = context.depth + 1 - levels := by omega
        simp only [lowered, hdepth]
  | reserved client =>
    rw [advance] at h ⊢
    rw [requestOf_lowered]
    cases hrequest : requestOf args context <;> rw [hrequest] at h <;> cases h <;> rfl
  | asking client request =>
    cases delivered with
    | ok reply =>
      cases h
      rfl
    | error failure =>
      cases h
      have hdepth : context.depth - levels - 1 = context.depth - 1 - levels := by omega
      show (Phase.released failure, { context with depth := context.depth - levels - 1 }) = _
      rw [hdepth]
      rfl
  | replied | released | refused | clientless | unlimited | unworded =>
    cases h
    rfl

theorem countP_eraseIdx {α : Type} (p : α → Bool) {l : List α} {i : Nat} {a : α}
    (h : l[i]? = some a) : l.countP p = (l.eraseIdx i).countP p + (p a).toNat := by
  obtain ⟨hi, rfl⟩ := List.getElem?_eq_some_iff.1 h
  rw [← (List.getElem_cons_eraseIdx_perm hi).countP_eq p, List.countP_cons]
  cases p l[i] <;> rfl

/-- To change one element and leave out another is to leave it out first. -/
theorem eraseIdx_set_of_ne {α : Type} (l : List α) {i j : Nat} (h : j ≠ i) (a : α) :
    ∃ k, (l.eraseIdx i)[k]? = l[j]? ∧ (l.set j a).eraseIdx i = (l.eraseIdx i).set k a := by
  rcases Nat.lt_or_gt_of_ne h with hlt | hgt
  · exact ⟨j, List.getElem?_eraseIdx_of_lt hlt, List.eraseIdx_set_gt hlt⟩
  · refine ⟨j - 1, ?_, List.eraseIdx_set_lt hgt⟩
    rw [List.getElem?_eraseIdx_of_ge (Nat.le_sub_one_of_lt hgt), Nat.sub_add_cancel (by omega)]

/-- The number of levels that a call has. -/
def Calls.level (s : Calls) (i : Nat) : Nat :=
  match s.calls[i]? with
  | some (_, phase) => phase.holds.toNat
  | none => 0

/-- The other calls, at a depth without the level of this one. -/
def Calls.without (s : Calls) (i : Nat) : Calls :=
  ⟨lowered s.context (s.level i), s.calls.eraseIdx i⟩

theorem Calls.level_eq {s : Calls} {i : Nat} {args : Bindings} {phase : Phase}
    (h : s.calls[i]? = some (args, phase)) : s.level i = phase.holds.toNat := by
  rw [level, h]

theorem Calls.start_without (context : Context) (argss : List Bindings) (i : Nat) :
    (Calls.start context argss).without i = .start context (argss.eraseIdx i) := by
  have hlevel : (Calls.start context argss).level i = 0 := by
    unfold level start
    rw [List.getElem?_map]
    cases argss[i]? <;> rfl
  have hdepth : lowered context 0 = context := by
    show { context with depth := context.depth - 0 } = context
    rw [Int.sub_zero]
  rw [without, hlevel]
  simp [start, hdepth, List.eraseIdx_eq_take_drop_succ]

/-- No call but this one has been refused. -/
def Calls.NoOtherRefused (s : Calls) (i : Nat) : Prop :=
  ∀ (j : Nat) (args : Bindings), j ≠ i → s.calls[j]? ≠ some (args, .refused)

namespace Interleaving

variable {context after : Context} {argss : List Bindings} {events : List Event} {s : Calls}
  {i j : Nat} {args : Bindings} {phase phase' : Phase} {delivered : Result Value}

/-- A call that has been refused stays refused. -/
theorem noOtherRefused_of_step (hcall : s.calls[j]? = some (args, phase))
    (hstep : advance args delivered phase s.context = (phase', after))
    (h : Calls.NoOtherRefused ⟨after, s.calls.set j (args, phase')⟩ i) : s.NoOtherRefused i := by
  intro k args' hk hrefused
  by_cases hkj : k = j
  · subst hkj
    cases hcall.symm.trans hrefused
    cases hstep
    apply h k args hk
    exact List.getElem?_set_self (List.getElem?_eq_some_iff.1 hcall).1
  · apply h k args' hk
    exact (List.getElem?_set_ne (Ne.symm hkj)).trans hrefused

/-- A step of a call does not matter where it is left out. -/
theorem without_own_step (hcall : s.calls[i]? = some (args, phase))
    (hstep : advance args delivered phase s.context = (phase', after)) :
    Calls.without ⟨after, s.calls.set i (args, phase')⟩ i = s.without i := by
  have hset : (s.calls.set i (args, phase'))[i]? = some (args, phase') :=
    List.getElem?_set_self (List.getElem?_eq_some_iff.1 hcall).1
  rw [Calls.without, Calls.without, Calls.level_eq hcall, Calls.level_eq hset,
    List.eraseIdx_set_eq, advance_level hstep]
  congr 1
  simp only [lowered]
  congr 1
  omega

/-- The calls but one can have got by themselves where they are, unless one of them has been
refused. -/
theorem without (h : Interleaving (.start context argss) events s)
    (hrefused : s.NoOtherRefused i) :
    Reachable (.start context (argss.eraseIdx i)) (s.without i) := by
  induction h with
  | start =>
    rw [Calls.start_without]
    exact ⟨[], .start⟩
  | @call events s j args phase phase' after delivered _ hcall hstep ih =>
    have hbefore := ih (noOtherRefused_of_step hcall hstep hrefused)
    by_cases hj : j = i
    · subst hj
      rw [without_own_step hcall hstep]
      exact hbefore
    · have hnot : phase' ≠ .refused := by
        rintro rfl
        apply hrefused j args hj
        exact List.getElem?_set_self (List.getElem?_eq_some_iff.1 hcall).1
      have hlevel : Calls.level ⟨after, s.calls.set j (args, phase')⟩ i = s.level i := by
        unfold Calls.level
        rw [List.getElem?_set_ne hj]
      obtain ⟨k, hk, hset⟩ := eraseIdx_set_of_ne s.calls hj (args, phase')
      obtain ⟨events', hevents'⟩ := hbefore
      rw [Calls.without, hlevel, hset]
      exact ⟨_, .call delivered hevents' (hk.trans hcall) (advance_lowered hstep hnot _)⟩
  | keep store _ ih =>
    obtain ⟨events', hevents'⟩ := ih hrefused
    exact ⟨_, .keep store hevents'⟩

/-- A call that has failed to word its request could not be worded when it tried. -/
theorem unwordable {failure : Failure} (h : Interleaving (.start context argss) events s)
    (hcall : s.calls[i]? = some (args, .unworded failure)) :
    ∃ e ∈ events, e.caller = i ∧ Unwordable args e.before.store := by
  induction h with
  | start =>
    obtain ⟨_, -, hready⟩ := List.mem_map.1 (List.mem_of_getElem? hcall)
    cases hready
  | @call events s j args' phase phase' after delivered _ hj hstep ih =>
    rcases getElem?_set_eq_some hj hcall with ⟨rfl, heq⟩ | ⟨-, hother⟩
    · cases heq
      rcases unwordable_of_advance hstep with rfl | hunwordable
      · obtain ⟨e, he, hcaller⟩ := ih hj
        exact ⟨e, List.mem_append_left _ he, hcaller⟩
      · exact ⟨_, List.mem_append_right _ (List.mem_singleton_self _), rfl, hunwordable⟩
    · obtain ⟨e, he, hcaller⟩ := ih hother
      exact ⟨e, List.mem_append_left _ he, hcaller⟩
  | keep store _ ih => exact ih hcall

end Interleaving

/-- Whatever calls that share a context have done so far, take one that has failed, and the client
has not replied to it. Where the others stand as they do, but it has never been made, the depth is
the same, or less by one if it has failed to word its request; and they can get there, unless one of
them has been refused. That a request cannot be worded is a matter of the arguments and of the texts
that were kept at that time. -/
theorem failed_call_gives_back {context : Context} {argss : List Bindings} {events : List Event}
    {s : Calls} {i : Nat} {args : Bindings} {phase : Phase}
    (h : Interleaving (.start context argss) events s)
    (hcall : s.calls[i]? = some (args, phase)) (hfailed : phase.failed = true) :
    (∀ events' t, Interleaving (.start context (argss.eraseIdx i)) events' t →
      t.calls = s.calls.eraseIdx i →
      s.context.depth = t.context.depth + phase.isUnworded.toNat) ∧
    (s.NoOtherRefused i → ∃ events' t,
      Interleaving (.start context (argss.eraseIdx i)) events' t ∧
      t.calls = s.calls.eraseIdx i) ∧
    (phase.isUnworded = true → ∃ e ∈ events, e.caller = i ∧ Unwordable args e.before.store) := by
  refine ⟨fun events' t ht hcalls => ?_, fun hrefused => ?_, fun hunworded => ?_⟩
  · have hcount := countP_eraseIdx (fun call : Bindings × Phase => call.2.holds) hcall
    have hs := h.budget.depth_eq
    have ht := ht.budget.depth_eq
    rw [← Phase.holds_of_failed hfailed]
    unfold Calls.count at hs ht
    rw [hcalls] at ht
    dsimp only at hcount
    omega
  · obtain ⟨events', hevents'⟩ := h.without hrefused
    exact ⟨events', _, hevents', rfl⟩
  · cases phase with
    | unworded failure => exact h.unwordable hcall
    | _ => cases hunworded

/-- The first call names a context by a list, and the second is let down by the client: the first
has kept its level, the second has not. -/
theorem failed_call_gives_back_list :
    let context := { Context.default with client := some (.rehearsed false) }
    let listed : Bindings := [(.str "context_name", .list [.str "notes"])]
    let lost := Failure.modelRequest 529 "overloaded"
    ∃ events s failure, Interleaving (.start context [listed, []]) events s ∧
      s.calls = [(listed, .unworded failure), ([], .released lost)] ∧
      (∃ events' t, Interleaving (.start context [[]]) events' t ∧
        t.calls = [([], .released lost)] ∧ s.context.depth = t.context.depth + 1) ∧
      (∃ events' t, Interleaving (.start context [listed]) events' t ∧
        t.calls = [(listed, .unworded failure)] ∧ s.context.depth = t.context.depth) ∧
      ∃ e ∈ events, e.caller = 0 ∧ Unwordable listed e.before.store := by
  intro context listed lost
  obtain ⟨events, s, failure, h, hcalls⟩ : ∃ events s failure,
      Interleaving (.start context [listed, []]) events s ∧
      s.calls = [(listed, .unworded failure), ([], .released lost)] := by
    have h₁ : Interleaving (.start context [listed, []]) _ _ :=
      .call (i := 0) (.ok .null) .start rfl rfl
    have h₂ := Interleaving.call (i := 1) (.ok .null) h₁ rfl rfl
    have h₃ := Interleaving.call (i := 0) (.ok .null) h₂ rfl rfl
    have h₄ := Interleaving.call (i := 1) (.ok .null) h₃ rfl rfl
    have h₅ := Interleaving.call (i := 1) (.ok .null) h₄ rfl rfl
    have h₆ := Interleaving.call (i := 0) (.ok .null) h₅ rfl rfl
    have h₇ := Interleaving.call (i := 1) (.error lost) h₆ rfl rfl
    exact ⟨_, _, _, h₇, rfl⟩
  have hrefused : ∀ i, s.NoOtherRefused i := by
    intro i j args _ hj
    have hmem := List.mem_of_getElem? hj
    rw [hcalls] at hmem
    simp at hmem
  have hfirst : s.calls[0]? = some (listed, .unworded failure) := by rw [hcalls]; rfl
  have hsecond : s.calls[1]? = some ([], .released lost) := by rw [hcalls]; rfl
  obtain ⟨hdepth, hothers, hunwordable⟩ := failed_call_gives_back h hfirst rfl
  obtain ⟨hdepth', hothers', -⟩ := failed_call_gives_back h hsecond rfl
  obtain ⟨events', t, ht, htcalls⟩ := hothers (hrefused 0)
  obtain ⟨events'', u, hu, hucalls⟩ := hothers' (hrefused 1)
  refine ⟨events, s, failure, h, hcalls, ⟨events', t, ht, ?_, hdepth events' t ht htcalls⟩,
    ⟨events'', u, hu, ?_, ?_⟩, hunwordable rfl⟩
  · rw [htcalls, hcalls]
    rfl
  · rw [hucalls, hcalls]
    rfl
  · rw [hdepth' events'' u hu hucalls]
    exact Int.add_zero _

end Model

end TreeScript
