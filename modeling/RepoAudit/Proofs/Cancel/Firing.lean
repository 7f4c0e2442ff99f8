import RepoAudit.Proofs.Cancel.Due

/-!
# What the firing calls

Of all cancel calls on a token, the first one fires it. Callbacks that are registered before are called
by it, unless their registration is taken back in time, and callbacks that are registered afterwards are
called by whoever registers them.

* `Quiet`, `quiet_run` — before the firing nothing is called, and the token keeps each callback as often
  as it is registered and not taken back;
* `Spent`, `spent_run` — after the firing the token keeps nothing, no cancel call gets anything more to
  call, and each registration its own callback;
* `firing_calls_each` — **the firing calls each callback as often as it has been registered less the
  times it has been taken back; a later registration calls its callback once; taking back and cancelling
  again call nothing; and whichever callbacks fail, all of these calls are made**.
-/

namespace RepoAudit.Audience

variable {κ : Type} [DecidableEq κ] {a a' : Audience κ} {before after : List (Event κ)} {k : κ}
  {n : Nat}

/-! ### What is registered and taken back -/

omit [DecidableEq κ] in
@[simp] theorem registered_append (before after : List (Event κ)) :
    registered (before ++ after) = registered before ++ registered after :=
  List.filterMap_append

omit [DecidableEq κ] in
/-- A registration that gets on keeps its callback. -/
theorem map_callback_set {rs : List (Registration κ)} {standing : Standing}
    (h : rs[n]? = some ⟨k, standing⟩) (standing' : Standing) :
    (rs.set n ⟨k, standing'⟩).map Registration.callback = rs.map Registration.callback := by
  have hsame : (rs.map Registration.callback)[n]? = some k := by rw [List.getElem?_map, h]; rfl
  obtain ⟨hn, hk⟩ := List.getElem?_eq_some_iff.mp hsame
  subst hk
  rw [List.map_set]
  exact List.set_getElem_self _

/-- The registrations grow by what is registered. -/
theorem callbacks_step {e : Event κ} (h : a.step e = some a') :
    a'.registrations.map Registration.callback =
      a.registrations.map Registration.callback ++ registered [e] := by
  cases e with
  | register k =>
    rw [step_register, Option.some.injEq] at h
    subst h
    simp [registered]
  | callNow n fails =>
    obtain ⟨k, hn, rfl⟩ := step_callNow_iff.mp h
    exact (map_callback_set hn _).trans (List.append_nil _).symm
  | takeBack n =>
    obtain ⟨k, hn, rfl⟩ := step_takeBack_iff.mp h
    exact (map_callback_set hn _).trans (List.append_nil _).symm
  | cancel =>
    rw [step_cancel, Option.some.injEq] at h
    subst h
    exact (List.append_nil _).symm
  | callNext m fails =>
    obtain ⟨k, rest, -, rfl⟩ := step_callNext_iff.mp h
    exact (List.append_nil _).symm

/-- Handles that have been given out stand for the same callbacks later on. -/
theorem takenBack_concat (hknown : ∀ n, .takeBack n ∈ before → n < (registered before).length)
    (e : Event κ) (k : κ) :
    takenBack (before ++ [e]) k =
      takenBack before k + if e.takes (registered (before ++ [e])) k then 1 else 0 := by
  have hsame : takenBack before k = before.countP (Event.takes (registered (before ++ [e])) k) := by
    refine List.countP_congr fun event hevent => ?_
    cases event with
    | takeBack n =>
      rw [Event.takes, Event.takes, registered_append, List.getElem?_append_left (hknown n hevent)]
    | _ => exact Iff.rfl
  rw [takenBack, List.countP_append, ← hsame, List.countP_singleton]

/-! ### Before the firing -/

/-- Nobody has cancelled. Nobody has anything to call, and the token keeps each callback as often as it
has been registered and not taken back, which is how often there is a handle for it. -/
structure Quiet (before : List (Event κ)) (a : Audience κ) : Prop where
  unfired : a.token.fired = false
  rounds_eq : a.rounds = []
  due_eq : ∀ caller, a.due caller = []
  callbacks_eq : a.registrations.map Registration.callback = registered before
  count_held : ∀ k, a.token.callbacks.count k = a.registrations.count ⟨k, .held⟩
  count_registered : ∀ k,
    a.token.callbacks.count k + takenBack before k = (registered before).count k
  known : ∀ n, .takeBack n ∈ before → n < (registered before).length

theorem quiet_empty : Quiet [] ({} : Audience κ) where
  unfired := rfl
  rounds_eq := rfl
  due_eq caller := by cases caller <;> rfl
  callbacks_eq := rfl
  count_held _ := rfl
  count_registered _ := rfl
  known n h := absurd h List.not_mem_nil

theorem Quiet.leftOf_eq (hq : Quiet before a) (caller : Caller) : a.leftOf caller = [] :=
  (List.append_eq_nil_iff.mp (hq.due_eq caller)).2

/-- A registration is one more to keep. -/
theorem Quiet.register (hq : Quiet before a) (h : a.step (.register k) = some a')
    (hdue : ∀ caller, a'.due caller = []) : Quiet (before ++ [.register k]) a' := by
  have hcallbacks := callbacks_step h
  rw [step_register, hq.unfired, Option.some.injEq] at h
  subst h
  have hkept := Token.callbacks_register hq.unfired k
  have hregistered : registered (before ++ [.register k]) = registered before ++ [k] :=
    registered_append _ _
  refine ⟨(Token.fired_register _ _).trans hq.unfired, hq.rounds_eq, hdue, ?_, fun k' => ?_,
    fun k' => ?_, fun n hn => ?_⟩
  · rw [hcallbacks, hq.callbacks_eq, registered_append]
  · simp [hkept, List.count_append, List.count_singleton, hq.count_held]
  · have hold := hq.count_registered k'
    have hnone : (Event.register k).takes (registered (before ++ [.register k])) k' = false := rfl
    rw [takenBack_concat hq.known, hnone, hkept, hregistered, List.count_append, List.count_append,
      if_neg Bool.false_ne_true]
    omega
  · rw [hregistered, List.length_append]
    exact Nat.lt_add_right _ (hq.known n (by simpa using hn))

/-- A handle that is used takes one registration of its callback back. -/
theorem Quiet.takeBack (hq : Quiet before a) (h : a.step (.takeBack n) = some a')
    (hdue : ∀ caller, a'.due caller = []) : Quiet (before ++ [.takeBack n]) a' := by
  have hcallbacks := callbacks_step h
  obtain ⟨k, hn, rfl⟩ := step_takeBack_iff.mp h
  obtain ⟨hlt, hget⟩ := List.getElem?_eq_some_iff.mp hn
  have hregistered : registered (before ++ [.takeBack n]) = registered before :=
    (registered_append _ _).trans (List.append_nil _)
  have hthere : (registered before)[n]? = some k := by
    rw [← hq.callbacks_eq, List.getElem?_map, hn]
    rfl
  have hheld : 0 < a.token.callbacks.count k := by
    rw [hq.count_held, List.count_pos_iff]
    exact List.mem_of_getElem? hn
  refine ⟨hq.unfired, hq.rounds_eq, hdue, ?_, fun k' => ?_, fun k' => ?_, fun i hi => ?_⟩
  · rw [hcallbacks, hq.callbacks_eq, registered_append]
  · rw [Token.remove, List.count_erase, hq.count_held, List.count_set hlt, hget]
    simp
  · have hold := hq.count_registered k'
    rw [takenBack_concat hq.known, hregistered, Token.remove, List.count_erase, Event.takes, hthere]
    by_cases hk : k = k'
    · subst hk
      simp
      omega
    · simpa [hk] using hold
  · rw [hregistered]
    rcases List.mem_append.mp hi with hold | hnew
    · exact hq.known i hold
    · cases List.mem_singleton.mp hnew
      exact (List.getElem?_eq_some_iff.mp hthere).1

/-- A step other than a firing keeps the peace. -/
theorem Quiet.step {e : Event κ} (hq : Quiet before a) (he : e ≠ .cancel)
    (h : a.step e = some a') : Quiet (before ++ [e]) a' := by
  have hdue : ∀ caller, a'.due caller = [] := by
    intro caller
    rw [due_step h, hq.due_eq, List.nil_append]
    cases e <;> cases caller <;> simp_all [added, hq.unfired]
  cases e with
  | register k => exact hq.register h hdue
  | takeBack n => exact hq.takeBack h hdue
  | cancel => exact absurd rfl he
  | callNow n fails =>
    -- a registration that calls would have something left
    obtain ⟨k, hn, -⟩ := step_callNow_iff.mp h
    have hleft := hq.leftOf_eq (.registering n)
    rw [leftOf, hn] at hleft
    cases hleft
  | callNext m fails =>
    obtain ⟨k, rest, hm, -⟩ := step_callNext_iff.mp h
    rw [hq.rounds_eq] at hm
    cases hm

/-- Before the firing nothing is called, and each callback is kept as often as it is to be. -/
theorem quiet_run (hbefore : .cancel ∉ before) (h : ({} : Audience κ).run before = some a) :
    Quiet before a := by
  induction before using List.reverseRecOn generalizing a with
  | nil =>
    cases h
    exact quiet_empty
  | append_singleton before e ih =>
    obtain ⟨b, hrun, hstep⟩ := run_concat_iff.mp h
    rw [List.mem_append, not_or, List.mem_singleton] at hbefore
    exact (ih hbefore.1 hrun).step (Ne.symm hbefore.2) hstep

/-! ### After the firing -/

/-- The token has fired and keeps nothing. -/
def Spent (a : Audience κ) : Prop := a.token = ⟨true, []⟩

omit [DecidableEq κ] in
theorem Spent.fire_eq (hs : Spent a) : a.token.fire.2 = [] := by
  rw [show a.token = ⟨true, []⟩ from hs]
  rfl

theorem Spent.step {e : Event κ} (hs : Spent a) (h : a.step e = some a') : Spent a' := by
  cases e with
  | register k =>
    rw [step_register, Option.some.injEq] at h
    subst h
    rw [Spent, hs]
    rfl
  | callNow n fails =>
    obtain ⟨k, -, rfl⟩ := step_callNow_iff.mp h
    exact hs
  | takeBack n =>
    obtain ⟨k, -, rfl⟩ := step_takeBack_iff.mp h
    rw [Spent, hs]
    rfl
  | cancel =>
    rw [step_cancel, Option.some.injEq] at h
    subst h
    rw [Spent, hs]
    rfl
  | callNext m fails =>
    obtain ⟨k, rest, -, rfl⟩ := step_callNext_iff.mp h
    exact hs

/-- Cancelling once more gives nobody anything to call. -/
theorem Spent.due_cancelling {e : Event κ} (hs : Spent a) (h : a.step e = some a') (m : Nat) :
    a'.due (.cancelling m) = a.due (.cancelling m) := by
  rw [due_step h]
  cases e with
  | cancel => simp [added, hs.fire_eq]
  | _ => exact List.append_nil _

/-- What is registered is to be called by its own registration. -/
theorem Spent.due_registering {e : Event κ} (hs : Spent a) (h : a.step e = some a') (n : Nat) :
    a'.due (.registering n) =
      a.due (.registering n) ++ if n = a.registrations.length then registered [e] else [] := by
  rw [due_step h]
  cases e with
  | register k =>
    have hfired : a.token.fired = true := by rw [show a.token = ⟨true, []⟩ from hs]
    simp [added, hfired, registered]
  | _ => simp [added, registered]

omit [DecidableEq κ] in
/-- What one step registers comes after all that has been registered. -/
theorem toList_getElem?_registered (callbacks : List κ) (e : Event κ) (n : Nat) :
    ((callbacks ++ registered [e])[n]?).toList =
      callbacks[n]?.toList ++ if n = callbacks.length then registered [e] else [] := by
  have htoList : ∀ o : Option κ, o.toList = o.elim [] fun k => [k] := fun o => by cases o <;> rfl
  cases e with
  | register k =>
    rw [show registered [Event.register k] = [k] from rfl, htoList, htoList, elim_getElem?_concat]
  | _ => simp [registered]

/-- After the firing, cancel calls get nothing more to call, and a registration its own callback. -/
theorem spent_run (hs : Spent a) (h : a.run after = some a') :
    Spent a' ∧
      a'.registrations.map Registration.callback =
        a.registrations.map Registration.callback ++ registered after ∧
      (∀ m, a'.due (.cancelling m) = a.due (.cancelling m)) ∧
      ∀ n, a'.due (.registering n) = a.due (.registering n) ++
        if n < a.registrations.length then []
        else ((a'.registrations.map Registration.callback)[n]?).toList := by
  induction after using List.reverseRecOn generalizing a' with
  | nil =>
    cases h
    refine ⟨hs, (List.append_nil _).symm, fun m => rfl, fun n => ?_⟩
    split
    · rw [List.append_nil]
    · next hn => simp [List.getElem?_eq_none (Nat.le_of_not_lt hn)]
  | append_singleton after e ih =>
    obtain ⟨b, hrun, hstep⟩ := run_concat_iff.mp h
    obtain ⟨hb, hcallbacks, hcancelling, hregistering⟩ := ih hrun
    have hlength : a.registrations.length ≤ b.registrations.length := by
      have hlength := congrArg List.length hcallbacks
      rw [List.length_append, List.length_map, List.length_map] at hlength
      omega
    refine ⟨hb.step hstep, ?_, fun m => ?_, fun n => ?_⟩
    · rw [callbacks_step hstep, hcallbacks, List.append_assoc, registered_append]
    · rw [hb.due_cancelling hstep, hcancelling]
    · rw [hb.due_registering hstep, hregistering, callbacks_step hstep, toList_getElem?_registered,
        List.length_map, List.append_assoc]
      by_cases hn : n < a.registrations.length
      · rw [if_pos hn, if_pos hn, if_neg (by omega)]
        rfl
      · rw [if_neg hn, if_neg hn]

/-! ### The main statement -/

/-- The first cancel call comes to call what the token has kept, and nobody else anything. -/
theorem Quiet.fire (hq : Quiet before a) (h : a.step .cancel = some a') :
    Spent a' ∧ a'.registrations = a.registrations ∧
      a'.due (.cancelling 0) = a.token.callbacks ∧
      ∀ caller, caller ≠ .cancelling 0 → a'.due caller = [] := by
  have hdue := due_step h
  rw [step_cancel, Token.fire_of_quiet hq.unfired, Option.some.injEq] at h
  subst h
  refine ⟨rfl, rfl, ?_, fun caller hcaller => ?_⟩
  · rw [hdue, hq.due_eq, added, hq.rounds_eq, Token.fire_of_quiet hq.unfired]
    rfl
  · rw [hdue, hq.due_eq, List.nil_append]
    cases caller with
    | registering n => rfl
    | cancelling m =>
      rw [added, hq.rounds_eq, List.length_nil,
        if_neg fun hm => hcaller (congrArg Caller.cancelling hm)]

omit [DecidableEq κ] in
/-- What is registered has called its callback, or is calling it. -/
theorem calling_or_called (hr : (a.registrations.map Registration.callback)[n]? = some k)
    (hdue : a.due (.registering n) = [k]) :
    a.registrations[n]? = some ⟨k, .calling⟩ ∨ a.calledBy (.registering n) = [k] := by
  rw [List.getElem?_map, Option.map_eq_some_iff] at hr
  obtain ⟨⟨k', standing⟩, hr, rfl⟩ := hr
  by_cases hcalling : standing = .calling
  · exact .inl (hcalling ▸ hr)
  · refine .inr ?_
    rw [← hdue, due, leftOf, hr, Option.elim_some, Registration.left, if_neg hcalling,
      List.append_nil]

/-- **The firing calls each callback as often as it is registered and not taken back.** Whatever threads
do with a token, in any order, and whichever callbacks fail: from the first cancel call on,

* that call comes to call each callback as often as it was registered before, less the times it was
  taken back before;
* a registration made before comes to call nothing, and one made afterwards its own callback, once;
* and that at once: it has called its callback, or it is about to and there is no handle yet;
* no other cancel call comes to call anything;
* using a handle calls nothing, and changes nothing that anybody has left to call;
* whichever callbacks fail, all that anybody comes to call can be called. -/
theorem firing_calls_each (hbefore : .cancel ∉ before)
    (h : ({} : Audience κ).run (before ++ .cancel :: after) = some a) :
    (∀ k, (a.due (.cancelling 0)).count k + takenBack before k = (registered before).count k) ∧
      (∀ n, a.due (.registering n) =
        if n < (registered before).length then []
        else ((registered (before ++ .cancel :: after))[n]?).toList) ∧
      (∀ n k, (registered before).length ≤ n →
        (registered (before ++ .cancel :: after))[n]? = some k →
          a.registrations[n]? = some ⟨k, .calling⟩ ∨ a.calledBy (.registering n) = [k]) ∧
      (∀ m, m ≠ 0 → a.due (.cancelling m) = []) ∧
      (∀ n a', a.step (.takeBack n) = some a' →
        a'.calls = a.calls ∧ ∀ caller, a'.leftOf caller = a.leftOf caller) ∧
      ∀ fails : Caller → κ → Bool, ∃ (new : List (Call κ)) (a' : Audience κ),
        a.run (new.map callEvent) = some a' ∧ a'.calls = a.calls ++ new ∧
          (∀ c ∈ new, c.failed = fails c.caller c.callback) ∧
          ∀ caller, a'.calledBy caller = a.due caller := by
  rw [run_append, Option.bind_eq_some_iff] at h
  obtain ⟨b, hb, h⟩ := h
  rw [run_cons, Option.bind_eq_some_iff] at h
  obtain ⟨c, hc, h⟩ := h
  have hquiet := quiet_run hbefore hb
  obtain ⟨hspent, hregistrations, hfiring, hothers⟩ := hquiet.fire hc
  obtain ⟨-, hcallbacks, hcancelling, hregistering⟩ := spent_run hspent h
  rw [hregistrations, hquiet.callbacks_eq] at hcallbacks
  have hall : a.registrations.map Registration.callback =
      registered (before ++ .cancel :: after) := by
    rw [hcallbacks, registered_append]
    rfl
  have hlength : c.registrations.length = (registered before).length := by
    rw [hregistrations, ← hquiet.callbacks_eq, List.length_map]
  have hdue : ∀ n, a.due (.registering n) =
      if n < (registered before).length then []
      else ((registered (before ++ .cancel :: after))[n]?).toList := by
    intro n
    rw [hregistering, hothers _ (by simp), hlength, hall, List.nil_append]
  refine ⟨fun k => ?_, hdue, fun n k hn hk => ?_, fun m hm => ?_, fun n a' hstep => ?_,
    fun fails => ?_⟩
  · rw [hcancelling, hfiring, hquiet.count_registered]
  · refine calling_or_called (hall ▸ hk) ?_
    rw [hdue, if_neg (Nat.not_lt.mpr hn), hk]
    rfl
  · rw [hcancelling, hothers _ (by simpa using hm)]
  · have hsame := due_step hstep
    obtain ⟨k, -, rfl⟩ := step_takeBack_iff.mp hstep
    refine ⟨rfl, fun caller => ?_⟩
    have hcaller := hsame caller
    rw [show a.added (.takeBack n) caller = [] by cases caller <;> rfl, List.append_nil] at hcaller
    exact List.append_cancel_left hcaller
  · obtain ⟨new, a', hrun, hnew, hfails, hsettled⟩ := exists_settled a fails
    refine ⟨new, a', hrun, hnew, hfails, fun caller => ?_⟩
    rw [← due_run_calls hrun caller, due, hsettled caller, List.append_nil]

/-- Of two equal callbacks one is taken back in time. The other fails, a late one fails too, and handles
are used and the token is cancelled once more before the last one is called. -/
theorem firing_calls_each_failing :
    let before : List (Event Nat) := [.register 5, .register 5, .register 6, .takeBack 0]
    let after : List (Event Nat) :=
      [.callNext 0 true, .register 5, .callNow 3 true, .cancel, .takeBack 2, .callNext 0 false]
    let a : Audience Nat :=
      { token := ⟨true, []⟩
        registrations := [⟨5, .used⟩, ⟨5, .held⟩, ⟨6, .used⟩, ⟨5, .failed⟩]
        rounds := [[], []]
        calls := [⟨.cancelling 0, 5, true⟩, ⟨.registering 3, 5, true⟩, ⟨.cancelling 0, 6, false⟩] }
    (.cancel ∉ before ∧ ({} : Audience Nat).run (before ++ .cancel :: after) = some a) ∧
      (a.due (.cancelling 0)).count 5 + 1 = 2 ∧ a.due (.registering 3) = [5] ∧
      a.due (.registering 2) = [] ∧ a.due (.cancelling 1) = [] := by
  intro before after a
  have hbefore : .cancel ∉ before := by decide
  have hrun : ({} : Audience Nat).run (before ++ .cancel :: after) = some a := rfl
  obtain ⟨hfiring, hregistering, -, hlater, -, -⟩ := firing_calls_each hbefore hrun
  exact ⟨⟨hbefore, hrun⟩, hfiring 5, hregistering 3, hregistering 2, hlater 1 (by decide)⟩

end RepoAudit.Audience
