import Mathlib.Data.List.Induction
import RepoAudit.Cancel.Audience

/-!
# What is to be called

Every step but the registration of a callback and the firing of the token leaves alone what anybody
comes to call; a call of a callback only moves it from what is left to what has been called.

* `step_callNow_iff`, `step_takeBack_iff`, `step_callNext_iff` — when a step can be made, and what it
  does;
* `added` — what a step gives a caller to call; `due_step` — and nothing else changes what is due;
* `callEvent` — the step in which a call is made; `step_callEvent` — whoever has something left can call
  the first of it, whether or not it fails;
* `exists_settled` — whichever callbacks fail, all that is left can be called.
-/

namespace RepoAudit.Audience

variable {κ : Type} [DecidableEq κ] {a a' : Audience κ} {k : κ} {n m : Nat} {fails : Bool}
  {caller : Caller}

/-! ### Steps -/

theorem step_register (a : Audience κ) (k : κ) : a.step (.register k) =
    some { a with
      token := (a.token.register k).1
      registrations := a.registrations ++ [⟨k, if a.token.fired then .calling else .held⟩] } := by
  rw [step, Token.register]
  cases a.token.fired <;> rfl

theorem step_cancel (a : Audience κ) : a.step .cancel =
    some { a with token := a.token.fire.1, rounds := a.rounds ++ [a.token.fire.2] } := rfl

theorem step_callNow_iff : a.step (.callNow n fails) = some a' ↔
    ∃ k, a.registrations[n]? = some ⟨k, .calling⟩ ∧
      a' = { a with
        registrations := a.registrations.set n ⟨k, if fails then .failed else .held⟩
        calls := a.calls ++ [⟨.registering n, k, fails⟩] } := by
  rw [step]
  cases a.registrations[n]? with
  | none => simp
  | some r =>
    obtain ⟨k, standing⟩ := r
    by_cases hs : standing = .calling <;> simp [hs, turn, eq_comm]

theorem step_takeBack_iff : a.step (.takeBack n) = some a' ↔
    ∃ k, a.registrations[n]? = some ⟨k, .held⟩ ∧
      a' = { a with
        token := a.token.remove k
        registrations := a.registrations.set n ⟨k, .used⟩ } := by
  rw [step]
  cases a.registrations[n]? with
  | none => simp
  | some r =>
    obtain ⟨k, standing⟩ := r
    by_cases hs : standing = .held <;> simp [hs, turn, eq_comm]

theorem step_callNext_iff : a.step (.callNext m fails) = some a' ↔
    ∃ k rest, a.rounds[m]? = some (k :: rest) ∧
      a' = { a with
        rounds := a.rounds.set m rest
        calls := a.calls ++ [⟨.cancelling m, k, fails⟩] } := by
  rw [step]
  cases a.rounds[m]? with
  | none => simp
  | some round => cases round <;> simp [eq_comm]

/-! ### What a step gives anybody to call -/

/-- What a caller comes to call because of a step. -/
def added (a : Audience κ) : Event κ → Caller → List κ
  | .register k, .registering n =>
    if n = a.registrations.length ∧ a.token.fired = true then [k] else []
  | .cancel, .cancelling m => if m = a.rounds.length then a.token.fire.2 else []
  | _, _ => []

section Positions

variable {β : Type} {xs : List β} {y : β}

omit [DecidableEq κ]

/-- An item at the end adds what is read off it, at its own position. -/
theorem elim_getElem?_concat (f : β → List κ) (xs : List β) (x : β) (n : Nat) :
    ((xs ++ [x])[n]?).elim [] f = xs[n]?.elim [] f ++ if n = xs.length then f x else [] := by
  rcases Nat.lt_trichotomy n xs.length with hlt | rfl | hgt
  · rw [List.getElem?_append_left hlt, if_neg (Nat.ne_of_lt hlt), List.append_nil]
  · simp
  · rw [List.getElem?_eq_none (by simpa using Nat.succ_le_of_lt hgt), List.getElem?_eq_none (Nat.le_of_lt hgt),
      if_neg (Nat.ne_of_gt hgt), List.append_nil]

/-- An exchanged item changes what is read off its own position. -/
theorem elim_getElem?_set (f : β → List κ) (h : xs[n]? = some y) (x : β) (i : Nat) :
    ((xs.set n x)[i]?).elim [] f = if n = i then f x else xs[i]?.elim [] f := by
  obtain ⟨hlt, -⟩ := List.getElem?_eq_some_iff.mp h
  rw [List.getElem?_set]
  by_cases hi : n = i
  · subst hi
    rw [if_pos rfl, if_pos hlt, if_pos rfl, Option.elim_some]
  · rw [if_neg hi, if_neg hi]

/-- A call is one more of its caller, and of nobody else. -/
theorem calledBy_concat {c : Call κ} (h : a'.calls = a.calls ++ [c]) (caller : Caller) :
    a'.calledBy caller = a.calledBy caller ++ if c.caller = caller then [c.callback] else [] := by
  rw [calledBy, h, List.filter_append, List.map_append]
  by_cases hc : c.caller = caller <;> simp [hc, calledBy]

/-- Where nothing is called, what is due grows as what is left. -/
theorem due_of_no_call {new : List κ} (h : a'.calls = a.calls)
    (hleft : a'.leftOf caller = a.leftOf caller ++ new) : a'.due caller = a.due caller ++ new := by
  rw [due, due, List.append_assoc, ← hleft, calledBy, h]
  rfl

/-- What is due stays when a call is taken from the front of what is left. -/
theorem due_of_call {c : Call κ} (h : a'.calls = a.calls ++ [c])
    (hleft : a.leftOf caller =
      (if c.caller = caller then [c.callback] else []) ++ a'.leftOf caller) :
    a'.due caller = a.due caller := by
  rw [due, calledBy_concat h, List.append_assoc, ← hleft]
  rfl

end Positions

/-- **Only a registration with a fired token and the firing itself give anybody something to call.** -/
theorem due_step {e : Event κ} (h : a.step e = some a') (caller : Caller) :
    a'.due caller = a.due caller ++ a.added e caller := by
  cases e with
  | register k =>
    rw [step_register, Option.some.injEq] at h
    subst h
    refine due_of_no_call rfl ?_
    cases caller with
    | cancelling m => exact (List.append_nil _).symm
    | registering n =>
      rw [leftOf, elim_getElem?_concat, leftOf, added]
      cases hfired : a.token.fired <;> simp [Registration.left]
  | callNow n fails =>
    obtain ⟨k, hn, rfl⟩ := step_callNow_iff.mp h
    have hadded : a.added (.callNow n fails) caller = [] := by cases caller <;> rfl
    rw [hadded, List.append_nil]
    refine due_of_call rfl ?_
    cases caller with
    | cancelling m => rfl
    | registering i =>
      rw [leftOf, leftOf, elim_getElem?_set _ hn]
      by_cases hi : n = i
      · subst hi
        cases fails <;> simp [hn, Registration.left]
      · simp [hi]
  | takeBack n =>
    obtain ⟨k, hn, rfl⟩ := step_takeBack_iff.mp h
    refine due_of_no_call rfl ?_
    cases caller with
    | cancelling m => exact (List.append_nil _).symm
    | registering i =>
      rw [leftOf, elim_getElem?_set _ hn, leftOf]
      by_cases hi : n = i
      · subst hi
        simp [hn, added, Registration.left]
      · simp [hi, added]
  | cancel =>
    rw [step_cancel, Option.some.injEq] at h
    subst h
    refine due_of_no_call rfl ?_
    cases caller with
    | registering n => exact (List.append_nil _).symm
    | cancelling m =>
      rw [leftOf, elim_getElem?_concat, leftOf, added]
      rfl
  | callNext m fails =>
    obtain ⟨k, rest, hm, rfl⟩ := step_callNext_iff.mp h
    have hadded : a.added (.callNext m fails) caller = [] := by cases caller <;> rfl
    rw [hadded, List.append_nil]
    refine due_of_call rfl ?_
    cases caller with
    | registering n => rfl
    | cancelling i =>
      rw [leftOf, leftOf, elim_getElem?_set _ hm]
      by_cases hi : m = i
      · subst hi
        simp [hm]
      · simp [hi]

/-! ### Several steps -/

theorem run_append (a : Audience κ) (before after : List (Event κ)) :
    a.run (before ++ after) = (a.run before).bind fun a' => a'.run after :=
  List.foldlM_append

theorem run_cons (a : Audience κ) (e : Event κ) (after : List (Event κ)) :
    a.run (e :: after) = (a.step e).bind fun a' => a'.run after :=
  List.foldlM_cons

/-- Where several steps lead, the steps before the last one lead to where the last one is made. -/
theorem run_concat_iff {before : List (Event κ)} {e : Event κ} :
    a.run (before ++ [e]) = some a' ↔ ∃ b, a.run before = some b ∧ b.step e = some a' := by
  have hlast : ∀ b : Audience κ, b.run [e] = b.step e := fun b => by simp [run]
  simp only [run_append, Option.bind_eq_some_iff, hlast]

/-! ### Calling what is left -/

/-- The step in which a call is made. -/
def callEvent (c : Call κ) : Event κ :=
  match c.caller with
  | .cancelling m => .callNext m c.failed
  | .registering n => .callNow n c.failed

omit [DecidableEq κ] in
/-- A call gives nobody anything to call. -/
theorem added_callEvent (a : Audience κ) (c : Call κ) (other : Caller) :
    a.added (callEvent c) other = [] := by
  obtain ⟨caller, k, fails⟩ := c
  cases caller <;> cases other <;> rfl

/-- Calls leave alone what is due. -/
theorem due_run_calls {new : List (Call κ)} (h : a.run (new.map callEvent) = some a')
    (caller : Caller) : a'.due caller = a.due caller := by
  induction new using List.reverseRecOn generalizing a' with
  | nil =>
    cases h
    rfl
  | append_singleton new c ih =>
    rw [List.map_append, List.map_singleton, run_concat_iff] at h
    obtain ⟨b, hrun, hstep⟩ := h
    rw [due_step hstep, added_callEvent, List.append_nil, ih hrun]

/-- Whoever has something left can call the first of it, whether or not it fails, and has the rest left
then. Nobody else notices. -/
theorem step_callEvent {rest : List κ} (h : a.leftOf caller = k :: rest) (fails : Bool) :
    ∃ a', a.step (callEvent ⟨caller, k, fails⟩) = some a' ∧
      a'.calls = a.calls ++ [⟨caller, k, fails⟩] ∧
      ∀ other, a'.leftOf other = if other = caller then rest else a.leftOf other := by
  obtain ⟨a', hstep, hcalls⟩ : ∃ a', a.step (callEvent ⟨caller, k, fails⟩) = some a' ∧
      a'.calls = a.calls ++ [⟨caller, k, fails⟩] := by
    cases caller with
    | cancelling m =>
      obtain ⟨round, hround, hleft⟩ : ∃ round, a.rounds[m]? = some round ∧ round = k :: rest := by
        cases hm : a.rounds[m]? <;> simp_all [leftOf]
      subst hleft
      exact ⟨_, step_callNext_iff.mpr ⟨k, rest, hround, rfl⟩, rfl⟩
    | registering n =>
      obtain ⟨r, hr, hleft⟩ : ∃ r, a.registrations[n]? = some r ∧ r.left = k :: rest := by
        cases hn : a.registrations[n]? <;> simp_all [leftOf]
      obtain ⟨k', standing⟩ := r
      rw [Registration.left] at hleft
      split at hleft
      · next hcalling =>
        obtain rfl : standing = .calling := hcalling
        obtain rfl : k' = k := (List.cons.inj hleft).1
        exact ⟨_, step_callNow_iff.mpr ⟨k', hr, rfl⟩, rfl⟩
      · cases hleft
  refine ⟨a', hstep, hcalls, fun other => ?_⟩
  have hdue := due_step hstep other
  rw [added_callEvent, List.append_nil, due, due, calledBy_concat hcalls, List.append_assoc,
    List.append_cancel_left_eq] at hdue
  by_cases hother : other = caller
  · subst hother
    rw [if_pos rfl, h] at hdue
    rw [if_pos rfl]
    exact (List.cons.inj hdue).2
  · rw [if_neg (Ne.symm hother), List.nil_append] at hdue
    rw [if_neg hother, hdue]

/-- One caller can call all it has left. -/
theorem exists_caller_settled (a : Audience κ) (fails : Caller → κ → Bool) (caller : Caller) :
    ∃ (new : List (Call κ)) (a' : Audience κ), a.run (new.map callEvent) = some a' ∧
      a'.calls = a.calls ++ new ∧ (∀ c ∈ new, c.failed = fails c.caller c.callback) ∧
      ∀ other, a'.leftOf other = if other = caller then [] else a.leftOf other := by
  induction hleft : a.leftOf caller generalizing a with
  | nil =>
    refine ⟨[], a, rfl, (List.append_nil _).symm, by simp, fun other => ?_⟩
    split
    · next hother => rw [hother, hleft]
    · rfl
  | cons k rest ih =>
    obtain ⟨b, hstep, hcalls, hb⟩ := step_callEvent hleft (fails caller k)
    obtain ⟨new, a', hrun, hnew, hfails, ha'⟩ := ih b (by rw [hb, if_pos rfl])
    refine ⟨⟨caller, k, fails caller k⟩ :: new, a', ?_, ?_, ?_, fun other => ?_⟩
    · rw [List.map_cons, run_cons, hstep, Option.bind_some, hrun]
    · rw [hnew, hcalls, List.append_assoc, List.singleton_append]
    · exact List.forall_mem_cons.mpr ⟨rfl, hfails⟩
    · rw [ha', hb]
      split <;> rfl

/-- The callers of a list can call all they have left. -/
theorem exists_callers_settled (a : Audience κ) (fails : Caller → κ → Bool)
    (callers : List Caller) :
    ∃ (new : List (Call κ)) (a' : Audience κ), a.run (new.map callEvent) = some a' ∧
      a'.calls = a.calls ++ new ∧ (∀ c ∈ new, c.failed = fails c.caller c.callback) ∧
      ∀ other, a'.leftOf other = if other ∈ callers then [] else a.leftOf other := by
  induction callers generalizing a with
  | nil => exact ⟨[], a, rfl, (List.append_nil _).symm, by simp, by simp⟩
  | cons caller callers ih =>
    obtain ⟨first, b, hrun, hcalls, hfails, hb⟩ := exists_caller_settled a fails caller
    obtain ⟨new, a', hrun', hnew, hfails', ha'⟩ := ih b
    refine ⟨first ++ new, a', ?_, ?_, ?_, fun other => ?_⟩
    · rw [List.map_append, run_append, hrun, Option.bind_some, hrun']
    · rw [hnew, hcalls, List.append_assoc]
    · exact fun c hc => (List.mem_append.mp hc).elim (hfails c) (hfails' c)
    · rw [ha', hb]
      by_cases hother : other = caller <;> simp [hother]

/-- **Whichever callbacks fail, all that is due can be called.** -/
theorem exists_settled (a : Audience κ) (fails : Caller → κ → Bool) :
    ∃ (new : List (Call κ)) (a' : Audience κ), a.run (new.map callEvent) = some a' ∧
      a'.calls = a.calls ++ new ∧ (∀ c ∈ new, c.failed = fails c.caller c.callback) ∧
      a'.IsSettled := by
  let callers := (List.range a.rounds.length).map Caller.cancelling ++
    (List.range a.registrations.length).map Caller.registering
  obtain ⟨new, a', hrun, hnew, hfails, ha'⟩ := exists_callers_settled a fails callers
  refine ⟨new, a', hrun, hnew, hfails, fun caller => ?_⟩
  rw [ha']
  split
  · rfl
  · next hout =>
    -- a number that was not given out has nothing left
    cases caller with
    | cancelling m =>
      have hm : a.rounds.length ≤ m := by simpa [callers] using hout
      rw [leftOf, List.getElem?_eq_none hm, Option.elim_none]
    | registering n =>
      have hn : a.registrations.length ≤ n := by simpa [callers] using hout
      rw [leftOf, List.getElem?_eq_none hn, Option.elim_none]

end RepoAudit.Audience
