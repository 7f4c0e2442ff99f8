/-!
# Computations that may fail

What it takes for a sequence of steps to succeed, or to fail in a given way.

* `ok_bind`, `bind_eq_ok_iff`, `bind_eq_error_iff` — a step followed by others;
* `mapError_eq_ok_iff` — a step whose error is put in other words;
* `pure_eq_ok_iff`, `throw_eq_error_iff` and their like — the ends of such sequences;
* `exists_step_of_foldlM` — a step for each item of a list.
-/

namespace RepoAudit

variable {ε α β : Type}

/-- A step that succeeds leaves the others to be done. -/
theorem ok_bind (a : α) (f : α → Except ε β) : (Except.ok a >>= f) = f a := rfl

/-- A sequence succeeds when every step does. -/
theorem bind_eq_ok_iff {x : Except ε α} {f : α → Except ε β} {b : β} :
    (x >>= f) = .ok b ↔ ∃ a, x = .ok a ∧ f a = .ok b := by
  cases x <;> simp [bind, Except.bind]

/-- A sequence fails when a step does, after those before it have succeeded. -/
theorem bind_eq_error_iff {x : Except ε α} {f : α → Except ε β} {e : ε} :
    (x >>= f) = .error e ↔ x = .error e ∨ ∃ a, x = .ok a ∧ f a = .error e := by
  cases x <;> simp [bind, Except.bind]

/-- Putting an error in other words makes no difference to a success. -/
theorem mapError_eq_ok_iff {ε' : Type} {f : ε → ε'} {x : Except ε α} {a : α} :
    x.mapError f = .ok a ↔ x = .ok a := by
  cases x with
  | error e => exact iff_of_false nofun nofun
  | ok b =>
    exact ⟨fun h => congrArg Except.ok (Except.ok.inj h), fun h => congrArg Except.ok (Except.ok.inj h)⟩

theorem pure_eq_ok_iff {a b : α} : (pure a : Except ε α) = .ok b ↔ a = b := by
  simp [pure, Except.pure]

@[simp]
theorem pure_ne_error {a : α} {e : ε} : (pure a : Except ε α) ≠ .error e := by
  simp [pure, Except.pure]

@[simp]
theorem throw_ne_ok {e : ε} {a : α} : (throw e : Except ε α) ≠ .ok a := by
  simp [throw, throwThe, MonadExceptOf.throw]

@[simp]
theorem throw_eq_error_iff {e e' : ε} : (throw e : Except ε α) = .error e' ↔ e = e' := by
  simp [throw, throwThe, MonadExceptOf.throw]

/-- Of steps that are taken one after the other every one succeeds, when all of them do. -/
theorem exists_step_of_foldlM {f : β → α → Except ε β} {items : List α} {item : α} {b b' : β}
    (h : items.foldlM f b = .ok b') (hitem : item ∈ items) :
    ∃ before after, f before item = .ok after := by
  induction items generalizing b with
  | nil => exact absurd hitem List.not_mem_nil
  | cons first rest ih =>
    obtain ⟨mid, hfirst, hrest⟩ := bind_eq_ok_iff.mp (List.foldlM_cons.symm.trans h)
    rcases List.mem_cons.mp hitem with rfl | hitem
    · exact ⟨b, mid, hfirst⟩
    · exact ih hrest hitem

end RepoAudit
