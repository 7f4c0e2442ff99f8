import RepoAudit.Text.Search

/-!
# What replacing leaves behind

`occursIn` decides the infix relation, and `replaceAll` is the left-to-right, non-overlapping
replacement of that relation:

* `Replaced old new s t` — the rule: where `old` stands at the head of what is left it goes and `new`
  comes, otherwise one character is kept;
* `replaceAll_replaced` — the scan follows the rule;
* `replaceAll_eq_self` — a text without `old` stays as it is;
* `not_infix_replaceAll` — when `new` shares no character with `old`, the result holds no `old`,
  the seams between kept and new characters included;
* `infix_of_infix_replaceAll` — a pattern that shares no character with `new` occurs in the result
  only if it occurred before.
-/

namespace RepoAudit.Text

/-! ### Occurrences -/

theorem occursIn_iff {p s : List Char} : occursIn p s = true ↔ p <:+: s := by
  induction s with
  | nil => simp [occursIn]
  | cons c r ih =>
    rw [occursIn, Bool.or_eq_true, List.isPrefixOf_iff_prefix, ih, List.infix_cons_iff]

/-- A pattern whose first character is missing from `l` does not begin in `l`. -/
theorem infix_of_cons_infix_append {d : Char} {q l s : List Char} (hd : d ∉ l)
    (h : d :: q <:+: l ++ s) : d :: q <:+: s := by
  induction l with
  | nil => exact h
  | cons c l ih =>
    rw [List.cons_append, List.infix_cons_iff] at h
    rcases h with h | h
    · exact absurd ((List.cons_prefix_cons.mp h).1 ▸ List.mem_cons_self) hd
    · exact ih (fun hm => hd (List.mem_cons_of_mem c hm)) h

/-- A pattern without a character of `l` that stands in `l ++ s` stands in `s`. -/
theorem infix_of_infix_append {p l s : List Char} (hp : p ≠ []) (hd : ∀ c ∈ l, c ∉ p)
    (h : p <:+: l ++ s) : p <:+: s := by
  obtain ⟨d, q, rfl⟩ := List.exists_cons_of_ne_nil hp
  exact infix_of_cons_infix_append (fun hm => hd d hm List.mem_cons_self) h

/-! ### The rule of replacement -/

/-- `t` is `s` with `old` exchanged for `new` from left to right: an occurrence at the head is
exchanged as a whole, and a character is kept only where none begins. -/
inductive Replaced (old new : List Char) : List Char → List Char → Prop
  | nil : Replaced old new [] []
  | keep {c : Char} {r t : List Char} :
      ¬ old <+: c :: r → Replaced old new r t → Replaced old new (c :: r) (c :: t)
  | exchange {r t : List Char} :
      Replaced old new r t → Replaced old new (old ++ r) (new ++ t)

/-- The scan passes over the `skip` characters it still owes and goes on by the rule. -/
theorem replaceScan_replaced {old : List Char} (new : List Char) (hold : old ≠ [])
    (s : List Char) : ∀ (skip : Nat) (done : List Char), skip ≤ s.length →
      ∃ t, Replaced old new (s.drop skip) t ∧
        replaceScan old new skip done s = done.reverse ++ t := by
  induction s with
  | nil =>
    intro skip done _
    exact ⟨[], by simpa using Replaced.nil, by simp [replaceScan]⟩
  | cons c r ih =>
    intro skip done hskip
    rw [List.length_cons] at hskip
    cases skip with
    | succ k =>
      obtain ⟨t, ht, hscan⟩ := ih k done (by omega)
      exact ⟨t, by simpa using ht, hscan⟩
    | zero =>
      by_cases hpre : old <+: c :: r
      · have hif : old.isPrefixOf (c :: r) = true := List.isPrefixOf_iff_prefix.mpr hpre
        have hpos : 0 < old.length := List.length_pos_iff.mpr hold
        have hlen : old.length ≤ r.length + 1 := by simpa using hpre.length_le
        obtain ⟨t, ht, hscan⟩ := ih (old.length - 1) (new.reverse ++ done) (by omega)
        refine ⟨new ++ t, ?_, ?_⟩
        · have hdrop : (c :: r).drop old.length = r.drop (old.length - 1) := by
            rw [show old.length = old.length - 1 + 1 by omega, List.drop_succ_cons,
              Nat.add_sub_cancel]
          rw [List.drop_zero, List.prefix_iff_eq_append.mp hpre |>.symm, hdrop]
          exact ht.exchange
        · rw [replaceScan, if_pos hif, hscan, List.reverse_append, List.reverse_reverse,
            List.append_assoc]
      · have hif : ¬ old.isPrefixOf (c :: r) = true := fun h =>
          hpre (List.isPrefixOf_iff_prefix.mp h)
        obtain ⟨t, ht, hscan⟩ := ih 0 (c :: done) (by omega)
        refine ⟨c :: t, .keep hpre ht, ?_⟩
        rw [replaceScan, if_neg hif, hscan, List.reverse_cons, List.append_assoc]
        rfl

/-- **`replaceAll` follows the rule.** -/
theorem replaceAll_replaced {old : List Char} (new s : List Char) (hold : old ≠ []) :
    Replaced old new s (replaceAll old new s) := by
  obtain ⟨t, ht, hscan⟩ := replaceScan_replaced new hold s 0 [] (Nat.zero_le _)
  have hall : replaceAll old new s = t := by
    rw [replaceAll, if_neg (by simpa using hold), hscan]
    rfl
  rw [hall]
  exact ht

namespace Replaced

variable {old new s t : List Char}

/-- Where `old` never begins, nothing is exchanged. -/
theorem eq_of_absent (h : Replaced old new s t) (hs : ¬ old <:+: s) : t = s := by
  induction h with
  | nil => rfl
  | keep _ _ ih => rw [ih fun hr => hs (List.infix_cons hr)]
  | exchange _ _ => exact absurd List.infix_append_left hs

/-- A prefix of the result without a character of `new` is a prefix of the text. -/
theorem starts_before {p : List Char} (h : Replaced old new s t) (hnew : new ≠ [])
    (hd : ∀ c ∈ new, c ∉ p) (hp : p <+: t) : p <+: s := by
  induction h generalizing p with
  | nil => exact hp
  | keep _ _ ih =>
    rcases List.prefix_cons_iff.mp hp with rfl | ⟨u, rfl, hu⟩
    · exact List.nil_prefix
    · rw [List.cons_prefix_cons]
      exact ⟨rfl, ih (fun d hm hdu => hd d hm (List.mem_cons_of_mem _ hdu)) hu⟩
  | exchange _ _ =>
    obtain ⟨d, ds, rfl⟩ := List.exists_cons_of_ne_nil hnew
    rcases List.prefix_cons_iff.mp hp with rfl | ⟨u, rfl, -⟩
    · exact List.nil_prefix
    · exact absurd List.mem_cons_self (hd d List.mem_cons_self)

/-- A pattern without a character of `new` occurs in the result only where it occurred before. -/
theorem occurs_before {p : List Char} (h : Replaced old new s t) (hnew : new ≠ []) (hp : p ≠ [])
    (hd : ∀ c ∈ new, c ∉ p) (hi : p <:+: t) : p <:+: s := by
  induction h with
  | nil => exact hi
  | keep hpre hr ih =>
    rcases List.infix_cons_iff.mp hi with hi | hi
    · exact ((Replaced.keep hpre hr).starts_before hnew hd hi).isInfix
    · exact List.infix_cons (ih hi)
  | exchange _ ih =>
    exact List.infix_append_of_infix_right (ih (infix_of_infix_append hp hd hi))

/-- **No occurrence is left or made.** One that begins at a kept character would, as it holds no
character of `new`, have begun there before; one that begins in `new` holds a character of it. -/
theorem absent (h : Replaced old new s t) (hnew : new ≠ []) (hold : old ≠ [])
    (hd : ∀ c ∈ new, c ∉ old) : ¬ old <:+: t := by
  induction h with
  | nil => simpa using hold
  | keep hpre hr ih =>
    intro hi
    rcases List.infix_cons_iff.mp hi with hi | hi
    · exact hpre ((Replaced.keep hpre hr).starts_before hnew hd hi)
    · exact ih hi
  | exchange _ ih => exact fun hi => ih (infix_of_infix_append hold hd hi)

end Replaced

/-! ### The laws of `replaceAll` -/

theorem replaceAll_eq_self {old s : List Char} (new : List Char) (h : ¬ old <:+: s) :
    replaceAll old new s = s := by
  have hold : old ≠ [] := fun h0 => h (h0 ▸ List.nil_infix)
  exact (replaceAll_replaced new s hold).eq_of_absent h

theorem not_infix_replaceAll {old new : List Char} (s : List Char) (hold : old ≠ [])
    (hnew : new ≠ []) (hd : ∀ c ∈ new, c ∉ old) : ¬ old <:+: replaceAll old new s :=
  (replaceAll_replaced new s hold).absent hnew hold hd

theorem infix_of_infix_replaceAll {old new p s : List Char} (hold : old ≠ []) (hnew : new ≠ [])
    (hp : p ≠ []) (hd : ∀ c ∈ new, c ∉ p) (h : p <:+: replaceAll old new s) : p <:+: s :=
  (replaceAll_replaced new s hold).occurs_before hnew hp hd h

end RepoAudit.Text
