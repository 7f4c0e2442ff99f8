import Mathlib.Data.List.Induction
import RepoAudit.Log
import RepoAudit.Proofs.Redaction.Token

/-!
# Several secrets in one text

After its tokens and credentials are hidden, `redact` makes a last pass over the secrets, and each
one that still occurs is exchanged for its mask. An exchange can bring back a secret that has had
its turn: the pass does not look at that secret again.

* `maskTurn` — one turn of the last pass;
* `exists_last_exchange` — either nothing is exchanged or some exchange is the last, and from then
  on the text stays as it is;
* `LastMaskHolds` — that last exchange leaves no earlier secret in view;
* `redact_hides_iff` — **the result shows no secret exactly when `LastMaskHolds`**; a secret that it
  does show holds the mask character of a later one, and log records follow suit;
* `redact_shows_earlier_secret` — a text and two secrets for which it does not hold.
-/

namespace RepoAudit.Redaction

open Text

/-! ### The last pass -/

/-- One turn of the last pass: a secret that occurs is exchanged for its mask. -/
def maskTurn (t s : List Char) : List Char :=
  if occursIn s t then replaceAll s (maskOf s) t else t

theorem maskRemaining_append (t : List Char) (a b : List (List Char)) :
    maskRemaining t (a ++ b) = maskRemaining (maskRemaining t a) b :=
  List.foldl_append

theorem maskRemaining_cons (t s : List Char) (rest : List (List Char)) :
    maskRemaining t (s :: rest) = maskRemaining (maskTurn t s) rest := rfl

theorem maskTurn_eq_self {t s : List Char} (h : ¬ s <:+: t) : maskTurn t s = t := by
  rw [maskTurn, if_neg fun ho => h (occursIn_iff.mp ho)]

/-- A secret is out of view after its own turn. -/
theorem not_infix_maskTurn {s : List Char} (t : List Char) (hne : s ≠ []) (hmask : Maskable s) :
    ¬ s <:+: maskTurn t s := by
  rw [maskTurn]
  split
  · exact not_infix_replace_maskOf t hne hmask
  · next hoccurs => exact fun hi => hoccurs (occursIn_iff.mpr hi)

theorem maskRemaining_eq_self {t : List Char} {secrets : List (List Char)}
    (h : ∀ s ∈ secrets, ¬ s <:+: t) : maskRemaining t secrets = t := by
  induction secrets with
  | nil => rfl
  | cons s rest ih =>
    rw [maskRemaining_cons, maskTurn_eq_self (h s List.mem_cons_self)]
    exact ih fun x hx => h x (List.mem_cons_of_mem s hx)

/-- A turn shows nothing new that lacks the mask character. -/
theorem infix_of_infix_maskTurn {p s t : List Char} (hs : s ≠ []) (hp : p ≠ [])
    (hd : maskChar s ∉ p) (h : p <:+: maskTurn t s) : p <:+: t := by
  rw [maskTurn] at h
  split at h
  · refine infix_of_infix_replaceAll hs (maskOf_ne_nil s) hp ?_ h
    intro c hc
    rw [mem_maskOf hc]
    exact hd
  · exact h

/-- What is out of view stays so, unless it holds the mask character of a secret to come. -/
theorem not_infix_maskRemaining {p t : List Char} {secrets : List (List Char)}
    (hne : ∀ s ∈ secrets, s ≠ []) (hd : ∀ s ∈ secrets, maskChar s ∉ p) (h : ¬ p <:+: t) :
    ¬ p <:+: maskRemaining t secrets := by
  have hp : p ≠ [] := fun h0 => h (h0 ▸ List.nil_infix)
  induction secrets generalizing t with
  | nil => exact h
  | cons s rest ih =>
    rw [maskRemaining_cons]
    refine ih (fun x hx => hne x (List.mem_cons_of_mem s hx))
      (fun x hx => hd x (List.mem_cons_of_mem s hx)) ?_
    exact fun hi => h (infix_of_infix_maskTurn (hne s List.mem_cons_self) hp
      (hd s List.mem_cons_self) hi)

/-! ### The last exchange -/

/-- Either nothing is ever exchanged, or there is a last exchange, that of `x`: none of the secrets
after `x` occurs in the text that it leaves. -/
theorem exists_last_exchange (t : List Char) (secrets : List (List Char)) :
    (∀ s ∈ secrets, ¬ s <:+: t) ∨
      ∃ before x after, secrets = before ++ x :: after ∧ x <:+: maskRemaining t before ∧
        ∀ y ∈ after, ¬ y <:+: maskTurn (maskRemaining t before) x := by
  -- from the back: the secret that had its turn last either was exchanged or changes nothing
  induction secrets using List.reverseRecOn with
  | nil => exact .inl fun s hs => absurd hs List.not_mem_nil
  | append_singleton init z ih =>
    by_cases hz : z <:+: maskRemaining t init
    · exact .inr ⟨init, z, [], rfl, hz, fun y hy => absurd hy List.not_mem_nil⟩
    · rcases ih with hnone | ⟨before, x, after, rfl, hx, hafter⟩
      · rw [maskRemaining_eq_self hnone] at hz
        refine .inl fun s hs => ?_
        rcases List.mem_append.mp hs with hs | hs
        · exact hnone s hs
        · rw [List.mem_singleton.mp hs]
          exact hz
      · rw [maskRemaining_append, maskRemaining_cons, maskRemaining_eq_self hafter] at hz
        refine .inr ⟨before, x, after ++ [z], by simp, hx, fun y hy => ?_⟩
        rcases List.mem_append.mp hy with hy | hy
        · exact hafter y hy
        · rw [List.mem_singleton.mp hy]
          exact hz

/-- The last exchange of the pass, that of `x`, leaves no secret in view that stands before `x`. -/
def LastMaskHolds (t : List Char) (secrets : List (List Char)) : Prop :=
  ∀ before x after, secrets = before ++ x :: after → x <:+: maskRemaining t before →
    (∀ y ∈ after, ¬ y <:+: maskTurn (maskRemaining t before) x) →
    ∀ s ∈ before, ¬ s <:+: maskTurn (maskRemaining t before) x

/-- **The pass hides every secret exactly when its last exchange does.** -/
theorem maskRemaining_hides_iff {t : List Char} {secrets : List (List Char)}
    (hne : ∀ s ∈ secrets, s ≠ []) (hmask : ∀ s ∈ secrets, Maskable s) :
    (∀ s ∈ secrets, ¬ s <:+: maskRemaining t secrets) ↔ LastMaskHolds t secrets := by
  constructor
  · rintro hall before x after rfl - hafter s hs
    have hs' := hall s (List.mem_append_left _ hs)
    rwa [maskRemaining_append, maskRemaining_cons, maskRemaining_eq_self hafter] at hs'
  · intro hlast s hs
    rcases exists_last_exchange t secrets with hnone | ⟨before, x, after, rfl, hx, hafter⟩
    · rw [maskRemaining_eq_self hnone]
      exact hnone s hs
    · rw [maskRemaining_append, maskRemaining_cons, maskRemaining_eq_self hafter]
      rcases List.mem_append.mp hs with hbefore | hrest
      · exact hlast before x after rfl hx hafter s hbefore
      · rcases List.mem_cons.mp hrest with rfl | hlater
        · have hmem : s ∈ before ++ s :: after := List.mem_append_right _ List.mem_cons_self
          exact not_infix_maskTurn _ (hne s hmem) (hmask s hmem)
        · exact hafter s hlater

/-! ### Texts and log records -/

/-- The text that the last pass begins with. -/
def textBeforeMasks (text : String) (secrets : List String) : List Char :=
  hideCredentials ((secrets.map String.toList).foldl hideToken text.toList)

theorem foldl_hideToken_nil (secrets : List (List Char)) :
    secrets.foldl hideToken [] = [] := by
  induction secrets with
  | nil => rfl
  | cons s rest ih => simpa [hideToken] using ih

theorem toList_redact {text : String} {secrets : List String} (hne : ∀ s ∈ secrets, s ≠ "") :
    (redact text secrets).toList =
      maskRemaining (textBeforeMasks text secrets) (secrets.map String.toList) := by
  have hchars : ∀ s ∈ secrets.map String.toList, s ≠ [] := by
    intro s hs
    obtain ⟨u, hu, rfl⟩ := List.mem_map.mp hs
    simpa using hne u hu
  have hfilter : (secrets.map String.toList).filter (!·.isEmpty) = secrets.map String.toList := by
    rw [List.filter_eq_self]
    intro s hs
    simpa using hchars s hs
  rw [redact, String.toList_ofList, redactChars, hfilter, textBeforeMasks]
  split
  · next hempty =>
    have htext : text.toList = [] := by simpa using hempty
    have hnone : ∀ s ∈ secrets.map String.toList, ¬ s <:+: hideCredentials [] :=
      fun s hs hi => hchars s hs (List.infix_nil.mp hi)
    rw [htext, foldl_hideToken_nil, maskRemaining_eq_self hnone]
    rfl
  · rfl

/-- Whatever the filter does to a record, its text is the redacted one, also where that text would be
no template. -/
theorem message_redacted {α ε : Type} {format : String → List α → Except ε String}
    {e : Log.Entry α} {m : String} (secrets : List String) (h : e.message format = .ok m) :
    ∃ e', e.redacted format secrets = .ok e' ∧ e'.message format = .ok (redact m secrets) := by
  simp only [Log.Entry.redacted, h]
  refine ⟨_, rfl, ?_⟩
  split
  · next hsame => rw [h, hsame]
  · rfl

theorem message_redactRecord {r : Log.Record} {m : String} (secrets : List String)
    (h : r.message = .ok m) : ∃ r', Log.redactRecord secrets r = .ok r' ∧
      r'.message = .ok (redact m secrets) :=
  message_redacted secrets h

/-- **Redacting several secrets.** The result shows none of them exactly when the last exchange of the
last pass leaves no earlier one in view. A secret that is shown all the same holds the mask character
of a secret after it. The text of a log record that can be filled in becomes the redacted text. -/
theorem redact_hides_iff (text : String) (secrets : List String) (hne : ∀ s ∈ secrets, s ≠ "")
    (hmask : ∀ s ∈ secrets, Maskable s.toList) :
    ((∀ s ∈ secrets, ¬ Shows (redact text secrets) s) ↔
        LastMaskHolds (textBeforeMasks text secrets) (secrets.map String.toList)) ∧
      (∀ before s after, secrets = before ++ s :: after → Shows (redact text secrets) s →
        ∃ x ∈ after, maskChar x.toList ∈ s.toList) ∧
      ∀ (r : Log.Record) (m : String), r.message = .ok m →
        ∃ r', Log.redactRecord secrets r = .ok r' ∧ r'.message = .ok (redact m secrets) := by
  have hchars : ∀ s ∈ secrets.map String.toList, s ≠ [] ∧ Maskable s := by
    intro s hs
    obtain ⟨u, hu, rfl⟩ := List.mem_map.mp hs
    exact ⟨by simpa using hne u hu, hmask u hu⟩
  refine ⟨?_, ?_, fun r m hm => message_redactRecord secrets hm⟩
  · rw [← maskRemaining_hides_iff (fun s hs => (hchars s hs).1) (fun s hs => (hchars s hs).2),
      ← toList_redact hne, List.forall_mem_map]
    rfl
  · rintro before s after rfl hshown
    rw [Shows, toList_redact hne, List.map_append, List.map_cons, maskRemaining_append,
      maskRemaining_cons] at hshown
    have hs : s.toList ≠ [] ∧ Maskable s.toList := hchars _ (by simp)
    apply Classical.byContradiction
    intro hnone
    refine not_infix_maskRemaining ?_ ?_ (not_infix_maskTurn _ hs.1 hs.2) hshown
    · exact fun x hx => (hchars x (by simpa using .inr (.inr (List.mem_map.mp hx)))).1
    · rintro x hx hmem
      obtain ⟨u, hu, rfl⟩ := List.mem_map.mp hx
      exact hnone ⟨u, hu, hmem⟩

/-- A secret that is also the name of a marker, with one that its mask does not meet. -/
theorem redact_hides_iff_marker_name :
    ((∀ s ∈ ["AUTH", "pw"], s ≠ "") ∧ ∀ s ∈ ["AUTH", "pw"], Maskable s.toList) ∧
      ((∀ s ∈ ["AUTH", "pw"], ¬ Shows (redact "https://user:pw@host/AUTH" ["AUTH", "pw"]) s) ↔
        LastMaskHolds (textBeforeMasks "https://user:pw@host/AUTH" ["AUTH", "pw"])
          (["AUTH", "pw"].map String.toList)) :=
  have hne : ∀ s ∈ ["AUTH", "pw"], s ≠ "" := by decide
  have hmask : ∀ s ∈ ["AUTH", "pw"], Maskable s.toList := by
    intro s hs
    refine ⟨'*', by decide, ?_⟩
    revert s
    decide
  ⟨⟨hne, hmask⟩, (redact_hides_iff "https://user:pw@host/AUTH" ["AUTH", "pw"] hne hmask).1⟩

/-- The credentials of the address are hidden behind a marker that holds the second secret; its mask,
a run of asterisks, shows the first one, whose turn is over. -/
theorem redact_shows_earlier_secret :
    ((∀ s ∈ ["****", "AUTH"], s ≠ "") ∧ ∀ s ∈ ["****", "AUTH"], Maskable s.toList) ∧
      redact "https://user:pw@github.com/o/r" ["****", "AUTH"] =
        "https://[REDACTED_********]@github.com/o/r" ∧
      Shows (redact "https://user:pw@github.com/o/r" ["****", "AUTH"]) "****" := by
  have hresult : redact "https://user:pw@github.com/o/r" ["****", "AUTH"] =
      "https://[REDACTED_********]@github.com/o/r" := by decide
  refine ⟨⟨by decide, ?_⟩, hresult, ?_⟩
  · intro s hs
    refine ⟨'+', by decide, ?_⟩
    revert s
    decide
  · rw [hresult]
    exact occursIn_iff.mp (by decide)

end RepoAudit.Redaction
