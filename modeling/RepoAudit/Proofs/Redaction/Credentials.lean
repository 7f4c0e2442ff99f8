import Mathlib.Data.List.TakeWhile
import RepoAudit.Proofs.Text.Replacement
import RepoAudit.Redaction

/-!
# Credentials in web addresses

`hideCredentials` scans a text once, from left to right, and writes a marker over each
`user:password@` that follows a scheme. One pass is enough: nothing that it writes or keeps is read as
a credential again.

* `Credential` — a user name and a password behind a scheme;
* `credentialAt?_text_append`, `exists_credential` — `credentialAt?` finds the one credential that
  begins a text;
* `Hides s t` — the rule: the credential at the head of what is left is hidden, and where none begins
  a character is kept;
* `hides_iff` — the scan is the only way to follow the rule;
* `Hides.no_credential` — what it leaves holds no credential, the seams between kept and written
  characters included;
* `redact_hides_credentials` — **all of it for texts redacted without secrets, with idempotence**.
-/

namespace RepoAudit.Redaction

open Text

/-! ### Credentials -/

/-- A user name and a password in a web address, behind its scheme and before its host. -/
structure Credential where
  scheme : List Char
  user : List Char
  password : List Char
  scheme_mem : scheme ∈ schemes
  user_ne_nil : user ≠ []
  isUserChar_of_mem : ∀ c ∈ user, isUserChar c = true
  password_ne_nil : password ≠ []
  isPasswordChar_of_mem : ∀ c ∈ password, isPasswordChar c = true

namespace Credential

/-- The user name and the password, as they stand in the address. -/
def userInfo (m : Credential) : List Char := m.user ++ ':' :: m.password

/-- The part of the address from the scheme to the host. -/
def text (m : Credential) : List Char := m.scheme ++ (m.userInfo ++ ['@'])

/-- What is shown instead. -/
def hidden (m : Credential) : List Char := m.scheme ++ (credentialMark ++ ['@'])

theorem length_text (m : Credential) :
    m.text.length = m.scheme.length + (m.user.length + 1 + m.password.length + 1) := by
  simp only [text, userInfo, List.length_append, List.length_cons, List.length_nil]
  omega

theorem slash_not_mem_userInfo (m : Credential) : '/' ∉ m.userInfo := by
  have huser : '/' ∉ m.user := fun h => absurd (m.isUserChar_of_mem _ h) (by decide)
  have hpassword : '/' ∉ m.password := fun h => absurd (m.isPasswordChar_of_mem _ h) (by decide)
  simp [userInfo, huser, hpassword]

end Credential

/-! ### Finding a credential -/

/-- A scheme begins with an `h`, holds no other, and has slashes but no `@`. -/
theorem scheme_eq_cons {s : List Char} (h : s ∈ schemes) :
    ∃ q, s = 'h' :: q ∧ 'h' ∉ q ∧ '/' ∈ q ∧ '@' ∉ s := by
  simp only [schemes, List.mem_cons, List.not_mem_nil, or_false] at h
  rcases h with rfl | rfl
  · exact ⟨"ttps://".toList, by decide⟩
  · exact ⟨"ttp://".toList, by decide⟩

theorem Credential.text_eq_cons (m : Credential) :
    ∃ q, m.text = 'h' :: (q ++ (m.userInfo ++ ['@'])) ∧ 'h' ∉ q := by
  obtain ⟨q, hscheme, hq, -⟩ := scheme_eq_cons m.scheme_mem
  exact ⟨q, by rw [text, hscheme]; rfl, hq⟩

theorem Credential.hidden_eq_cons (m : Credential) : ∃ q, m.hidden = 'h' :: q ∧ 'h' ∉ q := by
  obtain ⟨q, hscheme, hq, -⟩ := scheme_eq_cons m.scheme_mem
  have hmark : 'h' ∉ credentialMark ++ ['@'] := by decide
  refine ⟨q ++ (credentialMark ++ ['@']), by rw [hidden, hscheme]; rfl, ?_⟩
  rw [List.mem_append, not_or]
  exact ⟨hq, hmark⟩

theorem schemeAt?_append {s : List Char} (h : s ∈ schemes) (r : List Char) :
    schemeAt? (s ++ r) = some s := by
  simp only [schemes, List.mem_cons, List.not_mem_nil, or_false] at h
  rcases h with rfl | rfl <;> rfl

theorem schemeAt?_eq_some {cs s : List Char} (h : schemeAt? cs = some s) :
    s ∈ schemes ∧ ∃ r, cs = s ++ r := by
  unfold schemeAt? at h
  have hpre : s.isPrefixOf cs = true := by
    simpa using List.find?_some h
  obtain ⟨r, hr⟩ := List.isPrefixOf_iff_prefix.mp hpre
  exact ⟨List.mem_of_find?_eq_some h, r, hr.symm⟩

/-- The user name ends at the first colon and the password at the first `@` after it. -/
theorem userInfoLength?_append (m : Credential) (r : List Char) :
    userInfoLength? (m.userInfo ++ '@' :: r) =
      some (m.user.length + 1 + m.password.length + 1) := by
  have huser : (m.user ++ ':' :: (m.password ++ '@' :: r)).takeWhile isUserChar = m.user := by
    rw [List.takeWhile_append_of_pos m.isUserChar_of_mem,
      List.takeWhile_cons_of_neg (by decide), List.append_nil]
  have hpassword : (m.password ++ '@' :: r).takeWhile isPasswordChar = m.password := by
    rw [List.takeWhile_append_of_pos m.isPasswordChar_of_mem,
      List.takeWhile_cons_of_neg (by decide), List.append_nil]
  simp [userInfoLength?, Credential.userInfo, huser, hpassword, m.user_ne_nil, m.password_ne_nil]

theorem credentialAt?_text_append (m : Credential) (r : List Char) :
    credentialAt? (m.text ++ r) =
      some (m.scheme, m.user.length + 1 + m.password.length + 1) := by
  have htext : m.text ++ r = m.scheme ++ (m.userInfo ++ '@' :: r) := by simp [Credential.text]
  simp only [htext, credentialAt?, schemeAt?_append m.scheme_mem, List.drop_left,
    userInfoLength?_append, Option.map_some]

/-- What `userInfoLength?` measures is the rest of a credential with any scheme. -/
theorem exists_userInfo {s cs : List Char} {n : Nat} (hs : s ∈ schemes)
    (h : userInfoLength? cs = some n) :
    ∃ (m : Credential) (r : List Char), m.scheme = s ∧ cs = m.userInfo ++ '@' :: r ∧
      n = m.user.length + 1 + m.password.length + 1 := by
  have hcs := List.prefix_iff_eq_append.mp (List.takeWhile_prefix (l := cs) isUserChar)
  simp only [userInfoLength?] at h
  split at h
  · next r hcolon =>
    have hr := List.prefix_iff_eq_append.mp (List.takeWhile_prefix (l := r) isPasswordChar)
    split at h
    · cases h
    · next hne =>
      split at h
      · next hat =>
        obtain ⟨rest, hrest⟩ := List.head?_eq_some_iff.mp hat
        rw [Bool.or_eq_true, List.isEmpty_iff, List.isEmpty_iff, not_or] at hne
        refine ⟨⟨s, cs.takeWhile isUserChar, r.takeWhile isPasswordChar, hs, hne.1,
          fun c hc => List.mem_takeWhile_imp hc, hne.2, fun c hc => List.mem_takeWhile_imp hc⟩,
          rest, rfl, ?_, (Option.some.inj h).symm⟩
        rw [hrest] at hr
        rw [hcolon, ← hr] at hcs
        simpa [Credential.userInfo] using hcs.symm
      · cases h
  · cases h

/-- What `credentialAt?` finds is a credential. -/
theorem exists_credential {cs s : List Char} {n : Nat} (h : credentialAt? cs = some (s, n)) :
    ∃ (m : Credential) (r : List Char), m.scheme = s ∧ cs = m.text ++ r ∧
      n = m.user.length + 1 + m.password.length + 1 := by
  unfold credentialAt? at h
  split at h
  · cases h
  · next s' hscheme =>
    obtain ⟨hmem, r, rfl⟩ := schemeAt?_eq_some hscheme
    rw [List.drop_left, Option.map_eq_some_iff] at h
    obtain ⟨n', hlen, hpair⟩ := h
    obtain ⟨rfl, rfl⟩ := Prod.mk.inj hpair
    obtain ⟨m, rest, rfl, rfl, hn⟩ := exists_userInfo hmem hlen
    exact ⟨m, rest, rfl, by simp [Credential.text], hn⟩

/-- Where no credential begins, none is found. -/
theorem credentialAt?_eq_none {cs : List Char} (h : ∀ m : Credential, ¬ m.text <+: cs) :
    credentialAt? cs = none := by
  cases hat : credentialAt? cs with
  | none => rfl
  | some found =>
    obtain ⟨m, r, -, rfl, -⟩ := exists_credential hat
    exact absurd (List.prefix_append _ _) (h m)

/-- No credential begins at a scheme that is followed by the marker. -/
theorem not_text_prefix_hidden (m m' : Credential) (r : List Char) :
    ¬ m'.text <+: m.hidden ++ r := by
  rintro ⟨rest, hrest⟩
  have hfound := credentialAt?_text_append m' rest
  have hnone : credentialAt? (m.scheme ++ (credentialMark ++ '@' :: r)) = none := by
    simp only [credentialAt?, schemeAt?_append m.scheme_mem, List.drop_left]
    rfl
  rw [hrest, Credential.hidden, List.append_assoc, List.append_assoc, List.singleton_append,
    hnone] at hfound
  cases hfound

/-! ### The rule of hiding -/

/-- `t` is `s` with its credentials hidden from left to right: a credential at the head is hidden as a
whole, and a character is kept only where none begins. -/
inductive Hides : List Char → List Char → Prop
  | nil : Hides [] []
  | keep {c : Char} {r t : List Char} :
      (∀ m : Credential, ¬ m.text <+: c :: r) → Hides r t → Hides (c :: r) (c :: t)
  | hide {r t : List Char} (m : Credential) : Hides r t → Hides (m.text ++ r) (m.hidden ++ t)

/-- The scan passes over the `skip` characters it still owes and goes on afresh. -/
theorem credentialScan_eq (s : List Char) (skip : Nat) (done : List Char) :
    credentialScan skip done s = done.reverse ++ hideCredentials (s.drop skip) := by
  induction s generalizing skip done with
  | nil => simp [credentialScan, hideCredentials]
  | cons c r ih =>
    cases skip with
    | succ k => rw [credentialScan, ih, List.drop_succ_cons]
    | zero =>
      rw [List.drop_zero, hideCredentials]
      simp only [credentialScan]
      split <;> simp [ih]

theorem hideCredentials_cons {c : Char} {r : List Char}
    (h : ∀ m : Credential, ¬ m.text <+: c :: r) :
    hideCredentials (c :: r) = c :: hideCredentials r := by
  rw [hideCredentials, credentialScan, credentialAt?_eq_none h, credentialScan_eq]
  rfl

theorem hideCredentials_text_append (m : Credential) (r : List Char) :
    hideCredentials (m.text ++ r) = m.hidden ++ hideCredentials r := by
  have hat := credentialAt?_text_append m r
  have hlen := m.length_text
  obtain ⟨q, htext, -⟩ := m.text_eq_cons
  generalize q ++ (m.userInfo ++ ['@']) = q at htext
  rw [htext, List.length_cons] at hlen
  rw [htext, List.cons_append] at hat ⊢
  have hdrop : (q ++ r).drop (m.scheme.length + (m.user.length + 1 + m.password.length + 1) - 1) =
      r := by
    rw [← hlen, Nat.add_sub_cancel, List.drop_left]
  rw [hideCredentials, credentialScan, hat]
  simp only [credentialScan_eq, hdrop]
  simp [Credential.hidden]

/-- **The scan is the one way to follow the rule.** -/
theorem hides_iff {s t : List Char} : Hides s t ↔ t = hideCredentials s := by
  constructor
  · intro h
    induction h with
    | nil => rfl
    | keep hnone _ ih => rw [hideCredentials_cons hnone, ih]
    | hide m _ ih => rw [hideCredentials_text_append, ih]
  · rintro rfl
    -- on the length: behind a credential the rule goes on at its end
    induction hn : s.length using Nat.strongRecOn generalizing s with
    | ind n ih =>
      subst hn
      by_cases hm : ∃ m : Credential, m.text <+: s
      · obtain ⟨m, r, rfl⟩ := hm
        rw [hideCredentials_text_append]
        have hshorter : r.length < (m.text ++ r).length := by
          rw [List.length_append, m.length_text]
          omega
        exact .hide m (ih r.length hshorter rfl)
      · cases s with
        | nil => exact .nil
        | cons c r =>
          have hnone : ∀ m : Credential, ¬ m.text <+: c :: r := fun m h => hm ⟨m, h⟩
          rw [hideCredentials_cons hnone]
          exact .keep hnone (ih r.length (by simp) rfl)

/-! ### What is left -/

namespace Hides

variable {s t q : List Char}

/-- A text without credentials stays as it is. -/
theorem eq_of_no_credential (h : Hides s t) (hs : ∀ m : Credential, ¬ m.text <:+: s) : t = s := by
  induction h with
  | nil => rfl
  | keep _ _ ih => rw [ih fun m hr => hs m (List.infix_cons hr)]
  | hide m _ => exact absurd List.infix_append_left (hs m)

/-- What is up to an `@` and has no slash stood there before: a marker comes after a scheme, with
slashes before its `@`. -/
theorem at_before (h : Hides s t) (hq : '/' ∉ q) (hpre : q ++ ['@'] <+: t) :
    q ++ ['@'] <+: s := by
  induction h generalizing q with
  | nil => exact hpre
  | keep _ _ ih =>
    cases q with
    | nil => exact List.cons_prefix_cons.mpr ⟨(List.cons_prefix_cons.mp hpre).1, List.nil_prefix⟩
    | cons d q =>
      rw [List.cons_append, List.cons_prefix_cons] at hpre ⊢
      exact ⟨hpre.1, ih (fun h => hq (List.mem_cons_of_mem d h)) hpre.2⟩
  | @hide r t m _ _ =>
    obtain ⟨x, hscheme, -, hslash, hat⟩ := scheme_eq_cons m.scheme_mem
    have hmarker : m.scheme <+: m.hidden ++ t := by simp [Credential.hidden]
    rcases List.prefix_or_prefix_of_prefix hpre hmarker with hshort | hlong
    · exact absurd (hshort.subset (by simp)) hat
    · have hmem : '/' ∈ q ++ ['@'] := hlong.subset (hscheme ▸ List.mem_cons_of_mem _ hslash)
      simp [hq] at hmem

/-- With characters other than `h` in front it stood there before as well: a scheme begins with `h`. -/
theorem behind_before {p : List Char} (h : Hides s t) (hp : 'h' ∉ p) (hq : '/' ∉ q)
    (hpre : p ++ (q ++ ['@']) <+: t) : p ++ (q ++ ['@']) <+: s := by
  induction p generalizing s t with
  | nil => exact h.at_before hq hpre
  | cons d p ih =>
    rw [List.mem_cons, not_or] at hp
    cases h with
    | nil => exact hpre
    | keep _ hr =>
      rw [List.cons_append, List.cons_prefix_cons] at hpre ⊢
      exact ⟨hpre.1, ih hr hp.2 hpre.2⟩
    | hide m _ =>
      obtain ⟨x, hhidden, -⟩ := m.hidden_eq_cons
      rw [hhidden] at hpre
      exact absurd (List.cons_prefix_cons.mp hpre).1.symm hp.1

/-- **No credential is left or made.** One that begins at a kept character would have begun there
before; one that begins at a hidden credential would have to run past the `@` of the marker. -/
theorem no_credential (h : Hides s t) (m : Credential) : ¬ m.text <:+: t := by
  obtain ⟨q, htext, hq⟩ := m.text_eq_cons
  induction h with
  | nil => simp [htext]
  | @keep c r t hnone hr ih =>
    intro hi
    rcases List.infix_cons_iff.mp hi with hpre | hi
    · refine hnone m ?_
      rw [htext, List.cons_prefix_cons] at hpre ⊢
      exact ⟨hpre.1, hr.behind_before hq m.slash_not_mem_userInfo hpre.2⟩
    · exact ih hi
  | @hide r t m' _ ih =>
    intro hi
    obtain ⟨x, hhidden, hx⟩ := m'.hidden_eq_cons
    rw [hhidden, List.cons_append, List.infix_cons_iff, ← List.cons_append, ← hhidden] at hi
    rcases hi with hpre | hi
    · exact not_text_prefix_hidden m' m t hpre
    · rw [htext] at hi ih
      exact ih (infix_of_cons_infix_append hx hi)

end Hides

/-! ### Texts -/

theorem toList_redact_nil (text : String) :
    (redact text []).toList = hideCredentials text.toList := by
  rw [redact, String.toList_ofList, redactChars]
  split
  · next hempty => rw [List.isEmpty_iff.mp hempty]; rfl
  · rfl

/-- **Redacting without secrets.** The result holds no credential, and it is the text with its
credentials hidden from left to right, everything else kept. A text without credentials is returned as
it is, and so is a result. -/
theorem redact_hides_credentials (text : String) :
    (∀ m : Credential, ¬ m.text <:+: (redact text []).toList) ∧
      (∀ t, Hides text.toList t ↔ t = (redact text []).toList) ∧
      ((∀ m : Credential, ¬ m.text <:+: text.toList) → redact text [] = text) ∧
      redact (redact text []) [] = redact text [] := by
  have hrule : ∀ u : String, Hides u.toList (redact u []).toList := fun u =>
    hides_iff.mpr (toList_redact_nil u)
  have hnone := (hrule text).no_credential
  have hsame : ∀ u : String, (∀ m : Credential, ¬ m.text <:+: u.toList) → redact u [] = u :=
    fun u hu => String.toList_inj.mp ((hrule u).eq_of_no_credential hu)
  refine ⟨hnone, fun t => ?_, hsame text, hsame _ hnone⟩
  rw [toList_redact_nil]
  exact hides_iff

example : redact "https://http://u:p:q@c:d@h" [] = "https://http://[REDACTED_AUTH]@c:d@h" := by
  decide

end RepoAudit.Redaction
