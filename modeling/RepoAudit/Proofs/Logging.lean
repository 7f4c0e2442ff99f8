import Mathlib.Data.List.InsertIdx
import Mathlib.Logic.Function.Iterate
import RepoAudit.Proofs.Redaction.Secrets

/-!
# Logging set up again and again

Logging is set up by every program that starts, on handlers that others may have made, and between two
times handlers and filters come and go. What one handler carries afterwards does not depend on what it
carried before, its other filters apart.

* `Handler.redactors`, `Handler.others` — the filters of a handler that redact, and the others;
  `Handler.filters_withRedactor` — a handler that has been set up has its other filters, then one that
  redacts;
* `lines_eq_iterate` — what such handlers write for one record, one after the other;
* `Root.Ready` — there is a handler, or the level is no name of another constant; `Root.configure_cases`
  — exactly then logging can be set up;
* `Change`, `run` — the changes of a root logger, and any number of them; `others_run` — the other
  filters after a run are what adding and removing alone make of them;
* `configure_run` — **after any run, setting up leaves every handler one redacting filter, with the
  secrets of that time, exactly when the logger is ready**, and a record that passes it has the redacted
  text;
* `configure_unready` — a level that is taken for another constant.
-/

namespace RepoAudit.Log

/-! ### One handler -/

namespace Handler

/-- The filters that redact. -/
def redactors (h : Handler) : List Filter := h.filters.filter (·.isRedacting)

/-- The filters of other kinds. -/
def others (h : Handler) : List Filter := h.filters.filter (!·.isRedacting)

/-- The walk over the filters as they were: those it has seen and left are `kept`, and the rest is still
on the handler. -/
theorem filters_foldl_removeFilter {kept : List Filter} (fs : List Filter)
    (hkept : ∀ f ∈ kept, f.isRedacting = false) :
    (fs.foldl (fun (h : Handler) f => if f.isRedacting then h.removeFilter f else h)
      ⟨kept ++ fs⟩).filters = kept ++ fs.filter (!·.isRedacting) := by
  induction fs generalizing kept with
  | nil => rfl
  | cons f rest ih =>
    rw [List.foldl_cons]
    cases hf : f.isRedacting with
    | true =>
      have hnot : f ∉ kept := fun hmem => by simp [hkept f hmem] at hf
      have hstep : removeFilter f ⟨kept ++ f :: rest⟩ = ⟨kept ++ rest⟩ := by
        rw [removeFilter, List.erase_append_right _ hnot, List.erase_cons_head]
      rw [if_pos rfl, hstep, ih hkept, List.filter_cons_of_neg (by simp [hf])]
    | false =>
      have hkept' : ∀ g ∈ kept ++ [f], g.isRedacting = false := by
        intro g hg
        rcases List.mem_append.mp hg with hg | hg
        · exact hkept g hg
        · rw [List.mem_singleton.mp hg, hf]
      have hwalk := ih hkept'
      rw [List.append_assoc, List.append_assoc] at hwalk
      rw [if_neg Bool.false_ne_true, List.filter_cons_of_pos (by simp [hf])]
      exact hwalk

theorem filters_dropRedactors (h : Handler) : h.dropRedactors.filters = h.others :=
  filters_foldl_removeFilter h.filters fun _ hf => absurd hf List.not_mem_nil

/-- No filter is taken for the new one, for those that redact are gone. -/
theorem filters_withRedactor (secrets : List String) (h : Handler) :
    (h.withRedactor secrets).filters = h.others ++ [.redacting (keptSecrets secrets)] := by
  have hnew : Filter.redacting (keptSecrets secrets) ∉ h.dropRedactors.filters := by
    rw [filters_dropRedactors, others]
    simp [Filter.isRedacting]
  rw [withRedactor, addFilter, if_neg hnew, filters_dropRedactors]

@[simp] theorem redactors_withRedactor (secrets : List String) (h : Handler) :
    (h.withRedactor secrets).redactors = [.redacting (keptSecrets secrets)] := by
  rw [redactors, filters_withRedactor, others, List.filter_append, List.filter_filter]
  simp [Filter.isRedacting]

@[simp] theorem others_withRedactor (secrets : List String) (h : Handler) :
    (h.withRedactor secrets).others = h.others := by
  rw [others, filters_withRedactor, others, List.filter_append, List.filter_filter]
  simp [Filter.isRedacting]

end Handler

/-! ### Records -/

theorem redact_keptSecrets (m : String) (secrets : List String) :
    Redaction.redact m (keptSecrets secrets) = Redaction.redact m secrets := by
  have hsame : ((keptSecrets secrets).map String.toList).filter (!·.isEmpty) =
      (secrets.map String.toList).filter (!·.isEmpty) := by
    rw [keptSecrets, List.filter_map, List.filter_map, List.filter_filter]
    congr 1
    refine List.filter_congr fun s _ => ?_
    simp
  rw [Redaction.redact, Redaction.redact, Redaction.redactChars, Redaction.redactChars, hsame]

section

variable {α ε : Type} {format : String → List α → Except ε String}

/-- The new filter gives a record the text that is redacted for the secrets of the call. -/
theorem message_pass_redacting {e : Entry α} {m : String} (secrets : List String)
    (h : e.message format = .ok m) :
    ∃ e', (Filter.redacting (keptSecrets secrets)).pass format e = .ok e' ∧
      e'.message format = .ok (Redaction.redact m secrets) := by
  rw [← redact_keptSecrets]
  exact Redaction.message_redacted (keptSecrets secrets) h

/-- Of the filters of a handler only those that redact touch a record. -/
theorem Handler.pass_eq_foldlM_redactors (h : Handler) (e : Entry α) :
    h.pass format e = h.redactors.foldlM (fun e f => f.pass format e) e := by
  obtain ⟨fs⟩ := h
  rw [pass, redactors]
  induction fs generalizing e with
  | nil => rfl
  | cons f rest ih =>
    cases f with
    | redacting secrets =>
      rw [List.filter_cons_of_pos rfl, List.foldlM_cons, List.foldlM_cons]
      exact congrArg _ (funext ih)
    | other name =>
      rw [List.filter_cons_of_neg (by simp [Filter.isRedacting]), List.foldlM_cons]
      exact ih e

/-- A record that passes a handler with the new filter is redacted once. -/
theorem message_pass {h : Handler} {e : Entry α} {m : String} {secrets : List String}
    (hone : h.redactors = [.redacting (keptSecrets secrets)]) (hm : e.message format = .ok m) :
    ∃ e', h.pass format e = .ok e' ∧ e'.message format = .ok (Redaction.redact m secrets) := by
  obtain ⟨e', hpass, hmessage⟩ := message_pass_redacting secrets hm
  refine ⟨e', ?_, hmessage⟩
  rw [h.pass_eq_foldlM_redactors, hone, List.foldlM_cons, hpass]
  rfl

end

/-- Handlers with the new filter write the text redacted, each as often as its place says: a record is
handed on redacted, and is redacted again. -/
theorem lines_eq_iterate (logger : String) (level : Level) {secrets : List String} {rec : Record}
    {m : String} {hs : List Handler}
    (hone : ∀ h ∈ hs, h.redactors = [.redacting (keptSecrets secrets)])
    (hm : Record.message rec = .ok m) :
    lines logger level rec hs = (List.range hs.length).map fun i =>
      line logger level ((Redaction.redact · secrets)^[i + 1] m) := by
  induction hs generalizing rec m with
  | nil => rfl
  | cons h rest ih =>
    obtain ⟨rec', hpass, hmessage⟩ := message_pass (hone h List.mem_cons_self) hm
    have hrest := ih (fun x hx => hone x (List.mem_cons_of_mem h hx)) hmessage
    have hmessage' : Record.message rec' = .ok (Redaction.redact m secrets) := hmessage
    rw [List.length_cons, List.range_succ_eq_map, List.map_cons, List.map_map, lines, hpass]
    simp only [hmessage', hrest]
    rfl

/-! ### Setting up -/

/-- A text chooses a level unless its capital form names one of the two other constants. -/
theorem Level.choose_isOk_iff (s : String) :
    (Level.choose s).isOk ↔ Text.capitals s ∉ ["BASIC_FORMAT", "_STYLES"] := by
  rw [Level.choose]
  generalize Text.capitals s = name
  by_cases hname : name ∈ Constant.named.map Prod.fst
  · revert name
    decide
  · have hnone : Constant.named.lookup name = none := by
      rw [List.lookup_eq_none_iff]
      intro p hp
      have hne : name ≠ p.1 := fun h => hname (h ▸ List.mem_map_of_mem hp)
      simpa using hne
    have hother : ∀ n ∈ ["BASIC_FORMAT", "_STYLES"], n ∈ Constant.named.map Prod.fst := by decide
    rw [hnone]
    exact ⟨fun _ h => hname (hother name h), fun _ => rfl⟩

namespace Root

/-- Logging can be set up: there is a handler, or the level is not taken for another constant. -/
def Ready (level : String) (r : Root) : Prop :=
  r.handlers = [] → Text.capitals level ∉ ["BASIC_FORMAT", "_STYLES"]

/-- The filters of other kinds, handler by handler. -/
def others (r : Root) : List (List Filter) := r.handlers.map Handler.others

/-- The handlers, or a new one when there are none. -/
def equipped (r : Root) : List Handler := if r.handlers.isEmpty then [{}] else r.handlers

/-- What setting up can do: on a logger that is ready it ends well, with a new filter on each handler;
else it ends with the one handler that it has made. -/
theorem configure_cases (level : String) (secrets : List String) (r : Root) :
    (r.Ready level ∧ ∃ l, r.configure level secrets =
        (.ok (), ⟨l, r.equipped.map (Handler.withRedactor secrets)⟩)) ∨
      (¬ r.Ready level ∧ r.handlers = [] ∧
        ∃ e, r.configure level secrets = (.error e, ⟨r.level, [{}]⟩)) := by
  obtain ⟨l, handlers⟩ := r
  cases handlers with
  | cons h rest =>
    exact .inl ⟨fun hnone => absurd hnone (List.cons_ne_nil h rest), l, rfl⟩
  | nil =>
    have hready : Ready level ⟨l, []⟩ ↔ (Level.choose level).isOk := by
      rw [Level.choose_isOk_iff, Ready]
      exact ⟨fun h => h rfl, fun h _ => h⟩
    rw [hready]
    cases hchoice : Level.choose level with
    | ok chosen => exact .inl ⟨rfl, chosen, by simp [configure, prepare, equipped, hchoice]⟩
    | error e => exact .inr ⟨Bool.false_ne_true, rfl, e, by simp [configure, prepare, hchoice]⟩

theorem isOk_configure_iff (level : String) (secrets : List String) (r : Root) :
    (r.configure level secrets).1.isOk ↔ r.Ready level := by
  rcases r.configure_cases level secrets with ⟨hready, l, hdone⟩ | ⟨hunready, -, e, hfailed⟩
  · rw [hdone]
    exact iff_of_true rfl hready
  · rw [hfailed]
    exact iff_of_false Bool.false_ne_true hunready

/-- The handler of a logger that is not ready is the one without the new filter. -/
theorem redactors_configure_iff (level : String) (secrets : List String) (r : Root) :
    (∀ h ∈ (r.configure level secrets).2.handlers,
      h.redactors = [.redacting (keptSecrets secrets)]) ↔ r.Ready level := by
  rcases r.configure_cases level secrets with ⟨hready, l, hdone⟩ | ⟨hunready, -, e, hfailed⟩
  · rw [hdone]
    exact iff_of_true (List.forall_mem_map.mpr fun h _ => h.redactors_withRedactor secrets) hready
  · rw [hfailed]
    exact iff_of_false (fun hall => List.cons_ne_nil _ _ (hall _ List.mem_cons_self).symm) hunready

theorem others_configure (level : String) (secrets : List String) (r : Root) :
    (r.configure level secrets).2.others = if r.others.isEmpty then [[]] else r.others := by
  have hequipped : r.equipped.map Handler.others = if r.others.isEmpty then [[]] else r.others := by
    rw [equipped, others, List.isEmpty_map]
    split <;> rfl
  rw [← hequipped]
  rcases r.configure_cases level secrets with ⟨-, l, hdone⟩ | ⟨-, hnone, e, hfailed⟩
  · rw [hdone, others, List.map_map]
    exact List.map_congr_left fun h _ => h.others_withRedactor secrets
  · rw [hfailed, equipped, hnone]
    rfl

end Root

/-! ### Whole runs -/

/-- A change of the root logger: a handler comes or goes, a filter of another kind is put on the `i`-th
handler or taken off it, or logging is set up. -/
inductive Change where
  | attach (h : Handler)
  | detach (i : Nat)
  | addFilter (i : Nat) (name : String)
  | removeFilter (i : Nat) (name : String)
  | configure (level : String) (secrets : List String)

/-- The logger after a change. -/
def Root.change (r : Root) : Change → Root
  | .attach h => { r with handlers := r.handlers ++ [h] }
  | .detach i => { r with handlers := r.handlers.eraseIdx i }
  | .addFilter i name => { r with handlers := r.handlers.modify i (·.addFilter (.other name)) }
  | .removeFilter i name => { r with handlers := r.handlers.modify i (·.removeFilter (.other name)) }
  | .configure level secrets => (r.configure level secrets).2

/-- The logger after a run of changes. -/
def run (changes : List Change) (r : Root) : Root := changes.foldl Root.change r

/-- What a change makes of the filters of other kinds. Setting up only adds a handler where there is
none. -/
def Change.onOthers (filters : List (List Filter)) : Change → List (List Filter)
  | .attach h => filters ++ [h.others]
  | .detach i => filters.eraseIdx i
  | .addFilter i name =>
    filters.modify i fun fs => if .other name ∈ fs then fs else fs ++ [.other name]
  | .removeFilter i name => filters.modify i (·.erase (.other name))
  | .configure _ _ => if filters.isEmpty then [[]] else filters

theorem Handler.others_addFilter (name : String) (h : Handler) :
    (h.addFilter (.other name)).others =
      if .other name ∈ h.others then h.others else h.others ++ [.other name] := by
  have hmem : Filter.other name ∈ h.others ↔ Filter.other name ∈ h.filters := by
    simp [others, Filter.isRedacting]
  simp only [hmem, addFilter]
  split
  · rfl
  · rw [others, List.filter_append]
    rfl

theorem Handler.others_removeFilter (name : String) (h : Handler) :
    (h.removeFilter (.other name)).others = h.others.erase (.other name) :=
  List.erase_filter.symm

/-- A change of one item, seen through a map. -/
theorem map_modify {α β : Type} {g : α → β} {f : α → α} {f' : β → β}
    (h : ∀ x, g (f x) = f' (g x)) (i : Nat) (xs : List α) :
    (xs.modify i f).map g = (xs.map g).modify i f' := by
  refine List.ext_getElem? fun j => ?_
  rw [List.getElem?_map, List.getElem?_modify, List.getElem?_modify, List.getElem?_map]
  cases xs[j]? with
  | none => rfl
  | some x =>
    simp only [Option.map_eq_map, Option.map_some]
    split
    · rw [h]
    · rfl

/-- One change acts on the filters of other kinds by themselves. -/
theorem Root.others_change (r : Root) (c : Change) : (r.change c).others = c.onOthers r.others := by
  cases c with
  | attach h => exact List.map_append
  | detach i => exact (List.eraseIdx_map Handler.others r.handlers i).symm
  | addFilter i name => exact map_modify (Handler.others_addFilter name) i r.handlers
  | removeFilter i name => exact map_modify (Handler.others_removeFilter name) i r.handlers
  | configure level secrets => exact r.others_configure level secrets

/-- So does a run. -/
theorem others_run (changes : List Change) (r : Root) :
    (run changes r).others = changes.foldl Change.onOthers r.others := by
  induction changes generalizing r with
  | nil => rfl
  | cons c rest ih =>
    rw [List.foldl_cons, ← r.others_change c]
    exact ih (r.change c)

/-- **Setting up logging after any run of changes.** The filters of other kinds are what the changes
made of them, and setting up keeps them. Every handler has exactly one redacting filter, with the
secrets of this call that are not empty, exactly when the logger was ready; else setting up fails, at a
handler without filters. Every record that the new filter sees, and every one that passes a handler that
has been set up, comes out with its text redacted. -/
theorem configure_run (changes : List Change) (r : Root) (level : String) (secrets : List String) :
    let before := run changes r
    let done := before.configure level secrets
    before.others = changes.foldl Change.onOthers r.others ∧
      done.2.others = (Change.configure level secrets).onOthers before.others ∧
      ((∀ h ∈ done.2.handlers, h.redactors = [.redacting (secrets.filter (· ≠ ""))]) ↔
        before.Ready level) ∧
      (done.1.isOk ↔ before.Ready level) ∧
      ∀ (α ε : Type) (format : String → List α → Except ε String) (e : Entry α) (m : String),
        e.message format = .ok m →
          (∃ e', (Filter.redacting (secrets.filter (· ≠ ""))).pass format e = .ok e' ∧
            e'.message format = .ok (Redaction.redact m secrets)) ∧
          (before.Ready level → ∀ h ∈ done.2.handlers, ∃ e', h.pass format e = .ok e' ∧
            e'.message format = .ok (Redaction.redact m secrets)) := by
  intro before done
  have hone := before.redactors_configure_iff level secrets
  refine ⟨others_run changes r, before.others_configure level secrets, hone,
    before.isOk_configure_iff level secrets, fun α ε format e m hm => ⟨?_, fun hready h hh => ?_⟩⟩
  · exact message_pass_redacting secrets hm
  · exact message_pass (hone.mpr hready h hh) hm

/-- Logging is set up a second time, on a handler with two filters of other kinds around the old
redacting one, and a record is logged whose text holds a percent sign. -/
theorem configure_run_percent :
    Entry.message formatted ⟨"%s at 100%%", [.text "tok"]⟩ = .ok "tok at 100%" ∧
      Redaction.redact "tok at 100%" ["tok", ""] = "[REDACTED] at 100%" ∧
      ∃ e', (Filter.redacting ["tok"]).pass formatted ⟨"%s at 100%%", [.text "tok"]⟩ = .ok e' ∧
        e'.message formatted = .ok (Redaction.redact "tok at 100%" ["tok", ""]) := by
  have hm : Entry.message formatted ⟨"%s at 100%%", [.text "tok"]⟩ = .ok "tok at 100%" := by decide
  have hall := configure_run [.attach ⟨[.other "console"]⟩, .configure "debug" ["old"],
    .addFilter 0 "audit"] {} "basic_format" ["tok", ""]
  obtain ⟨-, -, -, -, hrecord⟩ := hall
  exact ⟨hm, by decide, (hrecord Arg FormatError formatted _ _ hm).1⟩

/-- The name of the usual layout of lines, in any letter case, is taken for that layout, which is no
level: the new handler is left without a redacting filter. -/
theorem configure_unready :
    Root.configure "basic_format" ["tok"] {} =
        (.error (.unknown "%(levelname)s:%(name)s:%(message)s"), ⟨.warning, [{}]⟩) ∧
      ¬ ∀ h ∈ (Root.configure "basic_format" ["tok"] {}).2.handlers,
        h.redactors = [.redacting (["tok"].filter (· ≠ ""))] := by
  decide

end RepoAudit.Log
