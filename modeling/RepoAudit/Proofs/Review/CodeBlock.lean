import Mathlib.Data.List.Basic
import RepoAudit.Proofs.Text.Trimming
import RepoAudit.Review.Advice

/-!
# Answers in a code block

Models like to put their answer into a code block: a line that begins with a fence, the answer, and
a line with the closing fence. Only the outermost pair of fences is taken away, so that the answer
may hold fences of its own, at its end as well.

* `codeBlock` — an answer in a code block, with a tag behind the opening fence;
* `afterFirstLine_of_newline`, `dropClosing_append_fence` — the first line and the last fence go;
* `unfenced_of_bare`, `unfenced_codeBlock` — an answer by itself, and one in a code block;
* `code_block_immaterial` — **an answer comes back exactly from between blanks and from a code block
  between blanks, and the advice in it is the same**.
-/

namespace RepoAudit.Advice

variable {before after line rest tag body : List Char}

/-- An answer in a code block. -/
def codeBlock (tag body : List Char) : List Char := fence ++ tag ++ '\n' :: body ++ '\n' :: fence

theorem cutFirst?_newline (hline : '\n' ∉ line) :
    Text.cutFirst? ['\n'] (line ++ '\n' :: rest) = some (line, rest) := by
  induction line with
  | nil => rfl
  | cons c line ih =>
    rw [List.mem_cons, not_or] at hline
    have hhead : List.isPrefixOf ['\n'] (c :: (line ++ '\n' :: rest)) = false := by
      simpa [List.isPrefixOf] using hline.1
    rw [List.cons_append, Text.cutFirst?, hhead, ih hline.2]
    rfl

theorem afterFirstLine_of_newline (hline : '\n' ∉ line) :
    afterFirstLine (line ++ '\n' :: rest) = rest := by
  rw [afterFirstLine, cutFirst?_newline hline]

/-- Of several fences at the end only the last one goes. -/
theorem dropClosing_append_fence (cs : List Char) : dropClosing (cs ++ fence) = cs := by
  have hends : fence.isSuffixOf (cs ++ fence) = true :=
    List.isSuffixOf_iff_suffix.mpr (List.suffix_append cs fence)
  rw [dropClosing, if_pos hends, List.length_append, Nat.add_sub_cancel, List.take_left]

theorem isBlank_of_mem_fence {c : Char} (h : c ∈ fence) : Text.isBlank c = false := by
  have hall : fence.all (fun c => !Text.isBlank c) = true := by decide
  simpa using List.all_eq_true.mp hall c h

/-- A text that ends in a fence does not end in a blank. -/
theorem last_append_fence (cs : List Char) :
    ∀ c ∈ (cs ++ fence).getLast?, Text.isBlank c = false := by
  intro c hc
  rw [List.getLast?_append_of_ne_nil _ (by decide)] at hc
  exact isBlank_of_mem_fence (List.mem_of_getLast? hc)

theorem codeBlock_eq (tag body : List Char) :
    codeBlock tag body = (fence ++ tag) ++ '\n' :: ((body ++ ['\n']) ++ fence) := by
  simp [codeBlock]

theorem isBare_codeBlock (tag body : List Char) : Text.IsBare (codeBlock tag body) := by
  constructor
  · intro c hc
    obtain rfl : '\x60' = c := Option.some.inj hc
    decide
  · have hend : codeBlock tag body = (fence ++ tag ++ '\n' :: body ++ ['\n']) ++ fence := by
      simp [codeBlock]
    rw [hend]
    exact last_append_fence _

/-- An answer by itself loses the blanks around it. -/
theorem unfenced_of_bare (hbefore : ∀ c ∈ before, Text.isBlank c = true)
    (hafter : ∀ c ∈ after, Text.isBlank c = true) (hbody : Text.IsBare body)
    (hopen : ¬ fence <+: body) : unfenced (before ++ body ++ after) = body := by
  rw [unfenced, Text.trim_append_append hbefore hafter hbody, if_neg]
  rwa [List.isPrefixOf_iff_prefix]

/-- An answer in a code block loses the blanks around the block, the first line, the closing fence and
the line feed before it. -/
theorem unfenced_codeBlock (hbefore : ∀ c ∈ before, Text.isBlank c = true)
    (hafter : ∀ c ∈ after, Text.isBlank c = true) (hbody : Text.IsBare body)
    (htag : '\n' ∉ tag) : unfenced (before ++ codeBlock tag body ++ after) = body := by
  have hopens : fence.isPrefixOf (codeBlock tag body) = true := by
    rw [List.isPrefixOf_iff_prefix, codeBlock_eq, List.append_assoc]
    exact List.prefix_append fence _
  have hline : '\n' ∉ fence ++ tag := by
    rw [List.mem_append, not_or]
    exact ⟨by decide, htag⟩
  have hrest : afterFirstLine (codeBlock tag body) = (body ++ ['\n']) ++ fence := by
    rw [codeBlock_eq, afterFirstLine_of_newline hline]
  have hnothing : ∀ c ∈ ([] : List Char), Text.isBlank c = true := by simp
  have hfeed : ∀ c ∈ ['\n'], Text.isBlank c = true := List.forall_mem_singleton.mpr (by decide)
  rw [unfenced, Text.trim_append_append hbefore hafter (isBare_codeBlock tag body), if_pos hopens, hrest,
    Text.trimEnd_eq_self (last_append_fence _), dropClosing_append_fence]
  exact Text.trim_append_append hnothing hfeed hbody

/-- **A code block around an answer does not matter.** Let an answer neither begin nor end with a blank
and not begin with a fence; otherwise it may hold any fences. It comes back exactly from between any
blanks, and from a code block with any tag between any blanks, and the same advice is read from the
two. -/
theorem code_block_immaterial {before after tag body : String}
    (hbefore : ∀ c ∈ before.toList, Text.isBlank c = true)
    (hafter : ∀ c ∈ after.toList, Text.isBlank c = true) (hbody : Text.IsBare body.toList)
    (hopen : ¬ fence <+: body.toList) (htag : '\n' ∉ tag.toList) :
    unfence (before ++ body ++ after) = body ∧
      unfence (before ++ String.ofList (codeBlock tag.toList body.toList) ++ after) = body ∧
      parse? (before ++ String.ofList (codeBlock tag.toList body.toList) ++ after) =
        parse? (before ++ body ++ after) := by
  have hplain : unfenced (before ++ body ++ after).toList = body.toList := by
    rw [String.toList_append, String.toList_append]
    exact unfenced_of_bare hbefore hafter hbody hopen
  have hblock : unfenced (before ++ String.ofList (codeBlock tag.toList body.toList) ++
      after).toList = body.toList := by
    rw [String.toList_append, String.toList_append, String.toList_ofList]
    exact unfenced_codeBlock hbefore hafter hbody htag
  refine ⟨?_, ?_, ?_⟩
  · rw [unfence, hplain, String.ofList_toList]
  · rw [unfence, hblock, String.ofList_toList]
  · rw [parse?, parse?, hblock, hplain]

/-- An answer with two fences in it, one of them at its end, in a block whose tag holds one as well. -/
theorem code_block_immaterial_inner_fences :
    let before := "\u2003\n"
    let after := "\n\n "
    let tag := "json \x60\x60\x60"
    let body := "Use \x60\x60\x60\n\nrun()\n\x60\x60\x60"
    ((∀ c ∈ before.toList, Text.isBlank c = true) ∧ (∀ c ∈ after.toList, Text.isBlank c = true) ∧
      Text.IsBare body.toList ∧ ¬ fence <+: body.toList ∧ '\n' ∉ tag.toList) ∧
      unfence (before ++ body ++ after) = body ∧
      unfence (before ++ String.ofList (codeBlock tag.toList body.toList) ++ after) = body := by
  intro before after tag body
  have hbefore : ∀ c ∈ before.toList, Text.isBlank c = true := List.all_eq_true.mp (by decide)
  have hafter : ∀ c ∈ after.toList, Text.isBlank c = true := List.all_eq_true.mp (by decide)
  have hbody : Text.IsBare body.toList := by decide
  have hopen : ¬ fence <+: body.toList := by decide
  have htag : '\n' ∉ tag.toList := by decide
  obtain ⟨hplain, hblock, -⟩ := code_block_immaterial hbefore hafter hbody hopen htag
  exact ⟨⟨hbefore, hafter, hbody, hopen, htag⟩, hplain, hblock⟩

end RepoAudit.Advice
