import RepoAudit.Review.Provider

/-!
# Endpoints of a local service

The address of a local service may be written with or without the end `/v1`, and with slashes behind
it. The end is looked for before the slashes are taken away: behind an address that ends in `/v1`, a
slash hides the end, and a second one is put there.

* `EndsInVersion` — an address that ends in `/v1`;
* `endpointOf_append_slashes` — the endpoint of an address with slashes behind it;
* `endpoint_endsInVersion`, `endpoint_eq_self` — an endpoint ends in `/v1` and is its own endpoint;
* `baseUrl_append_slashes_iff` — **slashes behind an address make no difference exactly if it does not
  end in `/v1` itself**; every base address is an endpoint, and building from it changes nothing;
* `baseUrl_doubled` — an endpoint with one slash behind it.
-/

namespace RepoAudit.Provider

variable {cs : List Char} {u : String}

/-- An address that ends in the end of every chat endpoint. -/
def EndsInVersion (u : String) : Prop := version <:+ u.toList

instance (u : String) : Decidable (EndsInVersion u) :=
  inferInstanceAs (Decidable (version <:+ u.toList))

/-- Some slashes. -/
def slashes (n : Nat) : String := String.ofList (List.replicate n '/')

/-! ### Slashes at the end -/

theorem dropSlashes_append_slashes (cs : List Char) (n : Nat) :
    dropSlashes (cs ++ List.replicate n '/') = dropSlashes cs := by
  rw [dropSlashes, List.reverse_append, List.reverse_replicate, List.dropWhile_append_of_pos]
  · rfl
  · intro c hc
    rw [List.eq_of_mem_replicate hc]
    rfl

/-- The last character of the end is no slash. -/
theorem dropSlashes_of_version (h : version <:+ cs) : dropSlashes cs = cs := by
  obtain ⟨before, rfl⟩ := h
  have hversion : version = ['/', 'v', '1'] := by decide
  simp [dropSlashes, hversion]

theorem not_version_suffix_slash (cs : List Char) (n : Nat) :
    ¬ version <:+ cs ++ List.replicate (n + 1) '/' := by
  rintro ⟨before, h⟩
  have hversion : version = ['/', 'v'] ++ ['1'] := by decide
  have hlast := congrArg List.getLast? h
  rw [hversion, List.replicate_succ', ← List.append_assoc, ← List.append_assoc,
    List.getLast?_concat, List.getLast?_concat] at hlast
  exact absurd hlast (by decide)

/-- Without slashes behind it an address that ends in the end stays as it is, and any other address
gets the end in the place of its slashes. With slashes behind it every address gets it. -/
theorem endpointOf_append_slashes (cs : List Char) (n : Nat) :
    endpointOf (cs ++ List.replicate n '/') =
      if version <:+ cs ∧ n = 0 then cs else dropSlashes cs ++ version := by
  rw [endpointOf, dropSlashes_append_slashes]
  cases n with
  | zero => simp
  | succ n =>
    have hno : version.isSuffixOf (cs ++ List.replicate (n + 1) '/') = false := by
      rw [Bool.eq_false_iff, Ne, List.isSuffixOf_iff_suffix]
      exact not_version_suffix_slash cs n
    simp [hno]

/-! ### Endpoints -/

theorem endpoint_append_slashes (u : String) (n : Nat) : endpoint (u ++ slashes n) =
    if EndsInVersion u ∧ 0 < n then u ++ "/v1" else endpoint u := by
  have hplain := endpointOf_append_slashes u.toList 0
  rw [List.replicate_zero, List.append_nil] at hplain
  rw [endpoint, endpoint, String.toList_append, slashes, String.toList_ofList,
    endpointOf_append_slashes, hplain]
  simp only [EndsInVersion]
  by_cases hend : version <:+ u.toList
  · by_cases hn : n = 0
    · simp [hend, hn]
    · rw [if_neg (by simp [hn]), if_pos ⟨hend, Nat.pos_of_ne_zero hn⟩, dropSlashes_of_version hend]
      exact String.toList_injective (by simp [version])
  · simp [hend]

theorem endpoint_endsInVersion (u : String) : EndsInVersion (endpoint u) := by
  rw [EndsInVersion, endpoint, String.toList_ofList, endpointOf]
  split
  · next h => exact List.isSuffixOf_iff_suffix.mp h
  · exact List.suffix_append _ _

theorem endpoint_eq_self (h : EndsInVersion u) : endpoint u = u := by
  rw [endpoint, endpointOf, if_pos (List.isSuffixOf_iff_suffix.mpr h), String.ofList_toList]

/-! ### Providers -/

/-- A configuration that asks for a local service and says where it is gets a provider for it. -/
theorem choose_ollama {c : Choice} (hprovider : Text.lower (Text.strip c.provider) = "ollama")
    (hurl : c.ollamaUrl ≠ "") : choose c = some (ollama c.ollamaUrl c.ollamaModel) := by
  simp only [choose, hprovider]
  rw [if_neg hurl]

/-- **Slashes behind an address.** Providers built from an address with any number of slashes behind
it all have the same base address if and only if that address does not end in `/v1`; behind one that
does, slashes add a second end. In any case the base address ends in `/v1`, and a provider built from
it has it again. A configuration that asks for a local service at such an address gets this provider. -/
theorem baseUrl_append_slashes_iff (u : String) (hu : u ≠ "") (model : String) (maxTokens : Int) :
    ((∀ n, (ollama (u ++ slashes n) model maxTokens).baseUrl = (ollama u model maxTokens).baseUrl) ↔
        ¬ EndsInVersion u) ∧
      (∀ n, (ollama (u ++ slashes n) model maxTokens).baseUrl =
        some (if EndsInVersion u ∧ 0 < n then u ++ "/v1" else endpoint u)) ∧
      (∀ n, ∃ base, (ollama (u ++ slashes n) model maxTokens).baseUrl = some base ∧
        EndsInVersion base ∧ (ollama base model maxTokens).baseUrl = some base) ∧
      ∀ n (c : Choice), Text.lower (Text.strip c.provider) = "ollama" →
        choose { c with ollamaUrl := u ++ slashes n } =
          some (ollama (u ++ slashes n) c.ollamaModel) := by
  have hbase : ∀ n, (ollama (u ++ slashes n) model maxTokens).baseUrl =
      some (if EndsInVersion u ∧ 0 < n then u ++ "/v1" else endpoint u) := fun n =>
    congrArg some (endpoint_append_slashes u n)
  refine ⟨?_, hbase, fun n => ?_, fun n c hprovider => ?_⟩
  · constructor
    · intro hsame hend
      have hone := hsame 1
      rw [hbase 1, if_pos ⟨hend, Nat.one_pos⟩] at hone
      have hlength := congrArg String.length (Option.some.inj hone)
      rw [endpoint_eq_self hend, String.length_append] at hlength
      exact absurd hlength (by simp)
    · intro hend n
      rw [hbase n, if_neg fun h => hend h.1]
      rfl
  · have hend := endpoint_endsInVersion (u ++ slashes n)
    exact ⟨_, rfl, hend, congrArg some (endpoint_eq_self hend)⟩
  · exact choose_ollama hprovider (by simp [String.append_eq_empty_iff, hu])

/-- An address without the end, in all its spellings. -/
theorem baseUrl_append_slashes_iff_plain :
    "http://localhost:11434" ≠ "" ∧
      ∀ n, (ollama ("http://localhost:11434" ++ slashes n)).baseUrl =
        some "http://localhost:11434/v1" := by
  have hu : "http://localhost:11434" ≠ "" := by decide
  have hsame := (baseUrl_append_slashes_iff "http://localhost:11434" hu "llama3" 4000).1.mpr (by decide)
  exact ⟨hu, fun n => (hsame n).trans (by decide)⟩

/-- One slash behind an endpoint, and the end is there twice. -/
theorem baseUrl_doubled :
    "http://localhost:11434/v1" ≠ "" ∧
      (ollama "http://localhost:11434/v1").baseUrl = some "http://localhost:11434/v1" ∧
      (ollama ("http://localhost:11434/v1" ++ slashes 1)).baseUrl =
        some "http://localhost:11434/v1/v1" := by
  decide

end RepoAudit.Provider
