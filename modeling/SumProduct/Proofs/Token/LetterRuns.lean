import SumProduct.Proofs.Token.Ends

/-!
# Runs of letters

The names among the tokens of a text are its longest runs of letters, from left to right.
-/

namespace SumProduct

open Text

namespace Text

/-- The longest runs of ASCII letters, from left to right. -/
def letterRuns (chars : List Char) : List (List Char) :=
  (chars.splitOnP fun c => !c.isAlpha).filter (!·.isEmpty)

/-- Characters that are no letters are in no run. -/
theorem letterRuns_append {front : List Char} (hfront : ∀ c ∈ front, c.isAlpha = false)
    (rest : List Char) : letterRuns (front ++ rest) = letterRuns rest := by
  induction front with
  | nil => rfl
  | cons c front ih =>
      rw [List.forall_mem_cons] at hfront
      have hsplit : (!c.isAlpha) = true := by
        rw [hfront.1]
        rfl
      rw [List.cons_append, letterRuns, List.splitOnP_cons_eq_if_modifyHead, if_pos hsplit,
        List.filter_cons_of_neg (by simp), ← letterRuns, ih hfront.2]

theorem letterRuns_eq_nil {chars : List Char} (hchars : ∀ c ∈ chars, c.isAlpha = false) :
    letterRuns chars = [] := by
  rw [← List.append_nil chars, letterRuns_append hchars]
  rfl

/-- A run of letters ends where the letters stop. -/
theorem letterRuns_run {run rest : List Char} (hne : run ≠ [])
    (hrun : ∀ c ∈ run, c.isAlpha = true) (hstops : Stops Char.isAlpha rest) :
    letterRuns (run ++ rest) = run :: letterRuns rest := by
  have hinside : ∀ c ∈ run, (!c.isAlpha) = false := by
    intro c hmem
    rw [hrun c hmem]
    rfl
  have hkept : ∀ runs : List (List Char), (run :: runs).filter (!·.isEmpty) =
      run :: runs.filter (!·.isEmpty) :=
    fun _ => List.filter_cons_of_pos (by simpa using hne)
  cases rest with
  | nil =>
      rw [List.append_nil, letterRuns, List.splitOnP_eq_singleton hinside, hkept]
      rfl
  | cons c rest =>
      have hstop : c.isAlpha = false := by simpa [Stops] using hstops
      have hsplit : (!c.isAlpha) = true := by
        rw [hstop]
        rfl
      rw [letterRuns, List.splitOnP_append_cons_of_forall_mem hinside c hsplit, hkept,
        ← letterRuns, ← List.singleton_append (l := rest), letterRuns_append (by simpa using hstop)]

example : letterRuns "2*xy + (a1b)".toList = ["xy".toList, "a".toList, "b".toList] := by decide

end Text

/-- The names among some tokens, in order. -/
def names (tokens : List Token) : List String :=
  (tokens.filter fun token => token.kind = .name).map Token.text

@[simp] theorem names_append (first second : List Token) :
    names (first ++ second) = names first ++ names second := by
  rw [names, List.filter_append, List.map_append, ← names, ← names]

theorem names_cons_of_name {token : Token} (hkind : token.kind = .name) (tokens : List Token) :
    names (token :: tokens) = token.text :: names tokens := by
  rw [names, List.filter_cons_of_pos (by simpa using hkind), List.map_cons, ← names]

theorem names_cons_of_ne_name {token : Token} (hkind : token.kind ≠ .name) (tokens : List Token) :
    names (token :: tokens) = names tokens := by
  rw [names, List.filter_cons_of_neg (by simpa using hkind), ← names]

namespace Source

/-- The names of a source without stray characters are its runs of letters. -/
theorem letterRuns_eq (source : Source) (hclean : source.stray? = none) :
    letterRuns source.rest = (names source.tokens).map String.toList := by
  induction source using tokens_induction with
  | done source hhead =>
      have hblanks := head_eq_done_iff.mp hhead
      rw [tokens_of_done hhead,
        letterRuns_eq_nil fun c hmem => isAlpha_eq_false_of_isBlank (hblanks c hmem)]
      rfl
  | stray source character index hhead =>
      rw [stray?_of_stray hhead] at hclean
      cases hclean
  | token source token rest hhead ih =>
      rw [stray?_of_token hhead] at hclean
      obtain ⟨blanks, hstarts⟩ := head_eq_token_iff.mp hhead
      have hwell := hstarts.wellFormed
      rw [hstarts.chars,
        letterRuns_append fun c hmem => isAlpha_eq_false_of_isBlank (hstarts.blank c hmem),
        tokens_of_token hhead]
      by_cases hname : token.kind = .name
      · have hends := hstarts.ends
        rw [hname] at hends
        rw [letterRuns_run hwell.toList_ne_nil (hwell.isAlpha_of_mem hname) hends, ih hclean,
          names_cons_of_name hname, List.map_cons]
      · rw [letterRuns_append fun c hmem => hwell.isAlpha_eq_false_of_mem hname hmem, ih hclean,
          names_cons_of_ne_name hname]

end Source

end SumProduct
