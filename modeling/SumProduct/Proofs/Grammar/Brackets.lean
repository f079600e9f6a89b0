import SumProduct.Proofs.Grammar.InOrder

/-!
# Brackets and subtrees

What stands between two matching brackets of a text is one whole subtree of the tree that is
read, in its place. So nothing in a text is lost, repeated, moved or regrouped.
-/

namespace SumProduct

/-- Tokens that close every bracket they open, and no other. -/
structure Balanced (tokens : List Token) : Prop where
  closed : openBrackets tokens = 0
  fronts : ∀ front, front <+: tokens → 0 ≤ openBrackets front

/-- An open bracket of some tokens and the one that closes it. -/
structure MatchingBrackets (tokens before : List Token) (opening : Token) (inner : List Token)
    (closing : Token) (after : List Token) : Prop where
  tokens : tokens = before ++ opening :: (inner ++ closing :: after)
  opening : opening.kind = .openBracket
  closing : closing.kind = .closeBracket
  balanced : Balanced inner

/-- Balanced tokens do not close a bracket that they have not opened. -/
theorem Balanced.not_prefix {tokens inner : List Token} {closing : Token}
    (hbalanced : Balanced tokens) (hinner : Balanced inner)
    (hclosing : closing.kind = .closeBracket) (rest : List Token) :
    tokens ≠ inner ++ closing :: rest := by
  rintro rfl
  have hfront := hbalanced.fronts (inner ++ [closing]) ⟨rest, by simp⟩
  have hclose : openBrackets [closing] = -1 := openBrackets_singleton hclosing
  have hzero := hinner.closed
  rw [openBrackets_append] at hfront
  omega

/-- A bracket is closed at one place only. -/
theorem Balanced.unique {inner other after after' : List Token} {closing closing' : Token}
    (hinner : Balanced inner) (hother : Balanced other) (hclosing : closing.kind = .closeBracket)
    (hclosing' : closing'.kind = .closeBracket)
    (heq : inner ++ closing :: after = other ++ closing' :: after') :
    inner = other ∧ closing = closing' ∧ after = after' := by
  rcases append_eq_append_cons heq with ⟨inside, hlong, _⟩ | ⟨inside, hlong, hrest⟩
  · exact absurd hlong (hinner.not_prefix hother hclosing' inside)
  · cases inside with
    | nil =>
        rw [List.nil_append, List.cons.injEq] at hrest
        exact ⟨by simpa using hlong.symm, hrest⟩
    | cons next inside =>
        rw [List.cons_append, List.cons.injEq] at hrest
        obtain ⟨rfl, _⟩ := hrest
        exact absurd hlong (hother.not_prefix hinner hclosing inside)

/-- The tokens of an expression are balanced. -/
theorem Spells.balanced {tokens : List Token} {e : Expression}
    (hspells : Spells .expression tokens e) : Balanced tokens := by
  refine ⟨hspells.openBrackets_eq_zero, ?_⟩
  rintro front ⟨rest, rfl⟩
  have hwithin := bracketsWithin_of_length_le (le_max_left (front ++ rest).length e.depth)
  obtain ⟨sum, term, _, _, hpath⟩ :=
    hspells.reaches (le_max_right (front ++ rest).length e.depth) [] hwithin
  -- The open brackets of a front are the levels around the state that it leads to.
  obtain ⟨middle, hfront, _⟩ := hpath.exists_of_append
  have hlength := hfront.outer_length
  rw [List.length_nil] at hlength
  omega

/-- Some brackets of a tree: what they hold is a subtree that stands in its place. -/
structure Expression.Brackets (e : Expression) (before inner after : List Token)
    (f : Expression) (symbols others : List Symbol) : Prop where
  occurs : f.Occurs e symbols others
  before : Reads before symbols
  inner : Spells .expression inner f
  after : Reads after others

/-- Every open bracket of a tree is closed behind a subtree. -/
theorem Spells.exists_brackets {rule : Rule} {tokens before rest : List Token} {e : Expression}
    {opening : Token} (hspells : Spells rule tokens e)
    (htokens : tokens = before ++ opening :: rest) (hopening : opening.kind = .openBracket) :
    ∃ inner closing after f symbols others, rest = inner ++ closing :: after ∧
      closing.kind = .closeBracket ∧ e.Brackets before inner after f symbols others := by
  have hmem : opening ∈ tokens := by simp [htokens]
  induction hspells generalizing before rest with
  | numeral hkind _ | name hkind _ =>
      rw [List.mem_singleton.mp hmem, hkind] at hopening
      cases hopening
  | negated hsign hkind _ =>
      rcases List.mem_pair.mp hmem with rfl | rfl
      · rw [hsign] at hopening
        cases hopening
      · rw [hkind] at hopening
        cases hopening
  | @bracketed first last inner e hfirst hlast hinner ih =>
      cases before with
      | nil =>
          rw [List.nil_append, List.cons_append, List.cons.injEq] at htokens
          obtain ⟨rfl, rfl⟩ := htokens
          exact ⟨inner, last, [], e, [], [], rfl, hlast, .whole, .nil, hinner, .nil⟩
      | cons head before =>
          rw [List.cons_append, List.cons_append, List.cons.injEq] at htokens
          obtain ⟨rfl, htokens⟩ := htokens
          rcases append_eq_append_cons htokens with ⟨inside, hinside, rfl⟩ | ⟨inside, _, hclose⟩
          · obtain ⟨inner', closing, after, f, symbols, others, rfl, hclosing, hbrackets⟩ :=
              ih hinside (by simp [hinside])
            have hbefore := (Reads.bracket (Or.inl hfirst)).append hbrackets.before
            have hafter := hbrackets.after.append (.bracket (Or.inr hlast))
            rw [List.append_nil] at hafter
            exact ⟨inner', closing, after ++ [last], f, symbols, others, by simp, hclosing,
              hbrackets.occurs, hbefore, hbrackets.inner, hafter⟩
          · -- The last bracket closes, so it is not the one that opens.
            have hsame : opening ∈ [last] := by simp [hclose]
            rw [List.mem_singleton.mp hsame, hlast] at hopening
            cases hopening
  | operand _ ih => exact ih htokens hmem
  | @operation op left right sign e f hleft hsign hright ihLeft ihRight =>
      have hreads : Reads [sign] [.op op] := .single (.op hsign)
      rcases append_eq_append_cons htokens with ⟨inside, hinside, rfl⟩ | ⟨inside, rfl, hinside⟩
      · obtain ⟨inner, closing, after, g, symbols, others, rfl, hclosing, hbrackets⟩ :=
          ihLeft hinside (by simp [hinside])
        exact ⟨inner, closing, after ++ sign :: right, g, symbols, _, by simp, hclosing,
          .left hbrackets.occurs, hbrackets.before, hbrackets.inner,
          hbrackets.after.append (hreads.append hright.reads)⟩
      · cases inside with
        | nil =>
            rw [List.nil_append, List.cons.injEq] at hinside
            rw [← hinside.1, hsign] at hopening
            cases op <;> cases hopening
        | cons head inside =>
            rw [List.cons_append, List.cons.injEq] at hinside
            obtain ⟨rfl, hinside⟩ := hinside
            obtain ⟨inner, closing, after, g, symbols, others, hrest, hclosing, hbrackets⟩ :=
              ihRight hinside (by simp [hinside])
            exact ⟨inner, closing, after, g, _, others, hrest, hclosing, .right hbrackets.occurs,
              hleft.reads.append (hreads.append hbrackets.before), hbrackets.inner,
              hbrackets.after⟩

/-! ## Texts that are read -/

/-- A tree keeps the order and the grouping of a text. -/
structure Expression.KeepsOrder (text : String) (e : Expression) : Prop where
  clean : (Source.ofString text).stray? = none
  inOrder : List.Forall₂ SignedToken.Denotes (signedTokens (Source.ofString text).tokens) e.inOrder
  literals : List.Forall₂ (fun (numeral : SignedToken) literal =>
      numeral.token.Denotes numeral.negative literal)
    ((signedTokens (Source.ofString text).tokens).filter fun next => next.token.kind = .numeral)
    (e.inOrder.filterMap Symbol.asLiteral?)
  names : e.vars.map Variable.name = (Text.letterRuns text.toList).map String.ofList
  operations : e.inOrder.filterMap Symbol.asOperation? =
    (Source.ofString text).tokens.filterMap Token.operation?
  subtrees : ∀ before opening inner closing after,
    MatchingBrackets (Source.ofString text).tokens before opening inner closing after →
      ∃ (f : Expression) (symbols others : List Symbol), f.Occurs e symbols others ∧
        List.Forall₂ SignedToken.Denotes (signedTokens before) symbols ∧
        List.Forall₂ SignedToken.Denotes (signedTokens inner) f.inOrder ∧
        List.Forall₂ SignedToken.Denotes (signedTokens after) others

/-- A tree that is read keeps the order and the grouping of its text. -/
theorem Expression.keepsOrder_of_parse {text : String} {e : Expression}
    (hparse : parse text = .ok e) : e.KeepsOrder text := by
  obtain ⟨hclean, hspells, _, _⟩ := spells_of_parse hparse
  have hsigned := hspells.reads.signed
  refine ⟨hclean, hsigned, SignedToken.literals hsigned, ?_, hspells.operations, ?_⟩
  · have hruns := (Source.ofString text).letterRuns_eq hclean
    rw [vars_eq, hspells.names, show text.toList = (Source.ofString text).rest from rfl, hruns,
      List.map_map]
    simp
  · rintro before opening inner closing after ⟨htokens, hopening, hclosing, hbalanced⟩
    obtain ⟨inner', closing', after', f, symbols, others, hrest, hclosing', hbrackets⟩ :=
      hspells.exists_brackets htokens hopening
    obtain ⟨rfl, rfl, rfl⟩ :=
      hbalanced.unique hbrackets.inner.balanced hclosing hclosing' hrest
    exact ⟨f, symbols, others, hbrackets.occurs, hbrackets.before.signed,
      hbrackets.inner.reads.signed, hbrackets.after.signed⟩

/-- A negated numeral, a name that comes twice, and brackets inside brackets. -/
theorem Expression.keepsOrder_of_parse_nested :
    ∃ e, parse "-2*(x + (yy*x))" = .ok e ∧ e.KeepsOrder "-2*(x + (yy*x))" := by
  have hread : (parse "-2*(x + (yy*x))").toOption.isSome = true := by decide +kernel
  cases hparse : parse "-2*(x + (yy*x))" with
  | ok e => exact ⟨e, rfl, keepsOrder_of_parse hparse⟩
  | error error =>
      rw [hparse] at hread
      cases hread

end SumProduct
