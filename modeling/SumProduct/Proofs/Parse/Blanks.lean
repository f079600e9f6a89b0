import SumProduct.Proofs.Grammar.Acceptance
import SumProduct.Proofs.Grammar.Words

/-!
# Blanks mean nothing

Blanks between tokens change no tree and no error: a text with more of them is read to
the same result, with the places behind them moved. A text that is read can lose all of
its blanks.
-/

namespace SumProduct

open Text

/-- Tokens with the contents of others open as many brackets. -/
theorem BracketsWithin.of_contents {limit around : Nat} {tokens others : List Token}
    (hwithin : BracketsWithin limit around tokens)
    (hsame : others.map Token.content = tokens.map Token.content) :
    BracketsWithin limit around others := by
  intro front hfront
  have hkinds : ∀ tokens : List Token,
      tokens.map Token.kind = (tokens.map Token.content).map Prod.fst := by
    intro tokens
    rw [List.map_map]
    rfl
  obtain ⟨count, rfl⟩ : ∃ count, front = others.take count :=
    ⟨front.length, List.prefix_iff_eq_take.mp hfront⟩
  have hfronts : (others.take count).map Token.content = (tokens.take count).map Token.content := by
    rw [List.map_take, hsame, List.map_take]
  have hopen : openBrackets (others.take count) = openBrackets (tokens.take count) := by
    rw [openBrackets, openBrackets, hkinds, hkinds, hfronts]
  rw [hopen]
  exact hwithin _ (List.take_prefix _ _)

namespace Expression

/-- Blanks that come into a text at a place that is not inside of a token leave the tree as
it is, or the error with its place moved. -/
theorem parse_insert {front blanks back : String}
    (hblanks : ∀ c ∈ blanks.toList, isBlank c = true)
    (houtside : ∀ token ∈ (Source.ofString (front ++ back)).tokens,
      Source.Outside front.utf8ByteSize token) :
    parse (front ++ blanks ++ back) =
      (parse (front ++ back)).mapError
        (Insertion.moveError ⟨front.utf8ByteSize, blanks.utf8ByteSize⟩) := by
  have hplace : (Source.ofString (front ++ back)).offset + byteSize front.toList =
      front.utf8ByteSize := by
    rw [Source.ofString, byteSize_toList, Nat.zero_add]
  have hmoves := Source.moves_insert (Source.ofString (front ++ back))
    (String.toList_append ..) hblanks (hplace.symm ▸ houtside)
  rw [hplace, byteSize_toList, ← String.toList_append, ← String.toList_append] at hmoves
  exact parse_eq_of_moved _ hmoves.tokens hmoves.stray

/-- A text that is read to a tree is read to it without any blanks. -/
theorem parse_withoutBlanks {text : String} {e : Expression} (hparse : parse text = .ok e) :
    parse (String.ofList (withoutBlanks text.toList)) = .ok e := by
  obtain ⟨hclean, hspells, hwithin, hdepth⟩ := spells_of_parse hparse
  obtain ⟨hstray, hcontents⟩ :=
    (Source.ofString text).tokens_withoutBlanks hclean hspells.wordsApart 0
  have hsource : Source.ofString (String.ofList (withoutBlanks text.toList)) =
      ⟨0, withoutBlanks (Source.ofString text).rest⟩ := by
    rw [Source.ofString, String.toList_ofList, Source.ofString]
  rw [← hsource] at hstray hcontents
  exact parse_of_spells hstray (hspells.of_contents hcontents) (hwithin.of_contents hcontents)
    hdepth

/-- Blanks between tokens mean nothing. Blanks that come into a text at a place that is not
inside of a token leave the tree as it is, or the error with its place moved by their bytes
if it is theirs or behind them. Without all of its blanks, a text that is read is read to
the same tree. -/
theorem parse_ignores_blanks :
    (∀ front blanks back : String, (∀ c ∈ blanks.toList, isBlank c = true) →
      (∀ token ∈ (Source.ofString (front ++ back)).tokens,
        Source.Outside front.utf8ByteSize token) →
      parse (front ++ blanks ++ back) =
        (parse (front ++ back)).mapError
          (Insertion.moveError ⟨front.utf8ByteSize, blanks.utf8ByteSize⟩)) ∧
    ∀ (text : String) (e : Expression), parse text = .ok e →
      parse (String.ofList (withoutBlanks text.toList)) = .ok e :=
  ⟨fun _ _ _ hblanks houtside => parse_insert hblanks houtside,
    fun _ _ hparse => parse_withoutBlanks hparse⟩

/-- Two blanks of three bytes each in front of an operator, and none at all. -/
theorem parse_ignores_blanks_wide :
    parse ("(x " ++ "\u2003\u3000" ++ "* 2))") =
        (parse ("(x " ++ "* 2))")).mapError (Insertion.moveError ⟨3, 6⟩) ∧
      parse "(x*-2)" = parse "( x * - 2 ) " := by
  have hread : (parse "( x * - 2 ) ").toOption.isSome = true := by decide +kernel
  have hbare : String.ofList (withoutBlanks "( x * - 2 ) ".toList) = "(x*-2)" := by decide +kernel
  have houtside : ∀ token ∈ (Source.ofString ("(x " ++ "* 2))")).tokens,
      Source.Outside "(x ".utf8ByteSize token := by
    decide +kernel
  have hblanks : ∀ c ∈ "\u2003\u3000".toList, isBlank c = true :=
    List.all_eq_true.mp (by decide)
  refine ⟨parse_ignores_blanks.1 "(x " "\u2003\u3000" "* 2))" hblanks houtside, ?_⟩
  cases hparse : parse "( x * - 2 ) " with
  | ok e =>
      rw [← hbare]
      exact parse_ignores_blanks.2 _ e hparse
  | error error =>
      rw [hparse] at hread
      cases hread

end Expression

end SumProduct
