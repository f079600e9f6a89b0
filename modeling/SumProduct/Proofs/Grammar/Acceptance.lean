import Mathlib.Data.Set.Subsingleton
import SumProduct.Proofs.Parse.Limits

/-!
# What is accepted

A text is read as a tree exactly if its tokens spell that tree and both are within the
limits. Tokens spell one tree at most, since a path over them has one end.
-/

namespace SumProduct

/-! ## One tree for some tokens -/

/-- An accepted token leads to one state. -/
theorem Advances.unique {limit : Nat} {state first second : ParseState} {token : Token}
    (hfirst : Advances limit state token first) (hsecond : Advances limit state token second) :
    first = second := by
  cases hfirst with
  | numeral hkind hdenotes _ =>
      cases hsecond with
      | numeral _ hdenotes' _ => rw [hdenotes.unique hdenotes']
      | minus hkind' | name hkind' | opened hkind' => cases hkind.symm.trans hkind'
  | minus hkind =>
      cases hsecond with
      | minus _ => rfl
      | numeral hkind' | name hkind' | opened hkind' => cases hkind.symm.trans hkind'
  | negated _ hdenotes _ =>
      cases hsecond with
      | negated _ hdenotes' _ => rw [hdenotes.unique hdenotes']
  | @name level outer _ x hkind hname _ =>
      cases hsecond with
      | @name _ _ _ y _ hname' _ =>
          cases x
          cases y
          cases hname.trans hname'.symm
          rfl
      | numeral hkind' | minus hkind' | opened hkind' => cases hkind.symm.trans hkind'
  | opened hkind _ =>
      cases hsecond with
      | opened _ _ => rfl
      | numeral hkind' | minus hkind' | name hkind' => cases hkind.symm.trans hkind'
  | times hkind =>
      cases hsecond with
      | times _ => rfl
      | plus hkind' | closed hkind' => cases hkind.symm.trans hkind'
  | plus hkind _ =>
      cases hsecond with
      | plus _ _ => rfl
      | times hkind' | closed hkind' => cases hkind.symm.trans hkind'
  | closed hkind _ _ =>
      cases hsecond with
      | closed _ _ _ => rfl
      | times hkind' | plus hkind' => cases hkind.symm.trans hkind'

/-- A path over some tokens has one end. -/
theorem Path.unique {limit : Nat} {state first second : ParseState} {tokens : List Token}
    (hfirst : Path limit state tokens first) (hsecond : Path limit state tokens second) :
    first = second := by
  induction hfirst with
  | nil =>
      cases hsecond with
      | nil => rfl
  | cons hadvances _ ih =>
      cases hsecond with
      | cons hadvances' hrest =>
          rw [hadvances'.unique hadvances] at hrest
          exact ih hrest

/-- Tokens spell one expression at most, however deep. -/
theorem Spells.unique {tokens : List Token} {e f : Expression}
    (hfirst : Spells .expression tokens e) (hsecond : Spells .expression tokens f) : e = f := by
  -- A limit that neither tree reaches leaves both paths open.
  obtain ⟨limit, htokens, he, hf⟩ :
      ∃ limit, tokens.length ≤ limit ∧ e.depth ≤ limit ∧ f.depth ≤ limit :=
    ⟨tokens.length + (e.depth + f.depth), by omega, by omega, by omega⟩
  have hwithin : BracketsWithin limit ([] : List Level).length tokens :=
    bracketsWithin_of_length_le htokens
  obtain ⟨sum, term, _, rfl, hpath⟩ := hfirst.reaches he [] hwithin
  obtain ⟨sum', term', _, rfl, hpath'⟩ := hsecond.reaches hf [] hwithin
  cases hpath.unique hpath'
  rfl

/-! ## Texts that are read -/

theorem ParseState.finish_eq_ok_iff {state : ParseState} {e : Expression} :
    state.finish = .ok e ↔ ∃ sum term, state = ⟨.operator sum term, []⟩ ∧
      Fits maxDepth .plus sum term ∧ e = joined .plus sum term := by
  obtain ⟨phase, outer⟩ := state
  cases phase with
  | operand level => simp [finish, throw, throwThe, MonadExceptOf.throw]
  | magnitude level => simp [finish, throw, throwThe, MonadExceptOf.throw]
  | operator sum term =>
      simp only [finish]
      constructor
      · intro hfinish
        obtain ⟨total, htotal, hrest⟩ := bind_eq_ok_iff.mp hfinish
        obtain ⟨hfits, rfl⟩ := completeWaiting_eq_ok_iff.mp htotal
        cases outer with
        | nil =>
            cases hrest
            exact ⟨sum, term, rfl, hfits, rfl⟩
        | cons level outer => cases hrest
      · rintro ⟨_, _, hstate, hfits, rfl⟩
        cases hstate
        rw [completeWaiting_of_fits hfits]
        rfl

/-- A tree within the limits is read from any text whose tokens spell it. -/
theorem Expression.parse_of_spells {text : String} {e : Expression}
    (hclean : (Source.ofString text).stray? = none)
    (hspells : Spells .expression (Source.ofString text).tokens e)
    (hwithin : BracketsWithin maxDepth 0 (Source.ofString text).tokens)
    (hdepth : e.depth ≤ maxDepth) : parse text = .ok e := by
  obtain ⟨sum, term, hfits, rfl, hpath⟩ := hspells.reaches hdepth [] hwithin
  have hfold := hpath.foldlM (Source.wellFormed_of_mem_tokens _)
  rw [parse_eq_foldlM, hclean]
  exact bind_eq_ok_iff.mpr ⟨_, hfold,
    ParseState.finish_eq_ok_iff.mpr ⟨sum, term, rfl, hfits, rfl⟩⟩

/-- The tokens of a text that is read, and its limits. -/
theorem Expression.spells_of_parse {text : String} {e : Expression} (hparse : parse text = .ok e) :
    (Source.ofString text).stray? = none ∧ Spells .expression (Source.ofString text).tokens e ∧
      BracketsWithin maxDepth 0 (Source.ofString text).tokens ∧ e.depth ≤ maxDepth := by
  rw [parse_eq_foldlM] at hparse
  obtain ⟨last, hfold, hconclude⟩ := bind_eq_ok_iff.mp hparse
  have hpath := Path.of_foldlM hfold
  have hpositive : 0 < maxDepth := by decide
  cases hstray : (Source.ofString text).stray? with
  | some place =>
      rw [hstray] at hconclude
      cases hconclude
  | none =>
      rw [hstray] at hconclude
      obtain ⟨sum, term, rfl, hfits, rfl⟩ := ParseState.finish_eq_ok_iff.mp hconclude
      have hwithin := hpath.within hpositive (ParseState.within_start maxDepth)
      exact ⟨rfl, (hpath.holds ParseState.holds_start).spells, hpath.bracketsWithin hpositive,
        hfits.depth_joined_le (hwithin.term sum term rfl)⟩

/-- A text is read as a tree exactly if it consists of tokens that spell the tree, with
at most `maxDepth` brackets open at any point, a tree of at most that depth and numerals
that are all finite. No tokens spell two trees. -/
theorem Expression.parse_eq_ok_iff :
    (∀ (text : String) (e : Expression),
      parse text = .ok e ↔
        (Source.ofString text).stray? = none ∧
          Spells .expression (Source.ofString text).tokens e ∧
          BracketsWithin maxDepth 0 (Source.ofString text).tokens ∧
          e.depth ≤ maxDepth ∧
          ∀ token ∈ (Source.ofString text).tokens, token.kind = .numeral → ¬token.Overflows) ∧
      ∀ tokens : List Token, {e | Spells .expression tokens e}.Subsingleton := by
  refine ⟨fun text e => ⟨?_, ?_⟩, fun _ _ hfirst _ hsecond => hfirst.unique hsecond⟩
  · intro hparse
    obtain ⟨hclean, hspells, hwithin, hdepth⟩ := spells_of_parse hparse
    exact ⟨hclean, hspells, hwithin, hdepth, hspells.not_overflows⟩
  · rintro ⟨hclean, hspells, hwithin, hdepth, _⟩
    exact parse_of_spells hclean hspells hwithin hdepth

end SumProduct
