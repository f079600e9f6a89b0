import SumProduct.Proofs.Grammar.Basic
import SumProduct.Proofs.Token.Blanks

/-!
# Words in sentences

A sentence has a sign or a bracket between any two of its words, and what tokens spell is
told by what they hold, not by where they stand.
-/

namespace SumProduct

/-- What is no word parts words. -/
theorem isChain_append_cons {α : Type} (isWord : α → Bool) {first second : List α} {sign : α}
    (hfirst : first.IsChain fun a b => isWord a = true → isWord b = false)
    (hsign : isWord sign = false)
    (hsecond : second.IsChain fun a b => isWord a = true → isWord b = false) :
    (first ++ sign :: second).IsChain fun a b => isWord a = true → isWord b = false := by
  refine List.isChain_append.mpr ⟨hfirst, List.isChain_cons.mpr ⟨?_, hsecond⟩, ?_⟩
  · intro next _ hword
    rw [hsign] at hword
    cases hword
  · intro last _ next hnext _
    obtain rfl : sign = next := by simpa using hnext
    exact hsign

theorem WordsApart.append_cons {first second : List Token} {sign : Token}
    (hfirst : WordsApart first) (hsign : sign.kind.isWord = false) (hsecond : WordsApart second) :
    WordsApart (first ++ sign :: second) :=
  isChain_append_cons (fun token : Token => token.kind.isWord) hfirst hsign hsecond

theorem wordsApart_singleton (token : Token) : WordsApart [token] :=
  List.isChain_singleton token

/-- No two words of a sentence are neighbours. -/
theorem Spells.wordsApart {rule : Rule} {tokens : List Token} {e : Expression}
    (hspells : Spells rule tokens e) : WordsApart tokens := by
  have hnil : WordsApart [] := List.isChain_nil
  have hother : ∀ {token : Token} {kind : Token.Kind}, token.kind = kind →
      kind.isWord = false → token.kind.isWord = false := by
    rintro token _ rfl hword
    exact hword
  induction hspells with
  | numeral hkind hdenotes => exact wordsApart_singleton _
  | negated hsign hkind hdenotes =>
      exact hnil.append_cons (hother hsign rfl) (wordsApart_singleton _)
  | name hkind hname => exact wordsApart_singleton _
  | bracketed hopening hclosing hinner ih =>
      exact hnil.append_cons (hother hopening rfl) (ih.append_cons (hother hclosing rfl) hnil)
  | operand hoperand ih => exact ih
  | @operation op left right sign e f hleft hsign hright ihLeft ihRight =>
      have hword : op.kind.isWord = false := by cases op <;> rfl
      exact ihLeft.append_cons (hother hsign hword) ihRight

/-- A token stands for what others with its content stand for. -/
theorem Token.Denotes.of_content {token other : Token} {negative : Bool} {literal : Literal}
    (hdenotes : token.Denotes negative literal) (htext : other.text = token.text) :
    other.Denotes negative literal :=
  ⟨hdenotes.negative, htext ▸ hdenotes.nearest⟩

/-- Tokens spell what others with their contents spell. -/
theorem Spells.of_contents {rule : Rule} {tokens others : List Token} {e : Expression}
    (hspells : Spells rule tokens e)
    (hsame : others.map Token.content = tokens.map Token.content) : Spells rule others e := by
  induction hspells generalizing others with
  | numeral hkind hdenotes =>
      obtain ⟨token, rfl, htoken⟩ := List.map_eq_singleton_iff.mp hsame
      obtain ⟨hkind', htext⟩ := Token.content_eq_iff.mp htoken
      exact .numeral (hkind'.trans hkind) (hdenotes.of_content htext)
  | negated hsign hkind hdenotes =>
      obtain ⟨sign, _, rfl, hsign', hrest⟩ := List.map_eq_cons_iff.mp hsame
      obtain ⟨token, rfl, htoken⟩ := List.map_eq_singleton_iff.mp hrest
      obtain ⟨hkind', htext⟩ := Token.content_eq_iff.mp htoken
      exact .negated ((Token.content_eq_iff.mp hsign').1.trans hsign) (hkind'.trans hkind)
        (hdenotes.of_content htext)
  | name hkind hname =>
      obtain ⟨token, rfl, htoken⟩ := List.map_eq_singleton_iff.mp hsame
      obtain ⟨hkind', htext⟩ := Token.content_eq_iff.mp htoken
      exact .name (hkind'.trans hkind) (hname.trans htext.symm)
  | bracketed hopening hclosing hinner ih =>
      rw [List.map_append] at hsame
      obtain ⟨front, _, rfl, hfront, hlast⟩ := List.map_eq_append_iff.mp hsame
      obtain ⟨opening, inner, rfl, hopening', hinner'⟩ := List.map_eq_cons_iff.mp hfront
      obtain ⟨closing, rfl, hclosing'⟩ := List.map_eq_singleton_iff.mp hlast
      exact .bracketed ((Token.content_eq_iff.mp hopening').1.trans hopening)
        ((Token.content_eq_iff.mp hclosing').1.trans hclosing) (ih hinner')
  | operand hoperand ih => exact .operand (ih hsame)
  | operation hleft hsign hright ihLeft ihRight =>
      rw [List.map_append] at hsame
      obtain ⟨left, _, rfl, hleft', hbehind⟩ := List.map_eq_append_iff.mp hsame
      obtain ⟨sign, right, rfl, hsign', hright'⟩ := List.map_eq_cons_iff.mp hbehind
      exact .operation (ihLeft hleft') ((Token.content_eq_iff.mp hsign').1.trans hsign)
        (ihRight hright')

end SumProduct
