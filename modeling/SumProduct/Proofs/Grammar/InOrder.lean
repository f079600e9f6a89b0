import Mathlib.Data.List.Forall2
import SumProduct.Proofs.Expression.InOrder
import SumProduct.Proofs.Grammar.Acceptance
import SumProduct.Proofs.Token.LetterRuns

/-!
# The order of a text

A tree keeps the order of the tokens that spell it: read in order it gives them all, brackets
left out and each minus sign joined to its numeral. So do its literals, its variables and its
operations.
-/

namespace SumProduct

/-! ## Tokens without brackets -/

/-- A token, and whether a minus sign is joined to it. -/
structure SignedToken where
  negative : Bool
  token : Token

/-- Some tokens with every minus sign joined to the token behind it. -/
def joinSigns : List Token → List SignedToken
  | [] => []
  | [token] => [⟨false, token⟩]
  | sign :: token :: rest =>
      if sign.kind = .minus then ⟨true, token⟩ :: joinSigns rest
      else ⟨false, sign⟩ :: joinSigns (token :: rest)

/-- Some tokens without the brackets among them. -/
def withoutBrackets (tokens : List Token) : List Token :=
  tokens.filter fun token => token.kind ≠ .openBracket ∧ token.kind ≠ .closeBracket

/-- What some tokens say when brackets are left out: the other tokens, with their signs. -/
def signedTokens (tokens : List Token) : List SignedToken :=
  joinSigns (withoutBrackets tokens)

/-- The symbol that a token stands for, with the sign joined to it. -/
inductive SignedToken.Denotes : SignedToken → Symbol → Prop
  | lit {negative : Bool} {token : Token} {literal : Literal} (hkind : token.kind = .numeral)
      (hdenotes : token.Denotes negative literal) : Denotes ⟨negative, token⟩ (.lit literal)
  | var {token : Token} {x : Variable} (hkind : token.kind = .name) (hname : x.name = token.text) :
      Denotes ⟨false, token⟩ (.var x)
  | op {token : Token} {op : Operation} (hkind : token.kind = op.kind) :
      Denotes ⟨false, token⟩ (.op op)

/-- The operation that a token stands for, if it does. -/
def Token.operation? (token : Token) : Option Operation :=
  match token.kind with
  | .plus => some .plus
  | .times => some .times
  | _ => none

theorem joinSigns_cons_of_ne_minus {token : Token} (hkind : token.kind ≠ .minus)
    (rest : List Token) : joinSigns (token :: rest) = ⟨false, token⟩ :: joinSigns rest := by
  cases rest with
  | nil => rfl
  | cons next rest => rw [joinSigns, if_neg hkind]

theorem joinSigns_minus {sign : Token} (hsign : sign.kind = .minus) (token : Token)
    (rest : List Token) : joinSigns (sign :: token :: rest) = ⟨true, token⟩ :: joinSigns rest := by
  rw [joinSigns, if_pos hsign]

/-- Some tokens read as symbols, whatever tokens come behind them. -/
def Reads (tokens : List Token) (symbols : List Symbol) : Prop :=
  ∃ signed, List.Forall₂ SignedToken.Denotes signed symbols ∧
    ∀ more, joinSigns (withoutBrackets tokens ++ more) = signed ++ joinSigns more

namespace Reads

variable {tokens more : List Token} {symbols others : List Symbol} {token : Token}

theorem nil : Reads [] [] :=
  ⟨[], .nil, fun _ => rfl⟩

theorem append (hfirst : Reads tokens symbols) (hsecond : Reads more others) :
    Reads (tokens ++ more) (symbols ++ others) := by
  obtain ⟨signed, hsigned, hjoin⟩ := hfirst
  obtain ⟨signed', hsigned', hjoin'⟩ := hsecond
  refine ⟨signed ++ signed', List.rel_append hsigned hsigned', fun rest => ?_⟩
  rw [withoutBrackets, List.filter_append, ← withoutBrackets, ← withoutBrackets,
    List.append_assoc, hjoin, hjoin', List.append_assoc]

/-- A token that is neither bracket nor minus sign reads as its symbol. -/
theorem single {symbol : Symbol} (hdenotes : SignedToken.Denotes ⟨false, token⟩ symbol) :
    Reads [token] [symbol] := by
  have hkinds : token.kind ≠ .openBracket ∧ token.kind ≠ .closeBracket ∧ token.kind ≠ .minus := by
    cases hdenotes with
    | lit hkind | var hkind => simp [hkind]
    | @op _ op hkind => cases op <;> simp [hkind, Operation.kind]
  refine ⟨[⟨false, token⟩], .cons hdenotes .nil, fun rest => ?_⟩
  have hkept : withoutBrackets [token] = [token] := by
    simp [withoutBrackets, hkinds.1, hkinds.2.1]
  rw [hkept]
  exact joinSigns_cons_of_ne_minus hkinds.2.2 rest

theorem negated {sign : Token} {literal : Literal} (hsign : sign.kind = .minus)
    (hkind : token.kind = .numeral) (hdenotes : token.Denotes true literal) :
    Reads [sign, token] [.lit literal] := by
  refine ⟨[⟨true, token⟩], .cons (.lit hkind hdenotes) .nil, fun rest => ?_⟩
  have hkept : withoutBrackets [sign, token] = [sign, token] := by
    simp [withoutBrackets, hsign, hkind]
  rw [hkept]
  exact joinSigns_minus hsign token rest

theorem bracket (hkind : token.kind = .openBracket ∨ token.kind = .closeBracket) :
    Reads [token] [] := by
  refine ⟨[], .nil, fun rest => ?_⟩
  have hdropped : withoutBrackets [token] = [] := by
    rcases hkind with hkind | hkind <;> simp [withoutBrackets, hkind]
  rw [hdropped]
  rfl

theorem signed (hreads : Reads tokens symbols) :
    List.Forall₂ SignedToken.Denotes (signedTokens tokens) symbols := by
  obtain ⟨signed, hsigned, hjoin⟩ := hreads
  have hwhole := hjoin []
  rw [List.append_nil, joinSigns, List.append_nil] at hwhole
  rw [signedTokens, hwhole]
  exact hsigned

end Reads

/-- The tokens of a tree read as the tree in order. -/
theorem Spells.reads {rule : Rule} {tokens : List Token} {e : Expression}
    (hspells : Spells rule tokens e) : Reads tokens e.inOrder := by
  induction hspells with
  | numeral hkind hdenotes => exact .single (.lit hkind hdenotes)
  | negated hsign hkind hdenotes => exact .negated hsign hkind hdenotes
  | name hkind hname => exact .single (.var hkind hname)
  | bracketed hopening hclosing _ ih =>
      have hinner := (Reads.bracket (Or.inl hopening)).append ih
      have hwhole := hinner.append (.bracket (Or.inr hclosing))
      rwa [List.append_nil] at hwhole
  | operand _ ih => exact ih
  | operation _ hsign _ ihLeft ihRight =>
      exact ihLeft.append ((Reads.single (.op hsign)).append ihRight)

/-! ## Leaves and operations -/

/-- The literals among some symbols are the numerals among their tokens, each with its
sign. -/
theorem SignedToken.literals {signed : List SignedToken} {symbols : List Symbol}
    (hsigned : List.Forall₂ Denotes signed symbols) :
    List.Forall₂ (fun (numeral : SignedToken) literal =>
        numeral.token.Denotes numeral.negative literal)
      (signed.filter fun next => next.token.kind = .numeral)
      (symbols.filterMap Symbol.asLiteral?) := by
  induction hsigned with
  | nil => exact .nil
  | cons hdenotes _ ih =>
      cases hdenotes with
      | lit hkind hliteral =>
          rw [List.filter_cons_of_pos (by simpa using hkind)]
          exact .cons hliteral ih
      | var hkind hname =>
          rw [List.filter_cons_of_neg (by simp [hkind])]
          exact ih
      | @op _ op hkind =>
          rw [List.filter_cons_of_neg (by cases op <;> simp [hkind, Operation.kind])]
          exact ih

namespace Spells

variable {rule : Rule} {tokens : List Token} {e : Expression}

theorem names (hspells : Spells rule tokens e) :
    (e.inOrder.filterMap Symbol.asVariable?).map Variable.name = SumProduct.names tokens := by
  induction hspells with
  | numeral hkind _ => rw [names_cons_of_ne_name (by simp [hkind])]; rfl
  | negated hsign hkind _ =>
      rw [names_cons_of_ne_name (by simp [hsign]), names_cons_of_ne_name (by simp [hkind])]
      rfl
  | name hkind hname =>
      rw [names_cons_of_name hkind, ← hname]
      rfl
  | bracketed hopening hclosing _ ih =>
      rw [ih, List.cons_append, names_cons_of_ne_name (by simp [hopening]), names_append,
        names_cons_of_ne_name (by simp [hclosing])]
      exact (List.append_nil _).symm
  | operand _ ih => exact ih
  | @operation op left right sign e f _ hsign _ ihLeft ihRight =>
      have hname : sign.kind ≠ .name := by cases op <;> simp [hsign, Operation.kind]
      rw [names_append, names_cons_of_ne_name hname, ← ihLeft, ← ihRight, ← List.map_append,
        Expression.inOrder, List.filterMap_append]
      rfl

theorem operations (hspells : Spells rule tokens e) :
    e.inOrder.filterMap Symbol.asOperation? =
      tokens.filterMap Token.operation? := by
  induction hspells with
  | numeral hkind _ => simp [hkind, Token.operation?, Expression.inOrder, Symbol.asOperation?]
  | negated hsign hkind _ =>
      simp [hsign, hkind, Token.operation?, Expression.inOrder, Symbol.asOperation?]
  | name hkind _ => simp [hkind, Token.operation?, Expression.inOrder, Symbol.asOperation?]
  | bracketed hopening hclosing _ ih =>
      simp [hopening, hclosing, Token.operation?, ih]
  | operand _ ih => exact ih
  | @operation op left right sign e f _ hsign _ ihLeft ihRight =>
      have hoperation : sign.operation? = some op := by
        cases op <;> simp [hsign, Operation.kind, Token.operation?]
      have hsymbol : (Symbol.op op).asOperation? = some op := rfl
      rw [Expression.inOrder, List.filterMap_append, ihLeft, List.filterMap_append,
        List.filterMap_cons_some hsymbol, ihRight, List.filterMap_cons_some hoperation]

end Spells

end SumProduct
