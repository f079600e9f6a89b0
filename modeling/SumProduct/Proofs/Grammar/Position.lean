import SumProduct.Proofs.Decimal.ReadBack
import SumProduct.Proofs.Parse.Limits

/-!
# Positions in a sentence

Which kinds of token may come next depends on no more than the last kind and the number
of open brackets. Following these positions decides which kinds are a sentence and
which are the front of one, and a state expects just what its position allows.
-/

namespace SumProduct

/-- What has to come next. -/
inductive Turn where
  /-- A factor. -/
  | operand
  /-- The numeral after a minus sign. -/
  | magnitude
  /-- Anything that may follow a factor. -/
  | operator
  deriving DecidableEq, Repr

/-- A place between two tokens. -/
structure Position where
  turn : Turn
  brackets : Nat
  deriving DecidableEq, Repr

namespace Position

/-- The place before the first token. -/
def start : Position :=
  ⟨.operand, 0⟩

/-- The place after a whole expression. -/
def stop : Position :=
  ⟨.operator, 0⟩

/-- The place after one more token, if a token of that kind may come next. -/
def next? (position : Position) (kind : Token.Kind) : Option Position :=
  match position.turn, kind with
  | .operand, .numeral | .operand, .name => some ⟨.operator, position.brackets⟩
  | .operand, .minus => some ⟨.magnitude, position.brackets⟩
  | .operand, .openBracket => some ⟨.operand, position.brackets + 1⟩
  | .magnitude, .numeral => some ⟨.operator, position.brackets⟩
  | .operator, .plus | .operator, .times => some ⟨.operand, position.brackets⟩
  | .operator, .closeBracket =>
      match position.brackets with
      | 0 => none
      | brackets + 1 => some ⟨.operator, brackets⟩
  | _, _ => none

/-- The place after tokens of some kinds. -/
def follow (position : Position) (kinds : List Token.Kind) : Option Position :=
  kinds.foldlM next? position

variable {position middle : Position} {kind : Token.Kind} {kinds : List Token.Kind}

@[simp] theorem follow_nil (position : Position) : position.follow [] = some position :=
  rfl

theorem follow_cons (position : Position) (kind : Token.Kind) (kinds : List Token.Kind) :
    position.follow (kind :: kinds) = (position.next? kind).bind fun next => next.follow kinds :=
  rfl

theorem follow_append (position : Position) (first second : List Token.Kind) :
    position.follow (first ++ second) =
      (position.follow first).bind fun middle => middle.follow second :=
  List.foldlM_append

theorem follow_of_next? {next : Position} (hnext : position.next? kind = some next)
    (kinds : List Token.Kind) : position.follow (kind :: kinds) = next.follow kinds := by
  rw [follow_cons, hnext]
  rfl

theorem follow_concat (hfollow : position.follow kinds = some middle) :
    position.follow (kinds ++ [kind]) = middle.next? kind := by
  rw [follow_append, hfollow, Option.bind_some, follow_cons]
  exact Option.bind_fun_some (middle.next? kind)

/-- A numeral is due after a minus sign and only there. -/
theorem turn_of_next? {next : Position} (hnext : position.next? kind = some next) :
    next.turn = .magnitude ↔ kind = .minus := by
  obtain ⟨turn, brackets⟩ := position
  cases turn with
  | operand => cases kind <;> cases hnext <;> simp
  | magnitude => cases kind <;> cases hnext; simp
  | operator =>
      cases kind with
      | closeBracket =>
          cases brackets with
          | zero => cases hnext
          | succ brackets => cases hnext; simp
      | _ => cases hnext <;> simp

/-- Closing brackets close as many as are open. -/
theorem follow_closing (brackets : Nat) :
    follow ⟨.operator, brackets⟩ (List.replicate brackets .closeBracket) = some stop := by
  induction brackets with
  | zero => rfl
  | succ brackets ih =>
      have hnext : next? ⟨.operator, brackets + 1⟩ .closeBracket = some ⟨.operator, brackets⟩ := rfl
      rw [List.replicate_succ, follow_of_next? hnext]
      exact ih

/-- Every place is inside a sentence. -/
theorem exists_follow_eq_stop (position : Position) :
    ∃ kinds, position.follow kinds = some stop := by
  obtain ⟨turn, brackets⟩ := position
  have hclosing := follow_closing brackets
  cases turn with
  | operand | magnitude =>
      refine ⟨.numeral :: List.replicate brackets .closeBracket, ?_⟩
      rw [follow_cons]
      exact hclosing
  | operator => exact ⟨_, hclosing⟩

end Position

/-! ## Positions of states -/

/-- What has to come next in a phase. -/
def Phase.turn : Phase → Turn
  | .operand _ => .operand
  | .magnitude _ => .magnitude
  | .operator _ _ => .operator

/-- The position of a state. -/
def ParseState.position (state : ParseState) : Position :=
  ⟨state.phase.turn, state.outer.length⟩

/-- A state expects the kinds that its position allows. -/
theorem ParseState.mem_expected_iff {state : ParseState} {kind : Token.Kind} :
    kind ∈ state.expected ↔ (state.position.next? kind).isSome := by
  obtain ⟨phase, outer⟩ := state
  cases phase with
  | operand level => cases kind <;> simp [expected, position, Phase.turn, Position.next?]
  | magnitude level => cases kind <;> simp [expected, position, Phase.turn, Position.next?]
  | operator sum term =>
      cases outer <;> cases kind <;> simp [expected, position, Phase.turn, Position.next?]

/-- An accepted token moves the position on by its kind. -/
theorem Advances.next? {limit : Nat} {state next : ParseState} {token : Token}
    (hadvances : Advances limit state token next) :
    state.position.next? token.kind = some next.position := by
  cases hadvances with
  | numeral hkind | minus hkind | negated hkind | name hkind | opened hkind | times hkind
  | plus hkind | closed hkind =>
      rw [hkind]
      rfl

theorem Path.follow {limit : Nat} {state last : ParseState} {tokens : List Token}
    (hpath : Path limit state tokens last) :
    state.position.follow (tokens.map Token.kind) = some last.position := by
  induction hpath with
  | nil => rfl
  | cons hadvances _ ih =>
      rw [List.map_cons, Position.follow_of_next? hadvances.next?]
      exact ih

/-! ## Positions lead to sentences -/

theorem Fits.mono {limit limit' : Nat} {op : Operation} {waiting : Option Pending}
    {right : Expression} (hfits : Fits limit op waiting right) (hle : limit ≤ limit') :
    Fits limit' op waiting right :=
  fun pending hwaiting => (hfits pending hwaiting).trans hle

/-- What is accepted within one limit is accepted within a greater one. -/
theorem Advances.mono {limit limit' : Nat} {state next : ParseState} {token : Token}
    (hadvances : Advances limit state token next) (hle : limit ≤ limit') :
    Advances limit' state token next := by
  cases hadvances with
  | numeral hkind hdenotes hfits => exact .numeral hkind hdenotes (hfits.mono hle)
  | minus hkind => exact .minus hkind
  | negated hkind hdenotes hfits => exact .negated hkind hdenotes (hfits.mono hle)
  | name hkind hname hfits => exact .name hkind hname (hfits.mono hle)
  | opened hkind hlimit => exact .opened hkind (hlimit.trans_le hle)
  | times hkind => exact .times hkind
  | plus hkind hfits => exact .plus hkind (hfits.mono hle)
  | closed hkind hsum hproduct => exact .closed hkind (hsum.mono hle) (hproduct.mono hle)

theorem Path.mono {limit limit' : Nat} {state last : ParseState} {tokens : List Token}
    (hpath : Path limit state tokens last) (hle : limit ≤ limit') :
    Path limit' state tokens last := by
  induction hpath with
  | nil => exact .nil
  | cons hadvances _ ih => exact .cons (hadvances.mono hle) ih

/-- Some limit leaves room for joining an operand. -/
theorem fits_depth_joined (op : Operation) (waiting : Option Pending) (right : Expression) :
    Fits (joined op waiting right).depth op waiting right := by
  rintro pending rfl
  exact Nat.le_refl _

namespace Token

/-- The zero of a sign. -/
def zeroLiteral (negative : Bool) : Literal :=
  ⟨⟨negative, 0, by decide⟩, rfl⟩

/-- A token of a given kind, as good as any other. -/
def sample : Kind → Token
  | .numeral => ⟨.numeral, "0", ⟨0, 0⟩⟩
  | .name => ⟨.name, "x", ⟨0, 0⟩⟩
  | kind => ⟨kind, "", ⟨0, 0⟩⟩

@[simp] theorem kind_sample (kind : Kind) : (sample kind).kind = kind := by
  cases kind <;> rfl

theorem sample_denotes (negative : Bool) :
    (sample .numeral).Denotes negative (zeroLiteral negative) := by
  refine ⟨rfl, ?_⟩
  have hzero : Numeral.spelledValue (sample .numeral).text.toList = 0 := by
    rw [Numeral.spelledValue]
    simp [sample, Nat.ofDigitChars]
  rw [hzero]
  exact Numeral.isNearest_zero

end Token

/-- Every kind that a position allows is accepted there, within some limit. -/
theorem ParseState.exists_advances {state : ParseState} {kind : Token.Kind} {next : Position}
    (hnext : state.position.next? kind = some next) :
    ∃ limit last, Advances limit state (Token.sample kind) last := by
  obtain ⟨phase, outer⟩ := state
  cases phase with
  | operand level =>
      cases kind with
      | numeral => exact ⟨_, _, .numeral rfl (Token.sample_denotes false) (fits_depth_joined _ _ _)⟩
      | minus => exact ⟨0, _, .minus rfl⟩
      | name =>
          exact ⟨_, _, .name (x := ⟨"x", by decide⟩) rfl rfl (fits_depth_joined _ _ _)⟩
      | openBracket => exact ⟨_, _, .opened rfl (Nat.lt_succ_self _)⟩
      | closeBracket | plus | times => cases hnext
  | magnitude level =>
      cases kind with
      | numeral => exact ⟨_, _, .negated rfl (Token.sample_denotes true) (fits_depth_joined _ _ _)⟩
      | minus | name | openBracket | closeBracket | plus | times => cases hnext
  | operator sum term =>
      cases kind with
      | times => exact ⟨0, _, .times rfl⟩
      | plus => exact ⟨_, _, .plus rfl (fits_depth_joined _ _ _)⟩
      | closeBracket =>
          cases outer with
          | nil => cases hnext
          | cons level outer =>
              have hsum := fits_depth_joined .plus sum term
              have hproduct := fits_depth_joined .times level.product (joined .plus sum term)
              exact ⟨_, _, .closed rfl (hsum.mono (le_max_left _ _))
                (hproduct.mono (le_max_right _ _))⟩
      | numeral | minus | name | openBracket => cases hnext

/-- What can be followed from a position is a path from its state, within some limit. -/
theorem ParseState.exists_path (state : ParseState) {kinds : List Token.Kind} {stop : Position}
    (hfollow : state.position.follow kinds = some stop) :
    ∃ limit tokens last, tokens.map Token.kind = kinds ∧ Path limit state tokens last ∧
      last.position = stop := by
  induction kinds generalizing state with
  | nil =>
      rw [Position.follow_nil, Option.some.injEq] at hfollow
      exact ⟨0, [], state, rfl, .nil, hfollow⟩
  | cons kind kinds ih =>
      rw [Position.follow_cons] at hfollow
      obtain ⟨position, hnext, hrest⟩ := Option.bind_eq_some_iff.mp hfollow
      obtain ⟨limit, next, hadvances⟩ := exists_advances hnext
      have hposition := hadvances.next?
      rw [Token.kind_sample, hnext, Option.some.injEq] at hposition
      rw [hposition] at hrest
      obtain ⟨limit', tokens, last, hkinds, hpath, hstop⟩ := ih next hrest
      refine ⟨max limit limit', Token.sample kind :: tokens, last, ?_, ?_, hstop⟩
      · rw [List.map_cons, Token.kind_sample, hkinds]
      · exact .cons (hadvances.mono (le_max_left _ _)) (hpath.mono (le_max_right _ _))

/-- A sentence is followed from the start to the end. -/
theorem sentence_iff {kinds : List Token.Kind} :
    Sentence kinds ↔ Position.start.follow kinds = some .stop := by
  constructor
  · rintro ⟨tokens, e, rfl, hspells⟩
    have hwithin := bracketsWithin_of_length_le (le_max_left tokens.length e.depth)
    obtain ⟨sum, term, _, _, hpath⟩ :=
      hspells.reaches (le_max_right tokens.length e.depth) [] hwithin
    exact hpath.follow
  · intro hfollow
    obtain ⟨limit, tokens, ⟨phase, outer⟩, hkinds, hpath, hstop⟩ :=
      ParseState.start.exists_path hfollow
    cases phase with
    | operand level | magnitude level => cases hstop
    | operator sum term =>
        have hnil : outer = [] := List.length_eq_zero_iff.mp (congrArg Position.brackets hstop)
        subst hnil
        exact ⟨tokens, _, hkinds, (hpath.holds ParseState.holds_start).spells⟩

/-- The front of a sentence is followed from the start. -/
theorem viable_iff {kinds : List Token.Kind} :
    Viable kinds ↔ (Position.start.follow kinds).isSome := by
  constructor
  · rintro ⟨more, hsentence⟩
    rw [sentence_iff, Position.follow_append] at hsentence
    obtain ⟨middle, hfollow, _⟩ := Option.bind_eq_some_iff.mp hsentence
    rw [hfollow]
    rfl
  · intro hsome
    obtain ⟨middle, hfollow⟩ := Option.isSome_iff_exists.mp hsome
    obtain ⟨more, hmore⟩ := middle.exists_follow_eq_stop
    refine ⟨more, sentence_iff.mpr ?_⟩
    rw [Position.follow_append, hfollow]
    exact hmore

end SumProduct
