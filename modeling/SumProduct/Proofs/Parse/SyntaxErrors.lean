import SumProduct.Proofs.Grammar.Position

/-!
# Where reading fails

A text that is refused is refused at one token, with all tokens before it on a path, or
after its last one. Syntax errors are found at the first place at which the kinds are no
longer the front of a sentence, and they name all kinds that could have stood there.
-/

namespace SumProduct

/-! ## Reasons to fail -/

/-- A text fails at the first token that is refused, or after all of them. -/
theorem Expression.parse_eq_error {text : String} {error : ParseError}
    (hparse : parse text = .error error) :
    (∃ earlier token later state,
      (Source.ofString text).tokens = earlier ++ token :: later ∧
        Path maxDepth .start earlier state ∧ Refuses state token error) ∨
      ∃ last, Path maxDepth .start (Source.ofString text).tokens last ∧
        last.conclude (Source.ofString text).stray? = .error error := by
  rw [parse_eq_foldlM] at hparse
  rcases bind_eq_error_iff.mp hparse with hfold | ⟨last, hfold, hconclude⟩
  · obtain ⟨earlier, token, later, state, htokens, hearlier, hstep⟩ :=
      exists_of_foldlM_eq_error hfold
    exact Or.inl ⟨earlier, token, later, state, htokens, .of_foldlM hearlier,
      ParseState.refuses_of_step hstep⟩
  · exact Or.inr ⟨last, .of_foldlM hfold, hconclude⟩

namespace ParseState

/-- At its end a text is incomplete, or its last sum is too deep. -/
theorem finish_eq_error {state : ParseState} {error : ParseError}
    (hfinish : state.finish = .error error) :
    (error = .unexpectedEnd ∧ state.position ≠ .stop) ∨ ∃ span, error = .tooDeep span := by
  obtain ⟨phase, outer⟩ := state
  cases phase with
  | operand level | magnitude level =>
      cases hfinish
      exact Or.inl ⟨rfl, fun hstop => by cases hstop⟩
  | operator sum term =>
      simp only [finish] at hfinish
      rcases bind_eq_error_iff.mp hfinish with hcomplete | ⟨total, _, hrest⟩
      · obtain ⟨pending, _, _, rfl⟩ := completeWaiting_eq_error_iff.mp hcomplete
        exact Or.inr ⟨_, rfl⟩
      · cases outer with
        | nil => cases hrest
        | cons level outer =>
            cases hrest
            exact Or.inl ⟨rfl, fun hstop => by cases hstop⟩

/-- At a stray character that character is reported, or the sum before it is too deep. -/
theorem stray_cases (state : ParseState) (character : Char) (index : Nat) :
    state.stray character index = .strayCharacter character index ∨
      ∃ span, state.stray character index = .tooDeep span := by
  obtain ⟨phase, outer⟩ := state
  cases phase with
  | operand level | magnitude level => exact Or.inl rfl
  | operator sum term =>
      simp only [stray]
      split
      next error hcomplete =>
        obtain ⟨pending, _, _, rfl⟩ := completeWaiting_eq_error_iff.mp hcomplete
        exact Or.inr ⟨_, rfl⟩
      next => exact Or.inl rfl

/-- After its tokens a text fails by its end, by the character there, or by depth. -/
theorem conclude_eq_error {state : ParseState} {place : Option (Char × Nat)} {error : ParseError}
    (hconclude : state.conclude place = .error error) :
    (place = none ∧ error = .unexpectedEnd ∧ state.position ≠ .stop) ∨
      (∃ character index, place = some (character, index) ∧
        error = .strayCharacter character index) ∨
      ∃ span, error = .tooDeep span := by
  match place with
  | none =>
      rcases finish_eq_error hconclude with ⟨rfl, hstop⟩ | hdeep
      · exact Or.inl ⟨rfl, rfl, hstop⟩
      · exact Or.inr (Or.inr hdeep)
  | some (character, index) =>
      have herror : state.stray character index = error := Except.error.inj hconclude
      rcases state.stray_cases character index with hstray | ⟨span, hdeep⟩
      · exact Or.inr (Or.inl ⟨character, index, rfl, herror.symm.trans hstray⟩)
      · exact Or.inr (Or.inr ⟨span, herror.symm.trans hdeep⟩)

end ParseState

/-! ## Paths and sentences -/

namespace Path

variable {limit : Nat} {tokens : List Token} {last : ParseState}

theorem follow_start (hpath : Path limit .start tokens last) :
    Position.start.follow (tokens.map Token.kind) = some last.position :=
  hpath.follow

/-- The tokens of a path are the front of a sentence. -/
theorem viable (hpath : Path limit .start tokens last) : Viable (tokens.map Token.kind) := by
  rw [viable_iff, hpath.follow_start]
  rfl

/-- A state expects the kinds that make a longer front of a sentence. -/
theorem viable_concat_iff (hpath : Path limit .start tokens last) (kind : Token.Kind) :
    Viable (tokens.map Token.kind ++ [kind]) ↔ kind ∈ last.expected := by
  rw [viable_iff, Position.follow_concat hpath.follow_start, ParseState.mem_expected_iff]

theorem sentence_iff (hpath : Path limit .start tokens last) :
    Sentence (tokens.map Token.kind) ↔ last.position = .stop := by
  rw [SumProduct.sentence_iff, hpath.follow_start, Option.some.injEq]

/-- A numeral is due exactly after a minus sign. -/
theorem turn_eq_magnitude_iff (hpath : Path limit .start tokens last) :
    last.position.turn = .magnitude ↔ (tokens.map Token.kind).getLast? = some .minus := by
  rcases List.eq_nil_or_concat tokens with rfl | ⟨front, token, rfl⟩
  · cases hpath
    constructor <;> intro h <;> cases h
  · rw [List.concat_eq_append] at hpath ⊢
    obtain ⟨middle, hfront, hlast⟩ := hpath.exists_of_append
    cases hlast with
    | cons hadvances hrest =>
        cases hrest
        rw [Position.turn_of_next? hadvances.next?, List.map_append, List.map_singleton,
          List.getLast?_append, List.getLast?_singleton, Option.some_or, Option.some.injEq]

/-- No numeral that has been accepted overflows. -/
theorem not_overflows {state : ParseState} (hpath : Path limit state tokens last) :
    ∀ token ∈ tokens, token.kind = .numeral → ¬token.Overflows := by
  induction hpath with
  | nil => simp
  | @cons state next last first tokens hadvances _ ih =>
      rw [List.forall_mem_cons]
      refine ⟨fun hnumeral => ?_, ih⟩
      cases hadvances with
      | numeral _ hdenotes | negated _ hdenotes => exact hdenotes.not_overflows
      | minus hkind | name hkind | opened hkind | times hkind | plus hkind | closed hkind =>
          rw [hkind] at hnumeral
          cases hnumeral

end Path

/-! ## The place of syntax errors -/

namespace Source

variable (source : Source)

/-- The tokens up to a token that ends the front of a sentence, and what could have
stood in its place. -/
structure RefusesToken (found : Token.Kind) (span : Span) (expected : List Token.Kind)
    (earlier : List Token) (token : Token) (later : List Token) : Prop where
  tokens : source.tokens = earlier ++ token :: later
  kind : token.kind = found
  span : token.span = span
  viable : Viable (earlier.map Token.kind)
  not_viable : ¬Viable ((earlier ++ [token]).map Token.kind)
  expected : ∀ kind, kind ∈ expected ↔ Viable (earlier.map Token.kind ++ [kind])

/-- The first numeral that overflows, with all tokens up to it the front of a sentence.
The infinity that it rounds to has the sign in front of the numeral. -/
structure OverflowsAt (value : Binary64) (earlier : List Token) (token : Token)
    (later : List Token) : Prop where
  tokens : source.tokens = earlier ++ token :: later
  kind : token.kind = .numeral
  overflows : token.Overflows
  first : ∀ other ∈ earlier, other.kind = .numeral → ¬other.Overflows
  value : value = .infinity (decide ((earlier.map Token.kind).getLast? = some .minus))
  viable : Viable ((earlier ++ [token]).map Token.kind)

end Source

/-- A refused token that breaks the syntax. -/
theorem Path.refusesToken {source : Source} {found : Token.Kind} {span : Span}
    {expected : List Token.Kind} {earlier later : List Token} {token : Token} {state : ParseState}
    (htokens : source.tokens = earlier ++ token :: later)
    (hpath : Path maxDepth .start earlier state)
    (hrefuses : Refuses state token (.unexpectedToken found span expected)) :
    source.RefusesToken found span expected earlier token later := by
  generalize herror : ParseError.unexpectedToken found span expected = error at hrefuses
  cases hrefuses with
  | unexpected hkind =>
      rw [ParseState.refuse, ParseError.unexpectedToken.injEq] at herror
      obtain ⟨rfl, rfl, rfl⟩ := herror
      refine ⟨htokens, rfl, rfl, hpath.viable, ?_, fun kind => (hpath.viable_concat_iff kind).symm⟩
      rw [List.map_append, List.map_singleton, hpath.viable_concat_iff]
      exact hkind
  | _ => cases herror

/-- A refused token that overflows. -/
theorem Path.overflowsAt {source : Source} {value : Binary64} {earlier later : List Token}
    {token : Token} {state : ParseState} (htokens : source.tokens = earlier ++ token :: later)
    (hpath : Path maxDepth .start earlier state)
    (hrefuses : Refuses state token (.construction (.notFinite value))) :
    source.OverflowsAt value earlier token later := by
  have hturn := hpath.turn_eq_magnitude_iff
  have hviable : ∀ kind ∈ state.expected, token.kind = kind →
      Viable ((earlier ++ [token]).map Token.kind) := by
    rintro _ hmem rfl
    rw [List.map_append, List.map_singleton, hpath.viable_concat_iff]
    exact hmem
  generalize herror : ParseError.construction (.notFinite value) = error at hrefuses
  cases hrefuses with
  | overflow hkind hoverflow =>
      cases herror
      refine ⟨htokens, hkind, hoverflow, hpath.not_overflows, ?_,
        hviable .numeral (by simp [ParseState.expected]) hkind⟩
      rw [decide_eq_false (fun hminus => by cases hturn.mpr hminus)]
  | negatedOverflow hkind hoverflow =>
      cases herror
      refine ⟨htokens, hkind, hoverflow, hpath.not_overflows, ?_,
        hviable .numeral (by simp [ParseState.expected]) hkind⟩
      rw [decide_eq_true (hturn.mp rfl)]
  | _ => cases herror

namespace Expression

variable {text : String}

theorem refusesToken_of_parse {found : Token.Kind} {span : Span} {expected : List Token.Kind}
    (hparse : parse text = .error (.unexpectedToken found span expected)) :
    ∃ earlier token later,
      (Source.ofString text).RefusesToken found span expected earlier token later := by
  rcases parse_eq_error hparse with
    ⟨earlier, token, later, state, htokens, hpath, hrefuses⟩ | ⟨last, _, hconclude⟩
  · exact ⟨earlier, token, later, hpath.refusesToken htokens hrefuses⟩
  · rcases ParseState.conclude_eq_error hconclude with ⟨_, h, _⟩ | ⟨_, _, _, h⟩ | ⟨_, h⟩ <;> cases h

theorem not_sentence_of_parse (hparse : parse text = .error .unexpectedEnd) :
    (Source.ofString text).stray? = none ∧
      Viable ((Source.ofString text).tokens.map Token.kind) ∧
      ¬Sentence ((Source.ofString text).tokens.map Token.kind) := by
  rcases parse_eq_error hparse with ⟨_, _, _, _, _, _, hrefuses⟩ | ⟨last, hpath, hconclude⟩
  · generalize herror : ParseError.unexpectedEnd = error at hrefuses
    cases hrefuses <;> cases herror
  · rcases ParseState.conclude_eq_error hconclude with ⟨hclean, _, hstop⟩ | ⟨_, _, _, h⟩ | ⟨_, h⟩
    · exact ⟨hclean, hpath.viable, fun hsentence => hstop (hpath.sentence_iff.mp hsentence)⟩
    · cases h
    · cases h

theorem firstStray_of_parse {character : Char} {index : Nat}
    (hparse : parse text = .error (.strayCharacter character index)) :
    (Source.ofString text).stray? = some (character, index) ∧
      (∃ before after, (Source.ofString text).FirstStray character index before after) ∧
      Viable ((Source.ofString text).tokens.map Token.kind) := by
  rcases parse_eq_error hparse with ⟨_, _, _, _, _, _, hrefuses⟩ | ⟨last, hpath, hconclude⟩
  · generalize herror : ParseError.strayCharacter character index = error at hrefuses
    cases hrefuses <;> cases herror
  · rcases ParseState.conclude_eq_error hconclude with ⟨_, h, _⟩ | ⟨_, _, hstray, h⟩ | ⟨_, h⟩
    · cases h
    · cases h
      exact ⟨hstray, Source.exists_firstStray _ hstray, hpath.viable⟩
    · cases h

theorem overflowsAt_of_parse {value : Binary64}
    (hparse : parse text = .error (.construction (.notFinite value))) :
    ∃ earlier token later, (Source.ofString text).OverflowsAt value earlier token later := by
  rcases parse_eq_error hparse with
    ⟨earlier, token, later, state, htokens, hpath, hrefuses⟩ | ⟨last, _, hconclude⟩
  · exact ⟨earlier, token, later, hpath.overflowsAt htokens hrefuses⟩
  · rcases ParseState.conclude_eq_error hconclude with ⟨_, h, _⟩ | ⟨_, _, _, h⟩ | ⟨_, h⟩ <;> cases h

/-- Syntax errors are found at the first place that breaks the grammar: at a token, with
exactly the kinds that could have stood there, at the end, or at the first character
that starts no token. The first numeral that overflows comes at a place of its own. -/
theorem parse_fails_where_syntax_breaks (text : String) :
    (∀ found span expected, parse text = .error (.unexpectedToken found span expected) →
      ∃ earlier token later,
        (Source.ofString text).RefusesToken found span expected earlier token later) ∧
    (parse text = .error .unexpectedEnd →
      (Source.ofString text).stray? = none ∧
        Viable ((Source.ofString text).tokens.map Token.kind) ∧
        ¬Sentence ((Source.ofString text).tokens.map Token.kind)) ∧
    (∀ character index, parse text = .error (.strayCharacter character index) →
      (Source.ofString text).stray? = some (character, index) ∧
        (∃ before after, (Source.ofString text).FirstStray character index before after) ∧
        Viable ((Source.ofString text).tokens.map Token.kind)) ∧
    (∀ value, parse text = .error (.construction (.notFinite value)) →
      ∃ earlier token later, (Source.ofString text).OverflowsAt value earlier token later) :=
  ⟨fun _ _ _ => refusesToken_of_parse, not_sentence_of_parse, fun _ _ => firstStray_of_parse,
    fun _ => overflowsAt_of_parse⟩

end Expression

end SumProduct
