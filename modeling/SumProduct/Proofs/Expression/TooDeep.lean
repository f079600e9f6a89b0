import SumProduct.Proofs.Expression.RoundTrip

/-!
# Canonical texts that are too deep

A tree above the limit on depth is refused at a place that its depth alone decides. One
level too many is found at the operation of the root, when its right operand ends. Any
more open one bracket too many first, before any operation is complete.
-/

namespace SumProduct

/-! ## Factors that are complete -/

/-- The tokens of a factor within the limits hand it to their level. -/
theorem Spells.foldlM_factor {tokens : List Token} {e : Expression}
    (hspells : Spells .factor tokens e) (hwell : ∀ token ∈ tokens, token.WellFormed)
    (hdepth : e.depth ≤ maxDepth) {level : Level} {outer : List Level}
    (hwithin : BracketsWithin maxDepth outer.length tokens) :
    tokens.foldlM ParseState.step ⟨.operand level, outer⟩ =
      (level.factor e).map fun phase => (⟨phase, outer⟩ : ParseState) := by
  cases hspells with
  | @numeral token literal hkind hdenotes =>
      obtain ⟨numeral, hread⟩ := (hwell token List.mem_cons_self).exists_ofString? hkind
      rw [List.foldlM_cons]
      simp only [ParseState.step, hkind, hdenotes.toLiteral hread, bind, Except.bind]
      cases level.factor (.lit literal) <;> rfl
  | @negated sign token literal hsign hkind hdenotes =>
      obtain ⟨numeral, hread⟩ := (hwell token (by simp)).exists_ofString? hkind
      rw [List.foldlM_cons]
      simp only [ParseState.step, hsign]
      change [token].foldlM ParseState.step ⟨.magnitude level, outer⟩ = _
      rw [List.foldlM_cons]
      simp only [ParseState.step, hkind, hdenotes.toLiteral hread, bind, Except.bind]
      cases level.factor (.lit literal) <;> rfl
  | @name token x hkind hname =>
      rw [List.foldlM_cons]
      simp only [ParseState.step, hkind, Token.toVariable_of_name hname, bind, Except.bind]
      cases level.factor (.var x) <;> rfl
  | @bracketed opening closing inner _ hopening hclosing hinner =>
      obtain ⟨hroom, hinside⟩ := hwithin.inside hopening
      obtain ⟨sum, term, hsum, rfl, hpath⟩ := hinner.reaches hdepth (level :: outer) hinside
      have hfirst : Path maxDepth ⟨.operand level, outer⟩ (opening :: inner)
          ⟨.operator sum term, level :: outer⟩ := .cons (.opened hopening hroom) hpath
      have hfold := hfirst.foldlM fun token hmem => hwell token (List.mem_append_left _ hmem)
      rw [foldlM_append_of_ok hfold, List.foldlM_cons]
      simp only [ParseState.step, hclosing, completeWaiting_of_fits hsum, bind, Except.bind]
      cases level.factor (joined .plus sum term) <;> rfl

/-! ## One bracket too many -/

/-- Some tokens are accepted up to a bracket inside too many others. -/
def OpensTooMany (state : ParseState) (tokens : List Token) : Prop :=
  ∃ before bracket after level outer, tokens = before ++ bracket :: after ∧
    bracket.kind = .openBracket ∧ Path maxDepth state before ⟨.operand level, outer⟩ ∧
    maxDepth ≤ outer.length

namespace OpensTooMany

variable {state middle : ParseState} {first second : List Token}

theorem append (hopens : OpensTooMany state first) (second : List Token) :
    OpensTooMany state (first ++ second) := by
  obtain ⟨before, bracket, after, level, outer, rfl, hkind, hpath, hlimit⟩ := hopens
  exact ⟨before, bracket, after ++ second, level, outer, by simp, hkind, hpath, hlimit⟩

theorem of_path (hpath : Path maxDepth state first middle) (hopens : OpensTooMany middle second) :
    OpensTooMany state (first ++ second) := by
  obtain ⟨before, bracket, after, level, outer, rfl, hkind, hrest, hlimit⟩ := hopens
  exact ⟨first ++ before, bracket, after, level, outer, by simp, hkind, hpath.append hrest, hlimit⟩

end OpensTooMany

namespace Expression

/-- A tree within the limits is read as the only factor of a term. -/
theorem path_tokens (e : Expression) (offset : Nat) (sum : Option Pending) (outer : List Level)
    (hdepth : e.depth ≤ maxDepth) (hroom : outer.length + e.depth ≤ maxDepth + 1) :
    Path maxDepth ⟨.operand ⟨sum, none⟩, outer⟩ (e.tokens offset) ⟨.operator sum e, outer⟩ :=
  (e.spells_tokens offset).reaches hdepth outer (e.bracketsWithin_tokens hroom offset) ⟨sum, none⟩
    (fits_none _ _ _)

/-- The level after a left operand and the sign of an operation. -/
def levelAfter (op : Operation) (left : Expression) (sign : Span) : Level :=
  match op with
  | .plus => ⟨some ⟨left, sign⟩, none⟩
  | .times => ⟨none, some ⟨left, sign⟩⟩

/-- A bracket, a left operand and a sign, if the operand is within the limits. -/
theorem path_left (op : Operation) (left : Expression) (offset : Nat) (level : Level)
    (outer : List Level) (hroom : outer.length < maxDepth)
    (hleft : outer.length + 1 + left.depth ≤ maxDepth + 1) :
    Path maxDepth ⟨.operand level, outer⟩
      (.standing .openBracket "(" offset ::
        (left.tokens (offset + 1) ++ [.standing op.kind op.symbol (left.signPlace offset)]))
      ⟨.operand (levelAfter op left ⟨left.signPlace offset, left.signPlace offset + 1⟩),
        level :: outer⟩ := by
  refine .cons (.opened rfl hroom) ?_
  have hoperand := left.path_tokens (offset + 1) none (level :: outer) (by omega) hleft
  cases op with
  | plus => exact hoperand.append (.single (.plus rfl (fits_none _ _ _)))
  | times => exact hoperand.append (.single (.times rfl))

/-- The tokens of a compound tree, cut behind its sign. -/
theorem tokens_binary (op : Operation) (left right : Expression) (offset : Nat) :
    (binary op left right).tokens offset =
      (Token.standing .openBracket "(" offset ::
        (left.tokens (offset + 1) ++ [.standing op.kind op.symbol (left.signPlace offset)])) ++
      (right.tokens (left.signPlace offset + 2) ++
        [.standing .closeBracket ")" (left.signPlace offset + 2 + right.text.utf8ByteSize)]) := by
  simp only [tokens, List.append_assoc, List.cons_append, List.nil_append]

/-- A tree without room for all of its brackets opens too many of them. -/
theorem opensTooMany_tokens (e : Expression) (offset : Nat) (level : Level) (outer : List Level)
    (houter : outer.length ≤ maxDepth) (hdeep : maxDepth + 1 < outer.length + e.depth) :
    OpensTooMany ⟨.operand level, outer⟩ (e.tokens offset) := by
  induction e generalizing offset level outer with
  | lit literal | var x =>
      rw [depth] at hdeep
      omega
  | binary op left right ihLeft ihRight =>
      rw [depth] at hdeep
      rw [tokens_binary]
      rcases Nat.lt_or_ge outer.length maxDepth with hroom | hfull
      · by_cases hleft : outer.length + 1 + left.depth ≤ maxDepth + 1
        · have hright := ihRight (left.signPlace offset + 2)
            (levelAfter op left ⟨left.signPlace offset, left.signPlace offset + 1⟩) (level :: outer)
            hroom (by rw [List.length_cons]; omega)
          exact .of_path (path_left op left offset level outer hroom hleft) (hright.append _)
        · have hinner := ihLeft (offset + 1) .start (level :: outer) hroom
            (by rw [List.length_cons]; omega)
          have hopening : Path maxDepth ⟨.operand level, outer⟩
              [.standing .openBracket "(" offset] ⟨.operand .start, level :: outer⟩ :=
            .single (.opened rfl hroom)
          exact (OpensTooMany.of_path hopening (hinner.append _)).append _
      · exact ⟨[], _, _, level, outer, rfl, rfl, .nil, hfull⟩

end Expression

/-! ## Where the text is refused -/

/-- A text whose first bracket inside `limit` others comes after the characters `before`. -/
structure Text.FirstBeyond (limit : Nat) (text : String) (before after : List Char) : Prop where
  text : text.toList = before ++ '(' :: after
  open_brackets : openBrackets before = limit
  first : ∀ front, front <+: before → openBrackets front ≤ limit

/-- A bracket that stands after as many open ones as the limit allows, none of them
beyond it. -/
theorem Source.StandsAt.firstBeyond {limit : Nat} {text : String} {earlier : List Token}
    {bracket : Token} {before after : List Char}
    (hstands : (ofString text).StandsAt earlier bracket before after)
    (hbracket : bracket.text.toList = ['(']) (hopen : openBrackets earlier = limit)
    (hwithin : BracketsWithin limit 0 earlier) : Text.FirstBeyond limit text before after := by
  refine ⟨?_, hstands.brackets.trans hopen, ?_⟩
  · have hrest := hstands.text
    rwa [hbracket] at hrest
  · intro front hfront
    obtain ⟨read, hread, hcount⟩ := hstands.fronts front hfront
    have hle := hwithin read hread
    rw [openBrackets, ← hcount] at hle
    omega

/-- A state with no room for a bracket has read as many as the limit allows. -/
theorem Path.openBrackets_eq {limit : Nat} {tokens : List Token} {last : ParseState}
    (hpath : Path limit .start tokens last) (hlimit : 0 < limit)
    (hfull : limit ≤ last.outer.length) : openBrackets tokens = limit := by
  have houter := (hpath.within hlimit (ParseState.within_start limit)).outer
  have hlength := hpath.outer_length
  simp only [ParseState.start, List.length_nil] at hlength
  omega

namespace Expression

theorem parse_eq_error_of_foldlM {text : String} {error : ParseError}
    (hfold : (Source.ofString text).tokens.foldlM ParseState.step .start = .error error) :
    parse text = .error error := by
  rw [parse_eq_foldlM, hfold]
  rfl

/-- A text that opens too many brackets is refused at the first one beyond the limit. -/
theorem parse_of_opensTooMany {text : String}
    (hopens : OpensTooMany .start (Source.ofString text).tokens) :
    ∃ before after, Text.FirstBeyond maxDepth text before after ∧
      parse text = .error (.tooDeep ⟨Text.byteSize before, Text.byteSize before + 1⟩) := by
  obtain ⟨earlier, bracket, later, level, outer, htokens, hkind, hpath, hlimit⟩ := hopens
  obtain ⟨before, after, hstands⟩ := Source.exists_standsAt _ htokens
  have hpositive : 0 < maxDepth := by decide
  have hwell := Source.wellFormed_of_mem_tokens (.ofString text)
  rw [htokens] at hwell
  have hbracket := (hwell bracket (by simp)).text_of_openBracket hkind
  refine ⟨before, after, hstands.firstBeyond hbracket (hpath.openBrackets_eq hpositive hlimit)
    (hpath.bracketsWithin hpositive), ?_⟩
  have hspan : bracket.span = ⟨Text.byteSize before, Text.byteSize before + 1⟩ := by
    have hsize : bracket.text.utf8ByteSize = 1 := by
      rw [← Text.byteSize_toList, hbracket]
      rfl
    rw [hstands.span, hsize, Source.ofString, Nat.zero_add]
  have hfold := hpath.foldlM fun token hmem => hwell token (List.mem_append_left _ hmem)
  apply parse_eq_error_of_foldlM
  rw [htokens, foldlM_append_of_ok hfold, List.foldlM_cons]
  simp only [ParseState.step, hkind, if_pos hlimit, hspan]
  rfl

/-- The end of a right operand that makes the operation too deep, with the level around
still open. -/
theorem foldlM_right_too_deep {op : Operation} {left right : Expression} {sign : Span}
    {offset : Nat} {level : Level} {closing : Token} (hclosing : closing.kind = .closeBracket)
    (hwell : ∀ token ∈ right.tokens offset, token.WellFormed) (hright : right.depth ≤ maxDepth)
    (hdeep : maxDepth < (binary op left right).depth) :
    (right.tokens offset ++ [closing]).foldlM ParseState.step
      ⟨.operand (levelAfter op left sign), [level]⟩ = .error (.tooDeep sign) := by
  have hroom : [level].length + right.depth ≤ maxDepth + 1 := by
    rw [List.length_singleton]
    omega
  cases op with
  | plus =>
      have hpath := right.path_tokens offset (some ⟨left, sign⟩) [level] hright hroom
      have hcomplete : completeWaiting .plus (some ⟨left, sign⟩) right = .error (.tooDeep sign) :=
        completeWaiting_eq_error_iff.mpr ⟨_, rfl, hdeep, rfl⟩
      rw [levelAfter, foldlM_append_of_ok (hpath.foldlM hwell), List.foldlM_cons]
      simp only [ParseState.step, hclosing, hcomplete]
      rfl
  | times =>
      have hfactor : (levelAfter .times left sign).factor right = .error (.tooDeep sign) :=
        Level.factor_eq_error_iff.mpr ⟨_, rfl, hdeep, rfl⟩
      apply foldlM_append_of_error
      rw [(right.spells_tokens offset).foldlM_factor hwell hright
        (right.bracketsWithin_tokens hroom offset), hfactor]
      rfl

/-- The sign of a root stands behind its bracket, its left operand and a blank. -/
theorem signPlace_zero (left : Expression) :
    left.signPlace 0 = ("(" ++ left.text ++ " ").utf8ByteSize := by
  rw [String.utf8ByteSize_append, String.utf8ByteSize_append, signPlace]
  rfl

/-- One level too many is found at the operation of the root, once its right operand
is complete. -/
theorem parse_text_binary_too_deep (op : Operation) (left right : Expression)
    (hdepth : (binary op left right).depth = maxDepth + 1) :
    parse (binary op left right).text =
      .error (.tooDeep ⟨left.signPlace 0, left.signPlace 0 + 1⟩) := by
  have hdeep : maxDepth < (binary op left right).depth := by omega
  have hwell := Source.wellFormed_of_mem_tokens (.ofString (binary op left right).text)
  apply parse_eq_error_of_foldlM
  rw [tokens_ofString_text, tokens_binary] at hwell ⊢
  rw [depth] at hdepth
  have hpath := path_left op left 0 .start [] (by decide) (by rw [List.length_nil]; omega)
  have hfold := hpath.foldlM fun token hmem => hwell token (List.mem_append_left _ hmem)
  rw [ParseState.start, foldlM_append_of_ok hfold]
  exact foldlM_right_too_deep rfl
    (fun token hmem => hwell token (List.mem_append_right _ (List.mem_append_left _ hmem)))
    (by omega) hdeep

/-- The canonical text of a tree above the limit on depth is refused for depth: at the
operation of its root if one level is too many, and at its first bracket inside `maxDepth`
others if there are more. -/
theorem parse_text_too_deep (e : Expression) (hdeep : maxDepth < e.depth) :
    (∃ span, parse e.text = .error (.tooDeep span)) ∧
    (e.depth = maxDepth + 1 →
      ∃ op left right, e = binary op left right ∧
        parse e.text = .error (.tooDeep
          ⟨("(" ++ left.text ++ " ").utf8ByteSize, ("(" ++ left.text ++ " ").utf8ByteSize + 1⟩)) ∧
    (maxDepth + 1 < e.depth →
      ∃ before after, Text.FirstBeyond maxDepth e.text before after ∧
        parse e.text = .error (.tooDeep ⟨Text.byteSize before, Text.byteSize before + 1⟩)) := by
  have hone : e.depth = maxDepth + 1 → ∃ op left right, e = binary op left right ∧
      parse e.text = .error (.tooDeep
        ⟨("(" ++ left.text ++ " ").utf8ByteSize, ("(" ++ left.text ++ " ").utf8ByteSize + 1⟩) := by
    intro hdepth
    cases e with
    | lit literal | var x => exact absurd hdeep (Nat.not_lt.mpr (show 1 ≤ maxDepth by decide))
    | binary op left right =>
        refine ⟨op, left, right, rfl, ?_⟩
        rw [← signPlace_zero]
        exact parse_text_binary_too_deep op left right hdepth
  have hmore : maxDepth + 1 < e.depth →
      ∃ before after, Text.FirstBeyond maxDepth e.text before after ∧
        parse e.text = .error (.tooDeep ⟨Text.byteSize before, Text.byteSize before + 1⟩) := by
    intro hdepth
    apply parse_of_opensTooMany
    rw [tokens_ofString_text]
    exact e.opensTooMany_tokens 0 .start [] (Nat.zero_le maxDepth) (by rw [List.length_nil]; omega)
  refine ⟨?_, hone, hmore⟩
  rcases Nat.eq_or_lt_of_le (Nat.succ_le_of_lt hdeep) with hdepth | hdepth
  · obtain ⟨_, _, _, _, hparse⟩ := hone hdepth.symm
    exact ⟨_, hparse⟩
  · obtain ⟨_, _, _, hparse⟩ := hmore hdepth
    exact ⟨_, hparse⟩

/-- A sum of sums, each the left operand of the next. -/
def leftSums : Nat → Expression
  | 0 => var ⟨"x", by decide⟩
  | count + 1 => binary .plus (leftSums count) (var ⟨"x", by decide⟩)

theorem depth_leftSums (count : Nat) : (leftSums count).depth = count + 1 := by
  induction count with
  | zero => rfl
  | succ count ih =>
      simp only [leftSums, depth, ih]
      omega

theorem utf8ByteSize_text_leftSums (count : Nat) :
    (leftSums count).text.utf8ByteSize = 6 * count + 1 := by
  induction count with
  | zero => rfl
  | succ count ih =>
      have hsize := utf8ByteSize_text_binary .plus (leftSums count) (leftSums 0) 0
      rw [signPlace, ih] at hsize
      change 0 + (leftSums (count + 1)).text.utf8ByteSize = _ + 2 + 1 + 1 at hsize
      omega

/-- One sum too many, and one more. -/
theorem parse_text_leftSums :
    parse (leftSums 256).text = .error (.tooDeep ⟨1533, 1534⟩) ∧
      ∃ before after, Text.FirstBeyond maxDepth (leftSums 257).text before after ∧
        parse (leftSums 257).text =
          .error (.tooDeep ⟨Text.byteSize before, Text.byteSize before + 1⟩) := by
  constructor
  · have hdeep : maxDepth < (leftSums 256).depth := by
      rw [depth_leftSums]
      decide
    obtain ⟨_, left, _, htree, hparse⟩ :=
      (parse_text_too_deep (leftSums 256) hdeep).2.1 (depth_leftSums 256)
    have hleft : leftSums 255 = left := (binary.inj htree).2.1
    rw [hparse, ← hleft, ← signPlace_zero, signPlace, utf8ByteSize_text_leftSums]
  · have hdeep : maxDepth < (leftSums 257).depth := by
      rw [depth_leftSums]
      decide
    refine (parse_text_too_deep (leftSums 257) hdeep).2.2 ?_
    rw [depth_leftSums]
    decide

end Expression

end SumProduct
