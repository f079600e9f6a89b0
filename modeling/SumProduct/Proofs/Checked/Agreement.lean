import SumProduct.Proofs.Checked.Steps

/-!
# The descent agrees with the run of the states

What a part of the descent reads, the run of the states reads as well, whatever waits for it
and whatever brackets are open around it, and where the descent refuses the text the run
refuses it for the same reason. There is no third outcome: no check of the descent fails.
-/

namespace SumProduct

/-! ## Leaves -/

theorem Literal.checkedOfValue_eq (value : Binary64) :
    checkedOfValue value =
      (ofValue value).mapError fun error => .error (.construction error) := by
  rw [checkedOfValue]
  cases hvalue : ofValue value with
  | error error => rfl
  | ok literal =>
      change (if literal.value.isFinite = true then _ else _) = _
      rw [if_pos literal.finite]
      rfl

theorem Variable.checkedOfName_eq (name : String) :
    checkedOfName name =
      (ofName name).mapError fun error => .error (.construction error) := by
  rw [checkedOfName]
  cases hname : ofName name with
  | error error => rfl
  | ok x =>
      change (if isValidName x.name = true then _ else _) = _
      rw [if_pos x.valid]
      rfl

namespace Token

variable {token : Token}

theorem checkedLiteral_eq (hkind : token.kind = .numeral) (negative : Bool) :
    token.checkedLiteral negative = (token.toLiteral negative).mapError .error := by
  rw [checkedLiteral, if_pos hkind, toLiteral]
  cases Numeral.ofString? token.text with
  | none => rfl
  | some numeral =>
      change (Literal.checkedOfValue (numeral.signed negative)).map _ =
        ((Expression.ofValue (numeral.signed negative)).mapError _).mapError _
      rw [Literal.checkedOfValue_eq, Expression.ofValue]
      cases Literal.ofValue (numeral.signed negative) <;> rfl

theorem checkedVariable_eq (token : Token) :
    token.checkedVariable = token.toVariable.mapError .error := by
  rw [checkedVariable, Variable.checkedOfName_eq, toVariable, Expression.ofName]
  cases Variable.ofName token.text <;> rfl

end Token

/-! ## Levels of an operation -/

namespace Operation

theorem checkedOperation_kind (op : Operation) : op.kind.checkedOperation = .ok op := by
  cases op <;> rfl

/-- A level at which an operand of the operation comes next. A sum waits for whole terms. -/
def before (op : Operation) (sum waiting : Option Pending) : Level :=
  match op with
  | .times => ⟨sum, waiting⟩
  | .plus => ⟨waiting, none⟩

/-- What may come next when operands of the operation have been read. -/
def after (op : Operation) (sum : Option Pending) (e : Expression) : Phase :=
  match op with
  | .times => .operator sum e
  | .plus => .operator none e

/-- What follows does not make an operand of the operation longer. -/
def Settled (op : Operation) (rest : Source) : Prop :=
  match op with
  | .times => True
  | .plus => rest.kind? ≠ some .times

/-- The sign of an operation makes what has been read wait for the next operand. -/
theorem step_after {op : Operation} {sum : Option Pending} {e : Expression} {outer : List Level}
    {token : Token} (hkind : token.kind = op.kind) :
    ParseState.step ⟨op.after sum e, outer⟩ token =
      .ok ⟨.operand (op.before sum (some ⟨e, token.span⟩)), outer⟩ := by
  cases op with
  | plus =>
      simp only [ParseState.step, after, hkind, kind]
      rfl
  | times =>
      simp only [ParseState.step, after, hkind, kind]
      rfl

end Operation

/-- A sum that waits for a term gets it before anything that does not extend the term. -/
theorem ParseState.run_operator {source : Source} (hends : source.kind? ≠ some .times)
    (sum : Option Pending) (term : Expression) (outer : List Level) :
    run ⟨.operator sum term, outer⟩ source =
      completeWaiting .plus sum term >>= fun whole => run ⟨.operator none whole, outer⟩ source := by
  have hnone : ∀ whole, completeWaiting .plus none whole = .ok whole := fun _ => rfl
  cases hhead : source.head with
  | done =>
      simp only [run_of_done hhead, finish, hnone]
      cases completeWaiting .plus sum term <;> rfl
  | stray character index =>
      simp only [run_of_stray hhead, stray, hnone]
      cases completeWaiting .plus sum term <;> rfl
  | token token rest =>
      have hkind : token.kind ≠ .times := by simpa [Source.kind?, hhead] using hends
      simp only [run_of_token hhead, step, hnone]
      cases hcomplete : completeWaiting .plus sum term with
      | error error => cases hother : token.kind <;> simp_all <;> rfl
      | ok whole => cases hother : token.kind <;> simp_all <;> rfl

/-- A token that cannot follow an expression is refused. -/
theorem ParseState.run_of_unexpected {source rest : Source} {token : Token}
    (hhead : source.head = .token token rest) {e : Expression} {outer : List Level}
    (hkind : token.kind ∉ expected ⟨.operator none e, outer⟩) :
    run ⟨.operator none e, outer⟩ source =
      .error (refuse ⟨.operator none e, outer⟩ token) := by
  have hnone : completeWaiting .plus none e = .ok e := rfl
  rw [run_of_token hhead]
  cases outer with
  | nil => cases hother : token.kind <;> simp_all [expected, step] <;> rfl
  | cons level outer => cases hother : token.kind <;> simp_all [expected, step] <;> rfl

namespace Reading

/-! ## Outcomes -/

/-- A part of the descent, with the given number of open brackets, reads an expression and
stops in front of some source, or refuses the text, where more brackets may be open. It does
not fault. -/
inductive Outcome (nesting : Nat) (found : Expression → Source → Prop)
    (refused : ParseError → Prop) : Traced Expression → Prop
  | found {events : List Event} {e : Expression} {reader : Reader} {rest : Source}
      (hat : reader.At rest) (hnesting : reader.nesting = nesting) (hfound : found e rest) :
      Outcome nesting found refused ⟨events, .ok e, reader⟩
  | refused {events : List Event} {error : ParseError} {reader : Reader}
      (hnesting : nesting ≤ reader.nesting) (hrefused : refused error) :
      Outcome nesting found refused ⟨events, .error (.error error), reader⟩

section Outcome

variable {α : Type} {nesting : Nat} {found found' : Expression → Source → Prop}
  {refused refused' : ParseError → Prop} {reader later : Reader} {events : List Event}

/-- Outcomes that mean less. -/
theorem Outcome.imp {traced : Traced Expression} (houtcome : Outcome nesting found refused traced)
    (hfound : ∀ e rest, found e rest → found' e rest)
    (hrefused : ∀ error, refused error → refused' error) :
    Outcome nesting found' refused' traced := by
  cases houtcome with
  | found hat hnesting h => exact .found hat hnesting (hfound _ _ h)
  | refused hnesting h => exact .refused hnesting (hrefused _ h)

/-- What is done on the way changes no outcome. -/
theorem Outcome.with_events {traced : Traced Expression}
    (houtcome : Outcome nesting found refused traced) (events : List Event) :
    Outcome nesting found refused { traced with events } := by
  cases houtcome with
  | found hat hnesting h => exact .found hat hnesting h
  | refused hnesting h => exact .refused hnesting h

/-- An outcome behind something with a result. -/
theorem Outcome.bind_of_ok {x : Reading α} {a : α} (hx : x.run reader = ⟨events, .ok a, later⟩)
    {f : α → Reading Expression} (houtcome : Outcome nesting found refused ((f a).run later)) :
    Outcome nesting found refused ((x >>= f).run reader) := by
  rw [run_bind_of_ok hx]
  exact houtcome.with_events _

/-- An outcome behind a part of the descent. -/
theorem Outcome.bind {x : Reading Expression} {f : Expression → Reading Expression}
    (houtcome : Outcome nesting found refused (x.run reader))
    (hfound : ∀ e later rest, later.At rest → later.nesting = nesting → found e rest →
      Outcome nesting found' refused' ((f e).run later))
    (hrefused : ∀ error, refused error → refused' error) :
    Outcome nesting found' refused' ((x >>= f).run reader) := by
  generalize hx : x.run reader = done at houtcome
  cases houtcome with
  | found hat hnesting h => exact .bind_of_ok hx (hfound _ _ _ hat hnesting h)
  | refused hnesting h =>
      rw [run_bind_of_error hx]
      exact .refused hnesting (hrefused _ h)

/-- A bracket can be left behind whatever was read in it, and behind every refusal: that may
stand inside of more brackets, but never outside of this one. -/
theorem Outcome.inside {part : Reading Expression}
    (houtcome : Outcome (nesting + 1) found refused (part.run reader)) :
    Outcome nesting found refused ((inside part).run reader) := by
  generalize hread : part.run reader = read at houtcome
  cases houtcome with
  | @found events e later rest hat hlater hfound =>
      have hat : Reader.At { later with nesting } rest := hat
      rw [inside_of_ok hread hlater]
      exact .found hat rfl hfound
  | @refused events error later hlater hrefused =>
      obtain ⟨more, hmore⟩ := Nat.exists_eq_add_of_lt hlater
      rw [inside_of_error hread hmore]
      exact .refused (Nat.le_add_right nesting more) hrefused

end Outcome

/-- A run that reads an operand of an operation and joins it to what waits. -/
structure RunsOperand (op : Operation) (nesting : Nat) (source : Source) (e : Expression)
    (rest : Source) : Prop where
  shorter : rest.rest.length ≤ source.rest.length
  settled : op.Settled rest
  run_eq : ∀ (outer : List Level) (sum waiting : Option Pending), outer.length = nesting →
    ParseState.run ⟨.operand (op.before sum waiting), outer⟩ source =
      completeWaiting op waiting e >>= fun whole => ParseState.run ⟨op.after sum whole, outer⟩ rest

/-- A run that refuses the text at an operand of an operation, whatever waits for it. -/
def RefusesOperand (op : Operation) (nesting : Nat) (source : Source) (error : ParseError) :
    Prop :=
  ∀ (outer : List Level) (sum waiting : Option Pending), outer.length = nesting →
    ParseState.run ⟨.operand (op.before sum waiting), outer⟩ source = .error error

/-- A part of the descent that reads an operand of an operation from any source that is short
enough. -/
def ReadsOperand (op : Operation) (nesting rounds : Nat) (operand : Reading Expression) : Prop :=
  ∀ (reader : Reader) (source : Source), reader.At source → reader.nesting = nesting →
    source.rest.length < rounds →
      Outcome nesting (RunsOperand op nesting source) (RefusesOperand op nesting source)
        (operand.run reader)

/-- A run that reads operands of an operation up to the end of their chain. -/
structure RunsChain (op : Operation) (nesting : Nat) (phase : Option Pending → Phase)
    (source : Source) (e : Expression) (rest : Source) : Prop where
  shorter : rest.rest.length ≤ source.rest.length
  settled : op.Settled rest
  ends : rest.kind? ≠ some op.kind
  run_eq : ∀ (outer : List Level) (sum : Option Pending), outer.length = nesting →
    ParseState.run ⟨phase sum, outer⟩ source = ParseState.run ⟨op.after sum e, outer⟩ rest

/-- A run that refuses the text at operands of a chain. -/
def RefusesChain (nesting : Nat) (phase : Option Pending → Phase) (source : Source)
    (error : ParseError) : Prop :=
  ∀ (outer : List Level) (sum : Option Pending), outer.length = nesting →
    ParseState.run ⟨phase sum, outer⟩ source = .error error

/-! ## Chains -/

variable {op : Operation} {nesting rounds : Nat} {operand : Reading Expression} {reader : Reader}
  {source : Source}

/-- An outcome holds where the run comes first to the place that it is about. -/
theorem Outcome.of_run {phase before : Option Pending → Phase} {rest : Source}
    {traced : Traced Expression}
    (houtcome : Outcome nesting (RunsChain op nesting phase rest)
      (RefusesChain nesting phase rest) traced)
    (hshorter : rest.rest.length ≤ source.rest.length)
    (hrun : ∀ (outer : List Level) (sum : Option Pending), outer.length = nesting →
      ParseState.run ⟨before sum, outer⟩ source = ParseState.run ⟨phase sum, outer⟩ rest) :
    Outcome nesting (RunsChain op nesting before source) (RefusesChain nesting before source)
      traced := by
  refine houtcome.imp (fun e last hlast => ?_) (fun error hrefused => ?_)
  · exact ⟨hlast.shorter.trans hshorter, hlast.settled, hlast.ends,
      fun outer sum houter => (hrun outer sum houter).trans (hlast.run_eq outer sum houter)⟩
  · exact fun outer sum houter => (hrun outer sum houter).trans (hrefused outer sum houter)

/-- The operands after the first are read as the run reads them. -/
theorem more_outcome (hoperand : ReadsOperand op nesting rounds operand) (left : Expression)
    {count : Nat} (hat : reader.At source) (hnesting : reader.nesting = nesting)
    (hsettled : op.Settled source) (hcount : source.rest.length < count) (hle : count ≤ rounds) :
    Outcome nesting (RunsChain op nesting (fun sum => op.after sum left) source)
      (RefusesChain nesting (fun sum => op.after sum left) source)
      ((more op.kind op operand count left left.depth).run reader) := by
  -- Every round takes a sign at least, so the text runs out before the rounds do.
  induction count generalizing left reader source with
  | zero => exact absurd hcount (Nat.not_lt_zero _)
  | succ count ih =>
      obtain ⟨peeked, hpeek, hat, -, hpeeked⟩ := peek_eq hat
      refine .bind_of_ok hpeek ?_
      split
      next hkind =>
        obtain ⟨token, rest, hhead, hkind⟩ := Source.exists_token_of_kind? hkind
        obtain ⟨advanced, hadvance, hrest, -, hadvanced⟩ := advance_of_token hat hhead
        have hgoOn : (goOn op).run peeked = _ := (run_bind_of_ok rfl _).trans (congrArg _ hadvance)
        have hshorter := Source.length_lt_of_head hhead
        have hrun : ∀ outer sum, ParseState.run ⟨op.after sum left, outer⟩ source =
            ParseState.run ⟨.operand (op.before sum (some ⟨left, token.span⟩)), outer⟩ rest := by
          intro outer sum
          rw [ParseState.run_of_token hhead, Operation.step_after hkind]
          rfl
        have hright := hoperand advanced rest hrest (hadvanced.trans (hpeeked.trans hnesting))
          (by omega)
        refine .bind_of_ok hgoOn (hright.bind (fun right later after hat hlater hfound => ?_)
          (fun error hrefused outer sum houter => ?_))
        · have hjoin : ∀ outer sum, outer.length = nesting →
              ParseState.run ⟨op.after sum left, outer⟩ source =
                Pending.complete ⟨left, token.span⟩ op right >>= fun whole =>
                  ParseState.run ⟨op.after sum whole, outer⟩ after :=
            fun outer sum houter => (hrun outer sum).trans (hfound.run_eq outer sum _ houter)
          simp only [Pending.complete] at hjoin
          -- The depth that is counted along is the depth of the tree that is built.
          change Outcome _ _ _ (Reading.run (if maxDepth < (Expression.binary op left right).depth
            then _ else _) later)
          split
          next hdeep =>
            refine .refused hlater.ge (fun outer sum houter => ?_)
            rw [hjoin outer sum houter, if_pos hdeep]
            rfl
          next hshallow =>
            have hshorter' := hfound.shorter
            refine (ih (.binary op left right) hat hlater hfound.settled (by omega)
              (by omega)).of_run (by omega) (fun outer sum houter => ?_)
            rw [hjoin outer sum houter, if_neg hshallow]
            rfl
        · rw [hrun, hrefused outer sum _ houter]
      next hkind =>
        exact .found hat (hpeeked.trans hnesting)
          ⟨Nat.le_refl _, hsettled, hkind, fun _ _ _ => rfl⟩

/-- A chain is read as the run reads it. -/
theorem chain_outcome (hoperand : ReadsOperand op nesting rounds operand) (hat : reader.At source)
    (hnesting : reader.nesting = nesting) (hrounds : source.rest.length < rounds) :
    Outcome nesting (RunsChain op nesting (fun sum => .operand (op.before sum none)) source)
      (RefusesChain nesting (fun sum => .operand (op.before sum none)) source)
      ((chain op.kind operand rounds).run reader) := by
  have hop : (quiet op.kind.checkedOperation).run reader = ⟨[], .ok op, reader⟩ := by
    rw [op.checkedOperation_kind]
    rfl
  have hleft := hoperand reader source hat hnesting hrounds
  refine .bind_of_ok hop (hleft.bind (fun left later rest hat hlater hfound => ?_)
    (fun error hrefused outer sum houter => hrefused outer sum none houter))
  have hshorter := hfound.shorter
  have hmore := more_outcome hoperand left hat hlater hfound.settled (by omega)
    (Nat.le_refl rounds)
  exact hmore.of_run hshorter (fun outer sum houter => hfound.run_eq outer sum none houter)

/-- A chain of factors is a term, an operand of sums. -/
theorem readsOperand_term (hfactor : ReadsOperand .times nesting rounds operand) :
    ReadsOperand .plus nesting rounds (chain .times operand rounds) := by
  intro reader source hat hnesting hrounds
  refine (chain_outcome hfactor hat hnesting hrounds).imp (fun e rest hterm => ?_)
    (fun error hrefused => ?_)
  · refine ⟨hterm.shorter, hterm.ends, fun outer sum waiting houter => ?_⟩
    have hrun := hterm.run_eq outer waiting houter
    exact hrun.trans (ParseState.run_operator hterm.ends waiting e outer)
  · exact fun outer sum waiting houter => hrefused outer waiting houter

/-- A chain of terms is an expression. -/
theorem expression_outcome {levels : Nat}
    (hfactor : ReadsOperand .times nesting rounds (factor rounds levels)) (hat : reader.At source)
    (hnesting : reader.nesting = nesting) (hrounds : source.rest.length < rounds) :
    Outcome nesting (RunsChain .plus nesting (fun sum => .operand (Operation.plus.before sum none))
        source)
      (RefusesChain nesting (fun sum => .operand (Operation.plus.before sum none)) source)
      ((expression rounds levels).run reader) :=
  (chain_outcome (readsOperand_term hfactor) hat hnesting hrounds).with_events _

/-! ## Factors -/

/-- A factor joins the product that waits for it. -/
theorem run_factor (outer : List Level) (sum waiting : Option Pending) (e : Expression)
    (rest : Source) :
    ((Level.factor ⟨sum, waiting⟩ e).bind fun phase => ParseState.run ⟨phase, outer⟩ rest) =
      completeWaiting .times waiting e >>= fun whole =>
        ParseState.run ⟨.operator sum whole, outer⟩ rest := by
  rw [Level.factor]
  cases completeWaiting .times waiting e <;> rfl

/-- The steps that take a leaf into a level. -/
theorem run_leaf (reading : Except ParseError Expression) (level : Level) (outer : List Level)
    (rest : Source) :
    ((do
      let factor ← reading
      return (⟨← level.factor factor, outer⟩ : ParseState)) >>= fun next => next.run rest) =
      reading.bind fun e =>
        (level.factor e).bind fun phase => ParseState.run ⟨phase, outer⟩ rest := by
  cases reading with
  | error error => rfl
  | ok e =>
      change ((level.factor e >>= fun phase => pure (⟨phase, outer⟩ : ParseState)) >>= _) =
        (level.factor e).bind _
      cases level.factor e <;> rfl

/-- A leaf is read before what waits for it is looked at. -/
theorem leaf_outcome {rest : Source} (hat : reader.At rest) (hnesting : reader.nesting = nesting)
    (hshorter : rest.rest.length ≤ source.rest.length) {leaf : Except ParseError Expression}
    (hrun : ∀ (outer : List Level) (level : Level),
      ParseState.run ⟨.operand level, outer⟩ source = leaf.bind fun e =>
        (level.factor e).bind fun phase => ParseState.run ⟨phase, outer⟩ rest) :
    Outcome nesting (RunsOperand .times nesting source) (RefusesOperand .times nesting source)
      ((quiet (leaf.mapError .error)).run reader) := by
  cases leaf with
  | error error =>
      exact .refused hnesting.ge (fun outer sum waiting _ => hrun outer ⟨sum, waiting⟩)
  | ok e =>
      exact .found hat hnesting ⟨hshorter, trivial, fun outer sum waiting _ =>
        (hrun outer ⟨sum, waiting⟩).trans (run_factor outer sum waiting e rest)⟩

/-- A text that is refused at its first token is refused as any factor. -/
theorem refused_outcome {events : List Event} {error : ParseError}
    (hnesting : nesting ≤ reader.nesting)
    (hrun : ∀ (outer : List Level) (level : Level), outer.length = nesting →
      ParseState.run ⟨.operand level, outer⟩ source = .error error) :
    Outcome nesting (RunsOperand .times nesting source) (RefusesOperand .times nesting source)
      ⟨events, .error (.error error), reader⟩ :=
  .refused hnesting (fun outer sum waiting houter => hrun outer ⟨sum, waiting⟩ houter)

/-- Where a factor cannot do without a token and there is none, the text is refused. -/
theorem advance_outcome {last : Source} {state : List Level → Level → ParseState}
    {f : Token → Reading Expression} (hat : reader.At last) (hnone : last.kind? = none)
    (hnesting : reader.nesting = nesting)
    (hneedy : ∀ outer level, (state outer level).Needy)
    (hrun : ∀ (outer : List Level) (level : Level), outer.length = nesting →
      ParseState.run ⟨.operand level, outer⟩ source = (state outer level).run last) :
    Outcome nesting (RunsOperand .times nesting source) (RefusesOperand .times nesting source)
      ((advance >>= f).run reader) := by
  obtain ⟨error, later, hadvance, hlater, hrefuses⟩ := advance_of_kind?_eq_none hat hnone
  rw [run_bind_of_error hadvance]
  exact refused_outcome (hlater.trans hnesting).ge fun outer level houter =>
    (hrun outer level houter).trans (hrefuses _ (hneedy outer level))

/-- A numeral after a minus sign is read as the run reads it. -/
theorem negated_outcome {rest : Source} (hat : reader.At rest) (hnesting : reader.nesting = nesting)
    (hshorter : rest.rest.length ≤ source.rest.length)
    (hrun : ∀ (outer : List Level) (level : Level),
      ParseState.run ⟨.operand level, outer⟩ source =
        ParseState.run ⟨.magnitude level, outer⟩ rest) :
    Outcome nesting (RunsOperand .times nesting source) (RefusesOperand .times nesting source)
      (negated.run reader) := by
  cases hkind? : rest.kind? with
  | none =>
      exact advance_outcome hat hkind? hnesting (fun _ _ => ⟨rfl, fun _ _ => rfl⟩)
        (fun outer level _ => hrun outer level)
  | some kind =>
      obtain ⟨token, last, hhead, -⟩ := Source.exists_token_of_kind? hkind?
      obtain ⟨advanced, hadvance, hlast, -, hadvanced⟩ := advance_of_token hat hhead
      have hnest := hadvanced.trans hnesting
      have hshorter' := Source.length_lt_of_head hhead
      refine .bind_of_ok hadvance ?_
      split
      next hkind =>
        rw [Token.checkedLiteral_eq hkind]
        refine leaf_outcome hlast hnest (by omega) (fun outer level => ?_)
        rw [hrun, ParseState.run_of_token hhead]
        simp only [ParseState.step, hkind]
        exact run_leaf _ level outer last
      next hkind =>
        refine refused_outcome hnest.ge (fun outer level _ => ?_)
        rw [hrun, ParseState.run_of_token hhead]
        simp only [ParseState.step]
        rfl

/-- The bracket that closes an expression is read as the run reads it. -/
theorem closed_outcome {e : Expression} {last : Source} (hat : reader.At last)
    (hnesting : reader.nesting = nesting) (hshorter : last.rest.length ≤ source.rest.length)
    (hends : last.kind? ≠ some .plus) (hsettled : last.kind? ≠ some .times)
    (hrun : ∀ (outer : List Level) (level : Level), outer.length = nesting →
      ParseState.run ⟨.operand level, outer⟩ source =
        ParseState.run ⟨.operator none e, level :: outer⟩ last) :
    Outcome nesting (RunsOperand .times nesting source) (RefusesOperand .times nesting source)
      ((closed e).run reader) := by
  cases hkind? : last.kind? with
  | none =>
      exact advance_outcome hat hkind? hnesting (fun _ _ => ⟨rfl, fun _ _ => rfl⟩) hrun
  | some kind =>
      obtain ⟨closing, behind, hlast, -⟩ := Source.exists_token_of_kind? hkind?
      obtain ⟨advanced, hadvance, hbehind, -, hadvanced⟩ := advance_of_token hat hlast
      have hnest := hadvanced.trans hnesting
      have hshorter' := Source.length_lt_of_head hlast
      refine .bind_of_ok hadvance ?_
      split
      next hclosing =>
        refine .found hbehind hnest ⟨by omega, trivial, fun outer sum waiting houter => ?_⟩
        refine (hrun outer ⟨sum, waiting⟩ houter).trans ?_
        rw [ParseState.run_of_token hlast]
        simp only [ParseState.step, hclosing]
        exact (run_leaf (.ok e) ⟨sum, waiting⟩ outer behind).trans
          (run_factor outer sum waiting e behind)
      next hclosing =>
        -- The chains inside end in front of no sign, so any other token is unexpected.
        refine refused_outcome hnest.ge (fun outer level houter => ?_)
        rw [hrun outer level houter]
        exact ParseState.run_of_unexpected hlast (by
          simp_all [ParseState.expected, Source.kind?])

/-- A bracket is read as the run reads it, if what it holds is. -/
theorem bracketed_outcome {opening : Token} {rest : Source} {inner : Reading Expression}
    (hinner : ∀ entered : Reader, entered.At rest → entered.nesting = nesting + 1 →
      nesting < maxDepth → Outcome (nesting + 1)
        (RunsChain .plus (nesting + 1) (fun sum => .operand (Operation.before .plus sum none)) rest)
        (RefusesChain (nesting + 1) (fun sum => .operand (Operation.before .plus sum none)) rest)
        (inner.run entered))
    (hat : reader.At rest) (hnesting : reader.nesting = nesting)
    (hhead : source.head = .token opening rest) (hkind : opening.kind = .openBracket) :
    Outcome nesting (RunsOperand .times nesting source) (RefusesOperand .times nesting source)
      ((bracketed opening inner).run reader) := by
  subst hnesting
  have hshorter := Source.length_lt_of_head hhead
  refine .bind_of_ok (x := enter) rfl ?_
  split
  next hdeep =>
    refine refused_outcome (Nat.le_succ _) (fun outer level houter => ?_)
    rw [ParseState.run_of_token hhead]
    simp only [ParseState.step, hkind, houter, if_pos (Nat.le_of_lt_succ hdeep)]
    rfl
  next hshallow =>
    have hrun : ∀ (outer : List Level) (level : Level), outer.length = reader.nesting →
        ParseState.run ⟨.operand level, outer⟩ source =
          ParseState.run ⟨.operand .start, level :: outer⟩ rest := by
      intro outer level houter
      rw [ParseState.run_of_token hhead]
      simp only [ParseState.step, hkind, houter, if_neg (show ¬maxDepth ≤ reader.nesting by omega)]
      rfl
    have hinner := hinner { reader with nesting := reader.nesting + 1 } hat rfl (by omega)
    refine hinner.inside.bind (fun e later last hat hlater hfound => ?_)
      (fun error hrefused outer sum waiting houter => ?_)
    · have hshorter' := hfound.shorter
      refine closed_outcome hat hlater (by omega) hfound.ends hfound.settled ?_
      exact fun outer level houter => (hrun outer level houter).trans
        (hfound.run_eq (level :: outer) none (congrArg (· + 1) houter))
    · exact (hrun outer ⟨sum, waiting⟩ houter).trans
        (hrefused (⟨sum, waiting⟩ :: outer) none (congrArg (· + 1) houter))

/-- Factors are read as the run reads them, if the brackets that may be open do not exceed
the levels. -/
theorem readsOperand_factor (levels : Nat) (hnesting : nesting ≤ maxDepth)
    (hlevels : maxDepth < nesting + levels) :
    ReadsOperand .times nesting rounds (factor rounds levels) := by
  -- Every bracket takes one of the levels, and the limit is met before they run out.
  induction levels generalizing nesting with
  | zero => omega
  | succ levels ih =>
      intro reader source hat hreader hrounds
      obtain ⟨peeked, hpeek, hat, -, hpeeked⟩ := peek_eq hat
      have hnest := hpeeked.trans hreader
      refine .bind_of_ok hpeek ?_
      cases hkind? : source.kind? with
      | none =>
          exact advance_outcome hat hkind? hnest (fun _ _ => ⟨rfl, fun _ _ => rfl⟩)
            (fun _ _ _ => rfl)
      | some kind =>
          obtain ⟨token, rest, hhead, hkind⟩ := Source.exists_token_of_kind? hkind?
          obtain ⟨advanced, hadvance, hrest, -, hadvanced⟩ := advance_of_token hat hhead
          have hshorter := Source.length_lt_of_head hhead
          have hafter := hadvanced.trans hnest
          cases kind with
          | numeral =>
              refine .bind_of_ok hadvance ?_
              rw [Token.checkedLiteral_eq hkind]
              refine leaf_outcome hrest hafter hshorter.le (fun outer level => ?_)
              rw [ParseState.run_of_token hhead]
              simp only [ParseState.step, hkind]
              exact run_leaf _ level outer rest
          | minus =>
              refine .bind_of_ok hadvance ?_
              refine negated_outcome hrest hafter hshorter.le (fun outer level => ?_)
              rw [ParseState.run_of_token hhead]
              simp only [ParseState.step, hkind]
              rfl
          | name =>
              refine .bind_of_ok hadvance ?_
              rw [Token.checkedVariable_eq]
              refine leaf_outcome hrest hafter hshorter.le (fun outer level => ?_)
              rw [ParseState.run_of_token hhead]
              simp only [ParseState.step, hkind]
              exact run_leaf _ level outer rest
          | openBracket =>
              refine .bind_of_ok hadvance ?_
              refine bracketed_outcome (fun entered hat hentered hroom => ?_) hrest hafter hhead
                hkind
              exact expression_outcome (ih hroom (by omega)) hat hentered (by omega)
          | closeBracket | plus | times =>
              refine .bind_of_ok hadvance ?_
              refine refused_outcome hafter.ge (fun outer level _ => ?_)
              rw [ParseState.run_of_token hhead]
              simp only [ParseState.step, hkind, ParseState.refuse]
              rfl

end Reading

namespace Checked

/-! ## Whole texts -/

/-- With rounds for all characters and levels for all brackets that may be open, the checked
reading of a text is its reading: it never faults. -/
theorem parseWithin_eq (text : String) {rounds levels : Nat}
    (hrounds : text.toList.length < rounds) (hlevels : maxDepth < levels) :
    parseWithin rounds levels text = (Expression.parse text).mapError .error := by
  have hfactor : Reading.ReadsOperand .times 0 rounds (Reading.factor rounds levels) :=
    Reading.readsOperand_factor _ (Nat.zero_le _) (by omega)
  have houtcome := Reading.expression_outcome hfactor (Reader.at_start text) rfl hrounds
  rw [parseWithin, Traced.parse, Expression.parse]
  generalize hread : (Reading.expression rounds levels).run (.start text) = read at houtcome
  cases houtcome with
  | refused _ hrefused =>
      have hrun := hrefused [] none rfl
      change ParseState.start.run _ = _ at hrun
      rw [Reading.run_bind_of_error hread, hrun]
      rfl
  | @found events e reader rest hat _ hfound =>
      have hrun := hfound.run_eq [] none rfl
      change ParseState.start.run _ = ParseState.run ⟨.operator none e, []⟩ rest at hrun
      have hends := hfound.ends
      have hsettled := hfound.settled
      obtain ⟨later, hnext, -⟩ := Reading.next_eq hat
      rw [Reading.run_bind_of_ok hread, Reading.ended, Reading.run_bind_of_ok hnext, hrun,
        Source.item]
      cases hhead : rest.head with
      | done =>
          rw [ParseState.run_of_done hhead]
          rfl
      | stray character index =>
          rw [ParseState.run_of_stray hhead]
          rfl
      | token token behind =>
          rw [ParseState.run_of_unexpected hhead (by
            simp_all [ParseState.expected, Source.kind?, Operation.kind, Operation.Settled])]
          rfl

/-- The checked reading of a text is its reading: it never faults. -/
theorem parse_eq (text : String) :
    parse text = (Expression.parse text).mapError .error :=
  parseWithin_eq text (Nat.lt_succ_self _) (Nat.lt_succ_self _)

end Checked

end SumProduct
