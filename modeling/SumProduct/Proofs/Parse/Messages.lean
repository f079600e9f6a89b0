import SumProduct.Proofs.Checked.Failures
import SumProduct.Proofs.Text.PrefixFree

/-!
# Messages

The message of a reason why a text is not an expression tells all of the reason. It opens in
one of a few ways, of which none is the front of another one, and what comes after shows where
each of its parts ends: kinds are described by words that show their ends, numbers stand in
front of other characters than digits, and a choice of words names all of them in order.
-/

namespace SumProduct

open Text

/-! ## Choices of kinds -/

theorem Token.Kind.prefixFree_description : PrefixFree fun kind : Kind => kind.description.toList :=
  prefixFree_of_prefix fun a b => by cases a <;> cases b <;> decide

namespace ParseError

/-- The choice of some kinds. -/
def choice (kinds : List Token.Kind) : List Char :=
  (oneOf (kinds.map Token.Kind.description)).toList

/-- What stands between two words of a choice, of which the second is the last one or not. -/
def between (last : Bool) : List Char :=
  if last then " or ".toList else ", ".toList

theorem prefixFree_between : PrefixFree between :=
  prefixFree_of_prefix fun a b => by cases a <;> cases b <;> decide

/-- What follows the first word of a choice. -/
def choiceBehind : List Token.Kind → List Char
  | [] => []
  | next :: rest => between rest.isEmpty ++ choice (next :: rest)

theorem choice_cons (first : Token.Kind) (rest : List Token.Kind) :
    choice (first :: rest) = first.description.toList ++ choiceBehind rest := by
  match rest with
  | [] => exact (List.append_nil _).symm
  | [second] => simp [choice, choiceBehind, between, oneOf]
  | second :: third :: rest => simp [choice, choiceBehind, between, oneOf]

/-- A choice of no kinds is a word that no description starts. -/
theorem choice_nil_ne (first : Token.Kind) (rest : List Token.Kind) :
    choice [] ≠ choice (first :: rest) := by
  intro heq
  rw [choice_cons] at heq
  have hfront : first.description.toList <+: choice [] := heq ▸ List.prefix_append _ _
  cases first <;> exact absurd hfront (by decide)

theorem between_append_ne_nil (last : Bool) (rest : List Char) : between last ++ rest ≠ [] := by
  cases last <;> exact List.cons_ne_nil _ _

/-- A choice names its kinds in order. -/
theorem choice_injective : Function.Injective choice := by
  intro kinds
  induction kinds with
  | nil =>
      intro others heq
      cases others with
      | nil => rfl
      | cons other others => exact absurd heq (choice_nil_ne other others)
  | cons kind kinds ih =>
      intro others heq
      cases others with
      | nil => exact absurd heq.symm (choice_nil_ne kind kinds)
      | cons other others =>
          rw [choice_cons, choice_cons] at heq
          obtain ⟨rfl, hbehind⟩ := Token.Kind.prefixFree_description _ _ _ _ heq
          cases kinds with
          | nil =>
              cases others with
              | nil => rfl
              | cons => exact absurd hbehind.symm (between_append_ne_nil _ _)
          | cons next kinds =>
              cases others with
              | nil => exact absurd hbehind (between_append_ne_nil _ _)
              | cons next' others =>
                  -- The same words come first, so what is behind them is the same choice.
                  have hchoice := (prefixFree_between _ _ _ _ hbehind).2
                  rw [ih hchoice]

end ParseError

/-! ## Spans -/

/-- A span ends in front of anything but a digit. -/
theorem Span.text_append_inj {span other : Span} {rest rest' : List Char}
    (hrest : Stops Char.isDigit rest) (hrest' : Stops Char.isDigit rest')
    (heq : span.text.toList ++ rest = other.text.toList ++ rest') :
    span = other ∧ rest = rest' := by
  have hdots : ∀ tail, Stops Char.isDigit ("..".toList ++ tail) := by simp [Stops]
  simp only [Span.text, String.toList_append, List.append_assoc] at heq
  obtain ⟨hstart, hbehind⟩ := repr_append_inj (hdots _) (hdots _) heq
  obtain ⟨hstop, hend⟩ := repr_append_inj hrest hrest' (List.append_cancel_left hbehind)
  obtain ⟨start, stop⟩ := span
  obtain ⟨start', stop'⟩ := other
  obtain rfl : start = start' := hstart
  obtain rfl : stop = stop' := hstop
  exact ⟨rfl, hend⟩

theorem Span.text_inj {span other : Span} (heq : span.text.toList = other.text.toList) :
    span = other := by
  have hnil : Stops Char.isDigit [] := by simp [Stops]
  refine (text_append_inj hnil hnil ?_).1
  rw [heq]

/-! ## Forms of messages -/

namespace ParseError

/-- The forms of messages, one for each way in which they open. -/
inductive Form where
  | strayCharacter
  | unexpectedEnd
  | unexpectedToken
  | unreadableNumber
  | tooDeep
  | infinite (negative : Bool)
  deriving DecidableEq

/-- How the messages of a form open. -/
def Form.opening : Form → String
  | strayCharacter => "invalid character "
  | unexpectedEnd => "unexpected end of input"
  | unexpectedToken => "found "
  | unreadableNumber => "unable to read the number at "
  | tooDeep => "nested more than 256 levels deep at "
  | infinite false => "inf is not a finite number"
  | infinite true => "-inf is not a finite number"

theorem Form.prefixFree_opening : PrefixFree fun form : Form => form.opening.toList := by
  refine prefixFree_of_prefix fun a b => ?_
  rcases a with _ | _ | _ | _ | _ | (_ | _) <;> rcases b with _ | _ | _ | _ | _ | (_ | _) <;>
    decide

/-- The reasons of each form. A leaf that is refused has one only if it is infinite. -/
inductive HasForm : ParseError → Form → Prop
  | strayCharacter (character : Char) (index : Nat) :
      HasForm (.strayCharacter character index) .strayCharacter
  | unexpectedEnd : HasForm .unexpectedEnd .unexpectedEnd
  | unexpectedToken (found : Token.Kind) (span : Span) (expected : List Token.Kind) :
      HasForm (.unexpectedToken found span expected) .unexpectedToken
  | unreadableNumber (span : Span) : HasForm (.unreadableNumber span) .unreadableNumber
  | tooDeep (span : Span) : HasForm (.tooDeep span) .tooDeep
  | infinite (negative : Bool) :
      HasForm (.construction (.notFinite (.infinity negative))) (.infinite negative)

/-- What a message tells behind its opening. -/
def details : ParseError → String
  | .strayCharacter character index => quotedChar character ++ (" at index " ++ index.repr)
  | .unexpectedToken found span expected =>
      found.description ++ (" at " ++ (span.text ++ (", expected " ++
        oneOf (expected.map Token.Kind.description))))
  | .unreadableNumber span | .tooDeep span => span.text
  | .unexpectedEnd | .construction _ => ""

theorem HasForm.message_eq {error : ParseError} {form : Form} (hform : error.HasForm form) :
    error.message = form.opening ++ error.details := by
  cases hform with
  | strayCharacter character index =>
      change "invalid character " ++ quotedChar character ++ " at index " ++ index.repr = _
      simp only [String.append_assoc]
      rfl
  | unexpectedEnd => rfl
  | unexpectedToken found span expected =>
      change "found " ++ found.description ++ " at " ++ span.text ++ ", expected " ++
        oneOf (expected.map Token.Kind.description) = _
      simp only [String.append_assoc]
      rfl
  | unreadableNumber span => rfl
  | tooDeep span => rfl
  | infinite negative => cases negative <;> rfl

/-- Reasons of one form are told apart by the details. -/
theorem HasForm.eq_of_details {a b : ParseError} {form : Form} (ha : a.HasForm form)
    (hb : b.HasForm form) (hdetails : a.details.toList = b.details.toList) : a = b := by
  have hnil : Stops Char.isDigit [] := by simp [Stops]
  cases ha with
  | strayCharacter character index =>
      cases hb with
      | strayCharacter character' index' =>
          simp only [details, String.toList_append] at hdetails
          obtain ⟨rfl, hbehind⟩ := prefixFree_quotedChar _ _ _ _ hdetails
          have hindex := List.append_cancel_left hbehind
          rw [← List.append_nil index.repr.toList, ← List.append_nil index'.repr.toList] at hindex
          rw [(repr_append_inj hnil hnil hindex).1]
  | unexpectedEnd =>
      cases hb
      rfl
  | unexpectedToken found span expected =>
      cases hb with
      | unexpectedToken found' span' expected' =>
          have hcomma : ∀ tail, Stops Char.isDigit (", expected ".toList ++ tail) := by simp [Stops]
          simp only [details, String.toList_append] at hdetails
          obtain ⟨rfl, hbehind⟩ := Token.Kind.prefixFree_description _ _ _ _ hdetails
          obtain ⟨rfl, hrest⟩ :=
            Span.text_append_inj (hcomma _) (hcomma _) (List.append_cancel_left hbehind)
          rw [choice_injective (List.append_cancel_left hrest)]
  | unreadableNumber span =>
      cases hb with
      | unreadableNumber span' => rw [Span.text_inj hdetails]
  | tooDeep span =>
      cases hb with
      | tooDeep span' => rw [Span.text_inj hdetails]
  | infinite negative =>
      cases hb
      rfl

/-- Any reason but a leaf that is no expression, and of these the ones for which some text is
refused. -/
def Reported (error : ParseError) : Prop :=
  (∀ inner, error ≠ .construction inner) ∨ ∃ text, Expression.parse text = .error error

theorem Reported.exists_hasForm {error : ParseError} (hreported : error.Reported) :
    ∃ form, error.HasForm form := by
  rcases hreported with hplain | ⟨text, hparse⟩
  · cases error with
    | strayCharacter character index => exact ⟨_, .strayCharacter character index⟩
    | unexpectedEnd => exact ⟨_, .unexpectedEnd⟩
    | unexpectedToken found span expected => exact ⟨_, .unexpectedToken found span expected⟩
    | unreadableNumber span => exact ⟨_, .unreadableNumber span⟩
    | tooDeep span => exact ⟨_, .tooDeep span⟩
    | construction inner => exact absurd rfl (hplain inner)
  · cases Expression.possible_of_parse hparse with
    | strayCharacter character index => exact ⟨_, .strayCharacter character index⟩
    | unexpectedEnd => exact ⟨_, .unexpectedEnd⟩
    | unexpectedToken found span expected => exact ⟨_, .unexpectedToken found span expected⟩
    | tooDeep span => exact ⟨_, .tooDeep span⟩
    | infinite negative => exact ⟨_, .infinite negative⟩

/-- Messages lose nothing: reasons with the same message are the same, down to the character,
the places, the kind that was found and the list of kinds that could have stood there. -/
theorem eq_of_message_eq {a b : ParseError} (ha : a.Reported) (hb : b.Reported)
    (hmessage : a.message = b.message) : a = b := by
  obtain ⟨form, hform⟩ := ha.exists_hasForm
  obtain ⟨form', hform'⟩ := hb.exists_hasForm
  rw [hform.message_eq, hform'.message_eq, ← String.toList_inj, String.toList_append,
    String.toList_append] at hmessage
  obtain ⟨rfl, hdetails⟩ := Form.prefixFree_opening _ _ _ _ hmessage
  exact hform.eq_of_details hform' hdetails

/-- Two texts that are refused for a quote at the same place. -/
theorem eq_of_message_eq_quote :
    ∃ a b, Expression.parse "1 ' 2" = .error a ∧ Expression.parse "x '" = .error b ∧
      a.message = "invalid character '\\'' at index 2" ∧ b.message = a.message ∧ a = b := by
  have hfirst : Expression.parse "1 ' 2" = .error (.strayCharacter '\'' 2) := by
    rw [← map_eq_error_iff (f := fun _ => ())]
    decide +kernel
  have hsecond : Expression.parse "x '" = .error (.strayCharacter '\'' 2) := by
    rw [← map_eq_error_iff (f := fun _ => ())]
    decide +kernel
  have hmessage : message (.strayCharacter '\'' 2) = "invalid character '\\'' at index 2" := by
    decide +kernel
  exact ⟨_, _, hfirst, hsecond, hmessage, rfl,
    eq_of_message_eq (Or.inr ⟨_, hfirst⟩) (Or.inr ⟨_, hsecond⟩) rfl⟩

end ParseError

end SumProduct
