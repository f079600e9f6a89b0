import SumProduct.Proofs.Checked.Budget
import SumProduct.Proofs.Parse.Limits

/-!
# What a reading costs

A reading pulls the items of its source in order and none twice, none behind an error, and so
at most one more than there are tokens. Every round of a chain takes the sign that it goes on
behind. And no more expressions are read inside each other than brackets may be open, whatever
the text holds and however a reading ends.
-/

namespace SumProduct

/-! ## What there is to pull -/

namespace Source

/-- What follows the tokens of a source: an error at a stray character or the end. -/
def ending (source : Source) : Item :=
  source.stray?.map fun (character, index) => .error (.strayCharacter character index)

/-- All that a scanner gives at a source. -/
def items (source : Source) : List Item :=
  source.tokens.map (fun token => some (.ok token)) ++ [source.ending]

variable {source rest : Source} {token : Token}

theorem items_of_token (hhead : source.head = .token token rest) :
    source.items = some (.ok token) :: rest.items := by
  rw [items, items, ending, ending, tokens_of_token hhead, stray?_of_token hhead]
  rfl

/-- Where there is no token, what follows the tokens comes first. -/
theorem items_of_kind?_eq_none (hnone : source.kind? = none) :
    source.tokens = [] ∧ source.item = source.ending := by
  unfold item ending
  cases hhead : source.head with
  | done =>
      rw [tokens_of_done hhead, stray?_of_done hhead]
      exact ⟨rfl, rfl⟩
  | stray character index =>
      rw [tokens_of_stray hhead, stray?_of_stray hhead]
      exact ⟨rfl, rfl⟩
  | token token rest =>
      rw [kind?, hhead] at hnone
      cases hnone

theorem items_eq_cons (source : Source) : source.items = source.item :: source.items.tail := by
  cases hkind? : source.kind? with
  | none =>
      obtain ⟨htokens, hitem⟩ := items_of_kind?_eq_none hkind?
      rw [items, htokens, hitem]
      rfl
  | some kind =>
      obtain ⟨token, rest, hhead, -⟩ := exists_token_of_kind? hkind?
      rw [items_of_token hhead, item, hhead]
      rfl

theorem ending_eq (source : Source) :
    source.ending = none ∨ ∃ error, source.ending = some (.error error) := by
  unfold ending
  cases source.stray? with
  | none => exact Or.inl rfl
  | some stray => exact Or.inr ⟨_, rfl⟩

theorem ending_ne_token (source : Source) (token : Token) : source.ending ≠ some (.ok token) := by
  rcases source.ending_eq with hending | ⟨error, hending⟩ <;> simp [hending]

theorem length_items (source : Source) : source.items.length = source.tokens.length + 1 := by
  rw [items, List.length_append, List.length_map, List.length_singleton]

/-- Only tokens have items behind them. -/
theorem eq_nil_of_items_eq {before after : List Item} {item : Item}
    (hitems : source.items = before ++ item :: after)
    (hother : ∀ token, item ≠ some (.ok token)) : after = [] := by
  rw [items] at hitems
  rcases append_eq_append_cons hitems with ⟨inside, htokens, -⟩ | ⟨inside, -, hending⟩
  · have hmem : item ∈ source.tokens.map fun token => some (.ok token) := by simp [htokens]
    obtain ⟨token, -, htoken⟩ := List.mem_map.mp hmem
    exact absurd htoken.symm (hother token)
  · cases inside with
    | nil => exact (List.cons.inj hending).2.symm
    | cons first inside => simp at hending

end Source

/-! ## Pulling on and on -/

namespace Scanner

variable {scanner later : Scanner} {source : Source} {item : Item}

/-- A number of items, one pulled after the other. -/
def pulls : Nat → Scanner → Except Fault (List Item × Scanner)
  | 0, scanner => .ok ([], scanner)
  | count + 1, scanner => do
      let (item, scanner) ← scanner.next
      let (items, scanner) ← pulls count scanner
      return (item :: items, scanner)

/-- A scanner that has found no token stays where it is and finds the same again. -/
theorem next_again (hnext : scanner.next = .ok (item, later))
    (hother : ∀ token, item ≠ some (.ok token)) : later.next = .ok (item, later) := by
  induction scanner using next.induct with
  | case1 scanner fault hpeek =>
      rw [next] at hnext
      split at hnext <;> simp_all
  | case2 scanner hpeek =>
      rw [next_of_none hpeek] at hnext
      cases hnext
      exact next_of_none hpeek
  | case3 scanner c hpeek hblank ih =>
      rw [next_of_blank hpeek hblank, ← skip_eq_behind] at hnext
      exact ih hnext
  | case4 scanner c hpeek hblank hkind =>
      have hstray := next_of_not_blank hpeek (Bool.eq_false_iff.mpr hblank)
      rw [hkind] at hstray
      obtain ⟨rfl, rfl⟩ := Prod.mk.inj (Except.ok.inj (hstray.symm.trans hnext))
      exact hstray
  | case5 scanner c hpeek hblank kind hkind =>
      rw [next_of_not_blank hpeek (Bool.eq_false_iff.mpr hblank), hkind] at hnext
      obtain ⟨behind, -, hnext⟩ := bind_eq_ok_iff.mp hnext
      obtain ⟨token, -, hnext⟩ := bind_eq_ok_iff.mp hnext
      cases hnext
      exact absurd rfl (hother token)

theorem pulls_of_next (hnext : scanner.next = .ok (item, later)) {count : Nat}
    {items : List Item} {last : Scanner} (hpulls : later.pulls count = .ok (items, last)) :
    scanner.pulls (count + 1) = .ok (item :: items, last) := by
  rw [pulls, hnext]
  simp only [bind, Except.bind, hpulls]
  rfl

/-- A scanner that stays where it is finds the same for ever. -/
theorem pulls_replicate (hnext : scanner.next = .ok (item, scanner)) (count : Nat) :
    scanner.pulls count = .ok (List.replicate count item, scanner) := by
  induction count with
  | zero => rfl
  | succ count ih => exact pulls_of_next hnext ih

theorem At.pulls_of_kind?_eq_none (hat : scanner.At source) (hnone : source.kind? = none) :
    ∃ last, ∀ count, scanner.pulls (source.tokens.length + 1 + count) =
      .ok (source.items ++ List.replicate count source.ending, last) := by
  obtain ⟨htokens, hitem⟩ := Source.items_of_kind?_eq_none hnone
  obtain ⟨later, hnext, -⟩ := hat.next_eq
  refine ⟨later, fun count => ?_⟩
  rw [hitem] at hnext
  have hagain : later.next = .ok (source.ending, later) :=
    next_again hnext source.ending_ne_token
  rw [Source.items, htokens, List.length_nil, Nat.zero_add, Nat.add_comm]
  exact pulls_of_next hnext (pulls_replicate hagain count)

/-- However often it is asked, a scanner gives the items of its source and then the last one
again and again, without going on. -/
theorem At.pulls_eq (hat : scanner.At source) :
    ∃ last, ∀ count, scanner.pulls (source.tokens.length + 1 + count) =
      .ok (source.items ++ List.replicate count source.ending, last) := by
  induction source using Source.tokens_induction generalizing scanner with
  | done source hhead => exact hat.pulls_of_kind?_eq_none (by rw [Source.kind?, hhead])
  | stray source character index hhead =>
      exact hat.pulls_of_kind?_eq_none (by rw [Source.kind?, hhead])
  | token source token rest hhead ih =>
      obtain ⟨later, hnext, hrest⟩ := hat.next_eq
      obtain ⟨last, hpulls⟩ := ih (hrest token rest hhead)
      refine ⟨last, fun count => ?_⟩
      have hending : source.ending = rest.ending := by
        rw [Source.ending, Source.ending, Source.stray?_of_token hhead]
      rw [Source.item, hhead] at hnext
      rw [Source.items_of_token hhead, hending, Source.tokens_of_token hhead, List.length_cons,
        Nat.add_right_comm _ 1 1, Nat.add_right_comm _ 1 count]
      exact pulls_of_next hnext (hpulls count)

end Scanner

/-! ## Events -/

namespace Event

/-- The readings of expressions that are started and not ended by some events. -/
def active : List Event → Int
  | [] => 0
  | enter :: events => active events + 1
  | leave :: events => active events - 1
  | _ :: events => active events

/-- The items that are pulled. -/
def pulled (events : List Event) : List Item :=
  events.filterMap fun
    | pull item => some item
    | _ => none

/-- The items that are taken. -/
def taken (events : List Event) : List Item :=
  events.filterMap fun
    | take item => some item
    | _ => none

theorem active_append (first second : List Event) :
    active (first ++ second) = active first + active second := by
  induction first with
  | nil => rw [List.nil_append, active, Int.zero_add]
  | cons event first ih =>
      cases event <;> simp only [List.cons_append, active, ih] <;> omega

theorem pulled_append (first second : List Event) :
    pulled (first ++ second) = pulled first ++ pulled second :=
  List.filterMap_append

theorem taken_append (first second : List Event) :
    taken (first ++ second) = taken first ++ taken second :=
  List.filterMap_append

/-- Events between which no more than some number of expressions are read inside each other,
and all of them to their end, and in which every sign that a chain goes on behind is taken. -/
structure Orderly (room : Nat) (events : List Event) : Prop where
  settled : active events = 0
  within : ∀ front, front <+: events → 0 ≤ active front ∧ active front ≤ room
  signed : ∀ before op after, events = before ++ round op :: after →
    ∃ token later, after = take (some (.ok token)) :: later ∧ token.kind = op.kind

variable {room : Nat} {first second events : List Event}

/-- Where nothing starts or ends, nothing is at work. -/
theorem active_eq_zero (hevents : ∀ event ∈ events, active [event] = 0) : active events = 0 := by
  induction events with
  | nil => rfl
  | cons event events ih =>
      obtain ⟨hevent, hevents⟩ := List.forall_mem_cons.mp hevents
      rw [← List.singleton_append, active_append, hevent, ih hevents, Int.add_zero]

theorem orderly_of_inactive (hevents : ∀ event ∈ events, active [event] = 0)
    (hsigned : ∀ before op after, events = before ++ round op :: after →
      ∃ token later, after = take (some (.ok token)) :: later ∧ token.kind = op.kind) :
    Orderly room events := by
  refine ⟨active_eq_zero hevents, fun front hfront => ?_, hsigned⟩
  have hzero := active_eq_zero fun event hmem => hevents event (hfront.subset hmem)
  rw [hzero]
  exact ⟨le_rfl, Int.natCast_nonneg room⟩

theorem orderly_nil : Orderly room [] :=
  orderly_of_inactive (by simp) (by simp)

theorem orderly_singleton {event : Event} (hactive : active [event] = 0)
    (hround : ∀ op, event ≠ round op) : Orderly room [event] := by
  refine orderly_of_inactive (by simpa using hactive) fun before op after hevents => ?_
  cases before with
  | nil => exact absurd (List.cons.inj hevents).1 (hround op)
  | cons first before => simp at hevents

/-- A round starts with its sign. -/
theorem orderly_round {op : Operation} {token : Token} (hkind : token.kind = op.kind) :
    Orderly room [round op, take (some (.ok token))] := by
  refine orderly_of_inactive (by simp [active]) fun before op after hevents => ?_
  rcases before with - | ⟨event, - | ⟨event', before⟩⟩
  · obtain ⟨hround, hafter⟩ := List.cons.inj hevents
    exact ⟨token, [], hafter.symm, Event.round.inj hround ▸ hkind⟩
  · simp at hevents
  · simp at hevents

theorem Orderly.append (hfirst : Orderly room first) (hsecond : Orderly room second) :
    Orderly room (first ++ second) := by
  refine ⟨?_, fun front hfront => ?_, fun before op after hevents => ?_⟩
  · rw [active_append, hfirst.settled, hsecond.settled, Int.add_zero]
  · rcases prefix_append_cases hfront with hfront | ⟨rest, rfl, hrest⟩
    · exact hfirst.within front hfront
    · rw [active_append, hfirst.settled, Int.zero_add]
      exact hsecond.within rest hrest
  · rcases append_eq_append_cons hevents with ⟨inside, hinside, rfl⟩ | ⟨inside, -, hinside⟩
    · obtain ⟨token, later, rfl, hkind⟩ := hfirst.signed before op inside hinside
      exact ⟨token, later ++ second, rfl, hkind⟩
    · exact hsecond.signed inside op after hinside

/-- The reading of an expression is one more than those inside of it. -/
theorem Orderly.whole (horderly : Orderly room events) :
    Orderly (room + 1) (enter :: (events ++ [leave])) := by
  refine ⟨?_, fun front hfront => ?_, fun before op after hevents => ?_⟩
  · rw [active, active_append, horderly.settled]
    rfl
  · rcases List.prefix_cons_iff.mp hfront with rfl | ⟨inner, rfl, hinner⟩
    · exact ⟨le_rfl, Int.natCast_nonneg _⟩
    · rw [active]
      rcases prefix_append_cases hinner with hinner | ⟨last, rfl, hlast⟩
      · obtain ⟨hnonneg, hle⟩ := horderly.within inner hinner
        omega
      · rw [active_append, horderly.settled]
        rcases List.prefix_cons_iff.mp hlast with rfl | ⟨rest, rfl, hrest⟩
        · rw [active]
          omega
        · rw [List.prefix_nil.mp hrest, active, active]
          omega
  · cases before with
    | nil => simp at hevents
    | cons event before =>
        obtain ⟨-, hevents⟩ := List.cons.inj hevents
        rcases append_eq_append_cons hevents with ⟨inside, hinside, rfl⟩ | ⟨inside, -, hinside⟩
        · obtain ⟨token, later, rfl, hkind⟩ := horderly.signed before op inside hinside
          exact ⟨token, later ++ [leave], rfl, hkind⟩
        · rcases inside with - | ⟨event, inside⟩ <;> simp at hinside

end Event

open Event

/-! ## What is left to pull and to take -/

/-- The items that have not been pulled yet, and those that have not been taken yet. -/
structure Stock where
  unpulled : List Item
  untaken : List Item

/-- The stock of a reader. What it has looked at is pulled but not taken. -/
def Reader.stock (reader : Reader) (source : Source) : Stock where
  unpulled :=
    match reader.ahead with
    | none => source.items
    | some _ => source.items.tail
  untaken := source.items

/-- Events that take from a stock what comes next in it, and leave another stock. -/
structure Stock.Spends (stock : Stock) (room : Nat) (events : List Event) (last : Stock) :
    Prop where
  orderly : Orderly room events
  unpulled : stock.unpulled = pulled events ++ last.unpulled
  untaken : stock.untaken = taken events ++ last.untaken

namespace Stock.Spends

variable {room : Nat} {stock middle last : Stock} {first second events : List Event}

theorem nil : stock.Spends room [] stock :=
  ⟨orderly_nil, rfl, rfl⟩

theorem append (hfirst : stock.Spends room first middle)
    (hsecond : middle.Spends room second last) : stock.Spends room (first ++ second) last := by
  refine ⟨hfirst.orderly.append hsecond.orderly, ?_, ?_⟩
  · rw [hfirst.unpulled, hsecond.unpulled, pulled_append, List.append_assoc]
  · rw [hfirst.untaken, hsecond.untaken, taken_append, List.append_assoc]

theorem whole (hspends : stock.Spends room events last) :
    stock.Spends (room + 1) (.enter :: (events ++ [.leave])) last := by
  have hpulled : pulled (.enter :: (events ++ [.leave])) = pulled events :=
    (pulled_append events [.leave]).trans (List.append_nil _)
  have htaken : taken (.enter :: (events ++ [.leave])) = taken events :=
    (taken_append events [.leave]).trans (List.append_nil _)
  refine ⟨hspends.orderly.whole, ?_, ?_⟩
  · rw [hspends.unpulled, hpulled]
  · rw [hspends.untaken, htaken]

end Stock.Spends

namespace Reading

variable {α β : Type} {room nesting : Nat} {stock : Stock} {reader : Reader} {source : Source}

/-! ## Readings within bounds -/

/-- A reading that spends of a stock what it reads, as far as it comes, with room for some
expressions inside each other. -/
inductive Bounded (room : Nat) (stock : Stock) (found : α → Reader → Source → Prop) :
    Traced α → Prop
  | found {events : List Event} {a : α} {later : Reader} {rest : Source}
      (hspends : stock.Spends room events (later.stock rest)) (hat : later.At rest)
      (hfound : found a later rest) : Bounded room stock found ⟨events, .ok a, later⟩
  | failed {events : List Event} {failure : Failure} {later : Reader} {last : Stock}
      (hspends : stock.Spends room events last) :
      Bounded room stock found ⟨events, .error failure, later⟩

section Bounded

variable {found : α → Reader → Source → Prop} {found' : β → Reader → Source → Prop}

theorem Bounded.bind {x : Reading α} {f : α → Reading β}
    (hx : Bounded room stock found (x.run reader))
    (hf : ∀ a later rest, later.At rest → found a later rest →
      Bounded room (later.stock rest) found' ((f a).run later)) :
    Bounded room stock found' ((x >>= f).run reader) := by
  generalize hfirst : x.run reader = first at hx
  cases hx with
  | failed hspends =>
      rw [run_bind_of_error hfirst]
      exact .failed hspends
  | @found events a later rest hspends hat hfound =>
      have hnext := hf a later rest hat hfound
      rw [run_bind_of_ok hfirst]
      generalize (f a).run later = next at hnext
      cases hnext with
      | found hspends' hat' hfound' => exact .found (hspends.append hspends') hat' hfound'
      | failed hspends' => exact .failed (hspends.append hspends')

theorem Bounded.quiet_bind {result : Except Failure α} {f : α → Reading β}
    (hf : ∀ a, result = .ok a → Bounded room stock found' ((f a).run reader)) :
    Bounded room stock found' ((quiet result >>= f).run reader) := by
  cases hresult : result with
  | error failure => exact .failed .nil
  | ok a => exact hf a hresult

theorem bounded_fail (failure : Failure) :
    Bounded room stock found ((fail failure).run reader) :=
  .failed .nil

theorem bounded_quiet {result : Except Failure α} (hat : reader.At source)
    (hfound : ∀ a, found a reader source) :
    Bounded room (reader.stock source) found ((quiet result).run reader) := by
  cases result with
  | error failure => exact .failed .nil
  | ok a => exact .found .nil hat (hfound a)

end Bounded

/-! ## One token of look-ahead -/

/-- To look at an item is to pull it, if that was not done before. -/
theorem spends_pullsAt (room : Nat) (reader : Reader) (source : Source) :
    (reader.stock source).Spends room (reader.pullsAt source)
      ⟨source.items.tail, source.items⟩ := by
  unfold Reader.pullsAt Reader.stock
  cases reader.ahead with
  | none => exact ⟨orderly_singleton rfl (by simp), source.items_eq_cons, rfl⟩
  | some item => exact .nil

theorem spends_next (room : Nat) (reader : Reader) (source : Source) :
    (reader.stock source).Spends room (reader.pullsAt source ++ [.take source.item])
      ⟨source.items.tail, source.items.tail⟩ :=
  (spends_pullsAt room reader source).append
    ⟨orderly_singleton rfl (by simp), rfl, source.items_eq_cons⟩

theorem stock_of_token {later : Reader} {token : Token} {rest : Source}
    (hahead : later.ahead = none) (hhead : source.head = .token token rest) :
    later.stock rest = ⟨source.items.tail, source.items.tail⟩ := by
  rw [Reader.stock, hahead, Source.items_of_token hhead]
  rfl

/-- What is looked at is not taken. -/
theorem bounded_peek (hat : reader.At source) :
    Bounded room (reader.stock source)
      (fun kind later rest => rest = source ∧ kind = source.kind? ∧
        later.ahead = some source.item ∧ later.nesting = reader.nesting) (peek.run reader) := by
  obtain ⟨later, hpeek, hlater, hahead, hnesting⟩ := peek_eq hat
  have hstock : later.stock source = ⟨source.items.tail, source.items⟩ := by
    rw [Reader.stock, hahead]
  rw [hpeek]
  exact .found (hstock ▸ spends_pullsAt room reader source) hlater ⟨rfl, rfl, hahead, hnesting⟩

theorem bounded_advance (hat : reader.At source) :
    Bounded room (reader.stock source) (fun _ later _ => later.nesting = reader.nesting)
      (advance.run reader) := by
  have hspends := spends_next room reader source
  cases hkind? : source.kind? with
  | some kind =>
      obtain ⟨token, rest, hhead, -⟩ := Source.exists_token_of_kind? hkind?
      obtain ⟨later, hadvance, hrest, hahead, hnesting⟩ := advance_of_token hat hhead
      rw [hadvance]
      rw [← stock_of_token hahead hhead] at hspends
      exact .found hspends hrest hnesting
  | none =>
      obtain ⟨error, later, hadvance, -⟩ := advance_of_kind?_eq_none hat hkind?
      rw [hadvance]
      exact .failed hspends

/-- A chain goes on behind a sign that was looked at. -/
theorem bounded_goOn (hat : reader.At source) {op : Operation}
    (hkind : source.kind? = some op.kind) (hahead : reader.ahead = some source.item) :
    Bounded room (reader.stock source) (fun _ later _ => later.nesting = reader.nesting)
      ((goOn op).run reader) := by
  obtain ⟨token, rest, hhead, hkind⟩ := Source.exists_token_of_kind? hkind
  obtain ⟨later, hadvance, hrest, hlater, hnesting⟩ := advance_of_token hat hhead
  have hgoOn : (goOn op).run reader =
      ⟨[.round op, .take (some (.ok token))], .ok token, later⟩ := by
    refine (run_bind_of_ok rfl _).trans ?_
    rw [hadvance, Reader.pullsAt, hahead, Source.item, hhead]
    rfl
  have hspends : (reader.stock source).Spends room [.round op, .take (some (.ok token))]
      (later.stock rest) := by
    rw [stock_of_token hlater hhead, Reader.stock, hahead, Source.items_of_token hhead]
    exact ⟨orderly_round hkind, rfl, rfl⟩
  rw [hgoOn]
  exact .found hspends hrest hnesting

/-! ## The descent within bounds -/

/-- A part that stays within bounds wherever some number of brackets are open, and leaves them
open. -/
def BoundedPart (room nesting : Nat) (part : Reading Expression) : Prop :=
  ∀ reader source, reader.At source → reader.nesting = nesting →
    Bounded room (reader.stock source) (fun _ later _ => later.nesting = nesting)
      (part.run reader)

variable {part : Reading Expression} {sign : Token.Kind} {op : Operation}

theorem BoundedPart.more (hpart : BoundedPart room nesting part) (rounds : Nat)
    (left : Expression) (depth : Nat) :
    BoundedPart room nesting (more op.kind op part rounds left depth) := by
  induction rounds generalizing left depth with
  | zero => exact fun _ _ _ _ => bounded_fail _
  | succ rounds ih =>
      intro reader source hat hnesting
      refine (bounded_peek hat).bind fun kind peeked _ hstill hpeek => ?_
      obtain ⟨rfl, rfl, hahead, hpeeked⟩ := hpeek
      split
      next hkind =>
        refine (bounded_goOn hstill hkind hahead).bind fun token advanced rest hat hadvanced => ?_
        have hafter := hadvanced.trans (hpeeked.trans hnesting)
        refine (hpart advanced rest hat hafter).bind fun right later rest hat hlater => ?_
        dsimp only
        split
        next => exact bounded_fail _
        next => exact ih _ _ later rest hat hlater
      next => exact .found .nil hstill (hpeeked.trans hnesting)

theorem kind_of_checkedOperation (hop : sign.checkedOperation = .ok op) : op.kind = sign := by
  cases sign <;> cases hop <;> rfl

theorem BoundedPart.chain (hpart : BoundedPart room nesting part) (rounds : Nat) :
    BoundedPart room nesting (chain sign part rounds) := by
  intro reader source hat hnesting
  refine Bounded.quiet_bind fun op hop => ?_
  obtain rfl := kind_of_checkedOperation hop
  refine (hpart reader source hat hnesting).bind fun left reader source hat hnesting => ?_
  exact hpart.more rounds left left.depth reader source hat hnesting

theorem BoundedPart.whole (hpart : BoundedPart room nesting part) :
    BoundedPart (room + 1) nesting (whole part) := by
  intro reader source hat hnesting
  have hinner := hpart reader source hat hnesting
  simp only [Reading.whole]
  generalize part.run reader = inner at hinner
  cases hinner with
  | found hspends hat hfound => exact .found hspends.whole hat hfound
  | failed hspends => exact .failed hspends.whole

theorem boundedPart_negated : BoundedPart room nesting negated := by
  intro reader source hat hnesting
  refine (bounded_advance hat).bind fun token reader source hat hadvanced => ?_
  split
  next => exact bounded_quiet hat fun _ => hadvanced.trans hnesting
  next => exact bounded_fail _

theorem boundedPart_closed (e : Expression) : BoundedPart room nesting (closed e) := by
  intro reader source hat hnesting
  refine (bounded_advance hat).bind fun closing reader source hat hadvanced => ?_
  split
  next => exact .found .nil hat (hadvanced.trans hnesting)
  next => exact bounded_fail _

/-- Nothing more is done where a part fails inside of a bracket. -/
theorem exists_inside_of_failure {events : List Event} {failure : Failure} {later : Reader}
    (hpart : part.run reader = ⟨events, .error failure, later⟩) :
    ∃ failure' later', (inside part).run reader = ⟨events, .error failure', later'⟩ := by
  cases failure with
  | fault fault =>
      exact ⟨.fault fault, later, run_bind_of_error (by simp only [attempt, hpart]) _⟩
  | error error =>
      cases hnesting : later.nesting with
      | zero =>
          have hleave : leave.run later = ⟨[], .error (.fault .notNested), later⟩ := by
            simp only [leave, hnesting]
          refine ⟨.fault .notNested, later, ?_⟩
          rw [inside, run_bind_of_ok (attempt_of_error hpart), run_bind_of_error hleave]
          exact congrArg (Traced.mk · _ later) (List.append_nil events)
      | succ nesting => exact ⟨_, _, inside_of_error hpart hnesting⟩

theorem Bounded.inside
    (hinner : Bounded room stock (fun _ later _ => later.nesting = nesting + 1)
      (part.run reader)) :
    Bounded room stock (fun _ later _ => later.nesting = nesting) ((inside part).run reader) := by
  generalize hread : part.run reader = read at hinner
  cases hinner with
  | @found events e later rest hspends hat hlater =>
      have hat : Reader.At { later with nesting } rest := hat
      rw [inside_of_ok hread hlater]
      exact .found hspends hat rfl
  | failed hspends =>
      obtain ⟨failure, later, hinside⟩ := exists_inside_of_failure hread
      rw [hinside]
      exact .failed hspends

/-- What stands in a bracket is read only if one more bracket may be open. -/
theorem boundedPart_bracketed (opening : Token)
    (hpart : nesting < maxDepth → BoundedPart room (nesting + 1) part) :
    BoundedPart room nesting (bracketed opening part) := by
  intro reader source hat hnesting
  subst hnesting
  have henter : Bounded room (reader.stock source)
      (fun count later rest =>
        rest = source ∧ count = reader.nesting + 1 ∧ later.nesting = reader.nesting + 1)
      (enter.run reader) :=
    .found .nil hat ⟨rfl, rfl, rfl⟩
  refine henter.bind fun count entered _ hstill hentered => ?_
  obtain ⟨rfl, rfl, hentered⟩ := hentered
  split
  next => exact bounded_fail _
  next hshallow =>
    have hinner := hpart (by omega) entered _ hstill hentered
    refine hinner.inside.bind fun e later rest hat hlater => ?_
    exact boundedPart_closed e later rest hat hlater

/-- The expressions that are read inside each other are fewer with every open bracket. -/
theorem boundedPart_factor (rounds levels : Nat) :
    BoundedPart (maxDepth - nesting) nesting (factor rounds levels) := by
  induction levels generalizing nesting with
  | zero => exact fun _ _ _ _ => bounded_fail _
  | succ levels ih =>
      intro reader source hat hnesting
      refine (bounded_peek hat).bind fun kind peeked _ hstill hpeek => ?_
      obtain ⟨rfl, -, -, hpeeked⟩ := hpeek
      have hnest := hpeeked.trans hnesting
      split
      next =>
        refine (bounded_advance hstill).bind fun token later rest hat hlater => ?_
        exact bounded_quiet hat fun _ => hlater.trans hnest
      next =>
        refine (bounded_advance hstill).bind fun token later rest hat hlater => ?_
        exact boundedPart_negated later rest hat (hlater.trans hnest)
      next =>
        refine (bounded_advance hstill).bind fun token later rest hat hlater => ?_
        exact bounded_quiet hat fun _ => hlater.trans hnest
      next =>
        refine (bounded_advance hstill).bind fun opening later rest hat hlater => ?_
        refine boundedPart_bracketed opening (fun hroom => ?_) later rest hat (hlater.trans hnest)
        rw [show maxDepth - nesting = maxDepth - (nesting + 1) + 1 by omega]
        exact (ih.chain rounds).chain rounds |>.whole
      next =>
        refine (bounded_advance hstill).bind fun token later rest hat hlater => ?_
        exact bounded_fail _

end Reading

/-! ## Whole texts -/

namespace Traced

variable {reader : Reader} {source : Source}

/-- Behind an expression one more item is taken, and nothing is left if that is the end. -/
theorem spends_ended (room : Nat) (e : Expression) (hat : reader.At source) :
    (reader.stock source).Spends room ((Reading.ended e).run reader).events
        ⟨source.items.tail, source.items.tail⟩ ∧
      ∀ e', ((Reading.ended e).run reader).result = .ok e' → source.items.tail = [] := by
  obtain ⟨later, hnext, -⟩ := Reading.next_eq hat
  have hspends := Reading.spends_next room reader source
  have hitems := source.items_eq_cons
  rw [Reading.ended, Reading.run_bind_of_ok hnext]
  rcases hitem : source.item with - | error | token <;> rw [hitem] at hspends
  · rw [hitem, ← List.nil_append (none :: _)] at hitems
    exact ⟨hspends.append .nil, fun _ _ => Source.eq_nil_of_items_eq hitems (by simp)⟩
  · exact ⟨hspends.append .nil, fun e' hresult => by cases hresult⟩
  · exact ⟨hspends.append .nil, fun e' hresult => by cases hresult⟩

/-- Of a text that is read nothing is left. -/
theorem spends_parse (rounds levels : Nat) (text : String) :
    ∃ last, Stock.Spends ((Reader.start text).stock (.ofString text)) (maxDepth + 1)
        (parse rounds levels text).events last ∧
      ∀ e, (parse rounds levels text).result = .ok e → last = ⟨[], []⟩ := by
  have hexpression : Reading.BoundedPart (maxDepth + 1) 0 (Reading.expression rounds levels) :=
    (((Reading.boundedPart_factor rounds levels).chain rounds).chain rounds).whole
  have hwhole := hexpression _ _ (Reader.at_start text) rfl
  rw [parse]
  generalize hread : (Reading.expression rounds levels).run (.start text) = read at hwhole
  cases hwhole with
  | failed hspends =>
      rw [Reading.run_bind_of_error hread]
      exact ⟨_, hspends, fun e hresult => by cases hresult⟩
  | @found events e later rest hspends hat hnesting =>
      obtain ⟨hended, hnil⟩ := spends_ended (maxDepth + 1) e hat
      rw [Reading.run_bind_of_ok hread]
      exact ⟨_, hspends.append hended, fun e' hresult => by rw [hnil e' hresult]⟩

/-- What a reading of a source costs at most. -/
structure Effort (source : Source) (events : List Event) : Prop where
  active_within : ∀ front, front <+: events → 0 ≤ active front ∧ active front ≤ maxDepth + 1
  signed : ∀ before op after, events = before ++ .round op :: after →
    ∃ token later, after = .take (some (.ok token)) :: later ∧ token.kind = op.kind
  pulled_prefix : pulled events <+: source.items
  taken_prefix : taken events <+: source.items
  pulled_length_le : (pulled events).length ≤ source.tokens.length + 1
  pulled_after : ∀ before item after, events = before ++ .pull item :: after →
    (∀ token, item ≠ some (.ok token)) → pulled after = []

theorem effort_parse (rounds levels : Nat) (text : String) :
    Effort (.ofString text) (parse rounds levels text).events := by
  obtain ⟨last, hspends, -⟩ := spends_parse rounds levels text
  have hpulled : (Source.ofString text).items =
      pulled (parse rounds levels text).events ++ last.unpulled := hspends.unpulled
  refine ⟨hspends.orderly.within, hspends.orderly.signed, ⟨_, hpulled.symm⟩,
    ⟨_, hspends.untaken.symm⟩, ?_, fun before item after hevents hother => ?_⟩
  · have hlength := (Source.ofString text).length_items
    rw [hpulled, List.length_append] at hlength
    omega
  · have hitems : (Source.ofString text).items =
        pulled before ++ item :: (pulled after ++ last.unpulled) := by
      rw [hpulled, hevents, pulled_append, List.append_assoc]
      rfl
    exact (List.append_eq_nil_iff.mp (Source.eq_nil_of_items_eq hitems hother)).1

/-- A text is read to its end or refused, with no more than `maxDepth + 1` expressions read
inside each other, a sign taken in every round, and nothing pulled behind an error, although
that could be pulled for ever. More rounds and levels than it needs change nothing. The record
leaves nothing out: of a text that is read all items are pulled and taken. And the run of the
states keeps no more levels either. -/
theorem parse_effort (text : String) {rounds levels : Nat}
    (hrounds : text.toList.length < rounds) (hlevels : maxDepth < levels) :
    (parse rounds levels text).result = (Expression.parse text).mapError .error ∧
      parse rounds levels text = parse (text.toList.length + 1) (maxDepth + 1) text ∧
      Effort (.ofString text) (parse rounds levels text).events ∧
      (∀ e, Expression.parse text = .ok e →
        pulled (parse rounds levels text).events = (Source.ofString text).items ∧
          taken (parse rounds levels text).events = (Source.ofString text).items) ∧
      (∃ last, ∀ count,
        Scanner.pulls ((Source.ofString text).tokens.length + 1 + count) ⟨text.toList, 0⟩ =
          .ok ((Source.ofString text).items ++
            List.replicate count (Source.ofString text).ending, last)) ∧
      ∀ read state, read <+: (Source.ofString text).tokens →
        read.foldlM ParseState.step .start = .ok state → state.outer.length ≤ maxDepth := by
  have hresult : (parse rounds levels text).result = (Expression.parse text).mapError .error := by
    rw [← Checked.parseWithin, Checked.parseWithin_eq text hrounds hlevels]
  refine ⟨hresult, parse_eq_parse text hrounds hlevels, effort_parse rounds levels text,
    fun e hparse => ?_, ?_, fun read state _ hfold => ?_⟩
  · obtain ⟨last, hspends, hlast⟩ := spends_parse rounds levels text
    rw [hparse] at hresult
    obtain rfl := hlast e hresult
    exact ⟨hspends.unpulled.trans (List.append_nil _) |>.symm,
      hspends.untaken.trans (List.append_nil _) |>.symm⟩
  · have hat : Scanner.At ⟨text.toList, 0⟩ (Source.ofString text) := Reader.at_start text
    exact hat.pulls_eq
  · have hpath := Path.of_foldlM hfold
    exact (hpath.within (by decide) (ParseState.within_start maxDepth)).outer

/-- A text that is read, with no more rounds and levels than it needs. -/
theorem parse_effort_bracketed :
    "(x+y)".toList.length < 6 ∧ maxDepth < 257 ∧
      Effort (.ofString "(x+y)") (parse 6 257 "(x+y)").events ∧
      ∃ e, Expression.parse "(x+y)" = .ok e ∧
        taken (parse 6 257 "(x+y)").events = (Source.ofString "(x+y)").items := by
  have hrounds : "(x+y)".toList.length < 6 := by decide
  have hlevels : maxDepth < 257 := by decide
  have hread : (Expression.parse "(x+y)").toOption.isSome = true := by decide +kernel
  obtain ⟨-, -, heffort, htaken, -⟩ := parse_effort "(x+y)" hrounds hlevels
  refine ⟨hrounds, hlevels, heffort, ?_⟩
  cases hparse : Expression.parse "(x+y)" with
  | error error =>
      rw [hparse] at hread
      cases hread
  | ok e => exact ⟨e, rfl, (htaken e hparse).2⟩

-- The look behind the name pulls the stray character, and nothing is pulled after it.
example : pulled (parse 7 257 "(x ? y").events =
    [some (.ok ⟨.openBracket, "(", ⟨0, 1⟩⟩), some (.ok ⟨.name, "x", ⟨1, 2⟩⟩),
      some (.error (.strayCharacter '?' 3))] := by cbv

end Traced

end SumProduct
