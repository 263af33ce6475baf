import ArithCheck.Proofs.Scanner.Account
import ArithCheck.Proofs.Scanner.Leftover
import Mathlib.Logic.Relation

/-!
# Scanning comes to an end

To look for a token a scanner takes lexeme after lexeme until one makes a token, and nothing but the
lexemes themselves sees to it that this comes to an end: the byte that is held back is taken again,
and at the end of the stream nothing is read. It does so with every automaton that keeps its
contract and in whose start no lexeme may end.

* `Repeats`, `Loops`: one more round of the search, and the search as a loop without a bound;
* `loops_iff`: the loop has one result, and this is what `nextToken` gives;
* `Spends`, `spends_nextToken`: a call that hands out a token or a fault takes a byte;
* `scanning_terminates`: so tokens and faults are no more than the bytes to be scanned, and behind
  them there is nothing for ever.
-/

namespace ArithCheck

open Account

/-- Every lexeme of the automaton is UTF-8, and is to be dropped or makes a token. -/
def Automaton.Readable (a : Automaton) : Prop :=
  ∀ w q, a.run a.start w = some q → a.isFinal q = true →
    (∀ tag, a.tag q = .ok tag → tag = 0 ∨ ∃ k, Token.Kind.ofTag tag = .ok k) ∧
      ∃ text, Text.Utf8.decode w = .ok text

namespace Scanner

variable {s s' : Scanner} {states : Set Int} {result : EStateM.Result Fault Scanner (Option Token)}

/-! ## Rounds -/

/-- A round in which a token is looked for and none is found: a lexeme is taken that is to be
dropped, or there is none. -/
def Repeats (s s' : Scanner) : Prop :=
  ¬ s.atEnd = true ∧ (s.munch = .ok none s' ∨ s.munch = .ok (some 0) s')

/-- What comes of looking for a token round by round, for as long as it takes. -/
inductive Loops : Scanner → EStateM.Result Fault Scanner (Option Token) → Prop
  | complete {s : Scanner} (hend : s.atEnd = true) : Loops s (.ok none s)
  | again {s s' : Scanner} {result : EStateM.Result Fault Scanner (Option Token)}
    (h : s.Repeats s') (hrest : Loops s' result) : Loops s result
  | fault {s s' : Scanner} {fault : Fault} (hend : ¬ s.atEnd = true)
    (hm : s.munch = .error fault s') : Loops s (.error fault s')
  | unreadable {s s' : Scanner} {tag : Int} {fault : Fault} (hend : ¬ s.atEnd = true)
    (hm : s.munch = .ok (some tag) s') (htag : tag ≠ 0)
    (ht : s'.tokenOf s.position tag = .error fault) : Loops s (.error fault s')
  | token {s s' : Scanner} {tag : Int} {t : Token} (hend : ¬ s.atEnd = true)
    (hm : s.munch = .ok (some tag) s') (htag : tag ≠ 0)
    (ht : s'.tokenOf s.position tag = .ok t) : Loops s (.ok (some t) s')

/-- A fault takes the byte at fault, or at the end of the stream the lexeme that is given up. -/
theorem munch_fault {fault : Fault} (ha : s.automaton.Lawful states)
    (ho : s.stream.closed = false) (h : s.munch = .error fault s') :
    s'.input.length < s.input.length ∧ ∃ cause place, fault = .lexical cause place s.file := by
  cases hf : s.automaton.isFinal s.trail.state with
  | true =>
    obtain ⟨tag, -, hm⟩ := munch_tag ha ho hf
    rw [h] at hm
    cases hm
  | false =>
    by_cases hlast : s.trail.rest = [] ∧ s.trail.state = s.automaton.start
    · have hm := munch_end ha ho hf hlast.1 hlast.2
      rw [h] at hm
      cases hm
    · have hgo := not_and_or.mp hlast
      have hm := munch_stuck ha ho hf hgo
      rw [h] at hm
      cases hm
      refine ⟨?_, _, _, rfl⟩
      have hrest : (s.after s.trail).input = s.trail.rest.drop 1 :=
        input_after ho (absurd · (not_atEnd_of_trail hgo)) s.trail_append
      rw [hrest, ← s.trail_append, List.length_append, List.length_drop]
      cases hrest : s.trail.rest with
      | cons b rest => simp only [List.length_cons]; omega
      | nil =>
        have hne : s.trail.lexeme ≠ [] := fun hnil =>
          hlast ⟨hrest, Automaton.follow_state_of_nil hnil⟩
        have := List.length_pos_iff.mpr hne
        simp only [List.length_nil]
        omega

/-- A round takes a byte or meets the end. -/
theorem Repeats.shorter_or_atEnd (h : s.Repeats s')
    (hstart : s.automaton.isFinal s.automaton.start = false) :
    s'.input.length < s.input.length ∨ s'.atEnd = true := by
  rcases h.2 with hm | hm
  · exact .inr (atEnd_of_munch_none hm)
  · exact .inl (munch_input_lt hstart hm)

theorem Repeats.steady (h : s.Repeats s') : s.Steady s' :=
  h.2.elim steady_of_munch steady_of_munch

theorem steady_of_repeats {m : Scanner} (h : Relation.ReflTransGen Repeats s m) : s.Steady m := by
  induction h with
  | refl => exact .refl s
  | tail _ hstep ih => exact ih.trans hstep.steady

/-! ## The loop -/

/-- Rounds without a bound come to what `nextToken` gives. -/
theorem Loops.eq_nextToken (h : s.Loops result)
    (hstart : s.automaton.isFinal s.automaton.start = false) : result = s.nextToken := by
  induction h with
  | complete hend => exact (nextToken_of_atEnd hend).symm
  | @again s s' result h _ ih =>
    rw [ih (h.steady.start_not_final hstart)]
    rcases h.2 with hm | hm
    · rw [nextToken_of_munch_none h.1 hm, nextToken_of_atEnd (atEnd_of_munch_none hm)]
    · exact (nextToken_dropped hstart h.1 hm).symm
  | fault hend hm => exact (nextToken_of_munch_error hend hm).symm
  | unreadable hend hm htag ht | token hend hm htag ht => rw [nextToken_kept hend htag hm, ht]

/-- They always come to something. -/
theorem exists_loops (hstart : s.automaton.isFinal s.automaton.start = false) :
    ∃ result, s.Loops result := by
  -- By induction on the input: a lexeme that is dropped takes a byte.
  induction hlength : s.input.length using Nat.strongRecOn generalizing s with
  | ind n ih =>
  by_cases hend : s.atEnd = true
  · exact ⟨_, .complete hend⟩
  cases hm : s.munch with
  | error fault s' => exact ⟨_, .fault hend hm⟩
  | ok tag s' =>
    cases tag with
    | none => exact ⟨_, .again ⟨hend, .inl hm⟩ (.complete (atEnd_of_munch_none hm))⟩
    | some tag =>
      have hsteady := steady_of_munch hm
      by_cases htag : tag = 0
      · subst htag
        have hlt := munch_input_lt hstart hm
        obtain ⟨result, hrest⟩ := ih _ (hlength ▸ hlt) (hsteady.start_not_final hstart) rfl
        exact ⟨result, .again ⟨hend, .inr hm⟩ hrest⟩
      · cases ht : s'.tokenOf s.position tag with
        | error fault => exact ⟨_, .unreadable hend hm htag ht⟩
        | ok t => exact ⟨_, .token hend hm htag ht⟩

theorem loops_iff (hstart : s.automaton.isFinal s.automaton.start = false) :
    s.Loops result ↔ result = s.nextToken := by
  refine ⟨fun h => h.eq_nextToken hstart, ?_⟩
  rintro rfl
  obtain ⟨result, h⟩ := exists_loops hstart
  exact h.eq_nextToken hstart ▸ h

/-- The lexeme of a token is not empty. -/
theorem Loops.lexeme {t : Token} (h : s.Loops (.ok (some t) s'))
    (hstart : s.automaton.isFinal s.automaton.start = false) :
    s'.buffer ≠ [] ∧ Text.Utf8.decode s'.buffer = .ok t.value := by
  generalize hresult : EStateM.Result.ok (some t) s' = result at h
  induction h with
  | complete | fault | unreadable => cases hresult
  | again h _ ih => exact ih (h.steady.start_not_final hstart) hresult
  | @token s s₁ tag t₁ hend hm htag ht =>
    cases hresult
    obtain ⟨rfl, hf, -⟩ := munch_ok hm
    refine ⟨fun hnil => ?_, (makes_of_tokenOf ht).2⟩
    rw [trail, Automaton.follow_state_of_nil hnil, hstart] at hf
    cases hf

theorem tokenOf_ne_stalled (s : Scanner) (position : Position) (tag : Int) :
    s.tokenOf position tag ≠ .error .stalled := by
  rw [tokenOf, Token.Kind.ofTag]
  cases Token.Kind.ofTag? tag with
  | none =>
    intro h
    cases h
  | some k =>
    cases hv : Text.Utf8.decode s.buffer with
    | error fault => simp [bind, Except.bind, Except.mapError]
    | ok value => simp [bind, Except.bind, Except.mapError, pure, Except.pure]

theorem munch_ne_stalled (ha : s.automaton.Lawful states) : s.munch ≠ .error .stalled s' := by
  intro h
  rcases s.symbolAfter_cases s.trail with hsymbol | hsymbol
  · cases hf : s.automaton.isFinal s.trail.state with
    | true =>
      obtain ⟨tag, htag⟩ := ha.tag (ha.follow_mem s.input) hf
      have htag' : s.automaton.tag s.trail.state = .ok tag := htag
      simp [munch, hsymbol, step_trail ha, hf, htag'] at h
    | false =>
      simp only [munch, hsymbol, step_trail ha, hf, Bool.false_eq_true, if_false] at h
      split at h <;> simp [unexpected] at h
  · simp [munch, hsymbol] at h

/-- Running out of the bound of `nextToken` is not among the faults. -/
theorem Loops.fault_ne_stalled {fault : Fault} (h : s.Loops (.error fault s'))
    (ha : s.automaton.Lawful states) : fault ≠ .stalled := by
  generalize hresult : EStateM.Result.error fault s' = result at h
  induction h with
  | complete | token => cases hresult
  | again h _ ih => exact ih (h.steady.lawful ha) hresult
  | unreadable hend hm htag ht =>
    cases hresult
    rintro rfl
    exact tokenOf_ne_stalled _ _ _ ht
  | fault hend hm =>
    cases hresult
    rintro rfl
    exact munch_ne_stalled ha hm

/-! ## What a call takes -/

/-- What may come of a call over an open stream: what is handed out takes a byte, and where nothing
is handed out the end has been met. -/
inductive Spends (s : Scanner) : EStateM.Result Fault Scanner (Option Token) → Prop
  | token {t : Token} {s' : Scanner} (shorter : s'.input.length < s.input.length) :
    Spends s (.ok (some t) s')
  | complete {s' : Scanner} (atEnd : s'.atEnd = true) : Spends s (.ok none s')
  | fault {fault : Fault} {s' : Scanner} (shorter : s'.input.length < s.input.length)
    (lexical : s.automaton.Readable → ∃ cause place, fault = .lexical cause place s.file) :
    Spends s (.error fault s')

/-- A lexeme that can be read makes a token. -/
theorem tokenOf_of_readable {tag : Int} (hr : s.automaton.Readable)
    (hm : s.munch = .ok (some tag) s') (htag : tag ≠ 0) (position : Position) :
    ∃ t, s'.tokenOf position tag = .ok t := by
  obtain ⟨rfl, hf, hvalue⟩ := munch_ok hm
  obtain ⟨hkind, text, htext⟩ := hr s.trail.lexeme s.trail.state
    (s.automaton.run_follow s.automaton.start s.input) hf
  obtain ⟨k, hk⟩ := (hkind tag hvalue).resolve_left htag
  refine ⟨⟨k, text, position, s.file⟩, ?_⟩
  rw [tokenOf, hk, beyond_buffer, htext]
  rfl

theorem Loops.spends (h : s.Loops result) (ha : s.automaton.Lawful states)
    (hstart : s.automaton.isFinal s.automaton.start = false) (ho : s.stream.closed = false) :
    Spends s result := by
  induction h with
  | complete hend => exact .complete hend
  | @again s s' result h hrest ih =>
    have hsteady := h.steady
    have hspends := ih (hsteady.lawful ha) (hsteady.start_not_final hstart) (hsteady.opened ho)
    rcases h.2 with hm | hm
    · have hresult := hrest.eq_nextToken (hsteady.start_not_final hstart)
      rw [nextToken_of_atEnd (atEnd_of_munch_none hm)] at hresult
      rw [hresult]
      exact .complete (atEnd_of_munch_none hm)
    · have hlt := munch_input_lt hstart hm
      cases hspends with
      | token shorter => exact .token (by omega)
      | complete atEnd => exact .complete atEnd
      | fault shorter lexical =>
        rw [hsteady.automaton, hsteady.file] at lexical
        exact .fault (by omega) lexical
  | fault hend hm =>
    obtain ⟨hlt, hlexical⟩ := munch_fault ha ho hm
    exact .fault hlt fun _ => hlexical
  | @unreadable s s' tag fault hend hm htag ht =>
    refine .fault (munch_input_lt hstart hm) fun hr => ?_
    obtain ⟨t, ht'⟩ := tokenOf_of_readable hr hm htag s.position
    rw [ht] at ht'
    cases ht'
  | token hend hm => exact .token (munch_input_lt hstart hm)

theorem spends_nextToken (ha : s.automaton.Lawful states)
    (hstart : s.automaton.isFinal s.automaton.start = false) (ho : s.stream.closed = false) :
    Spends s s.nextToken :=
  ((loops_iff hstart).mpr rfl).spends ha hstart ho

/-- Either nothing is handed out and the end has been met, or a byte is taken. -/
theorem answer_cases (ha : s.automaton.Lawful states)
    (hstart : s.automaton.isFinal s.automaton.start = false) (ho : s.stream.closed = false) :
    s.answer = .ok none ∧ s.drawn.atEnd = true ∨
      s.answer ≠ .ok none ∧ s.drawn.input.length < s.input.length := by
  have hspends := spends_nextToken ha hstart ho
  rw [answer, drawn]
  generalize s.nextToken = result at hspends
  cases hspends with
  | token shorter => exact .inr ⟨by simp [outcome], shorter⟩
  | complete atEnd => exact .inl ⟨rfl, atEnd⟩
  | fault shorter => exact .inr ⟨by simp [outcome], shorter⟩

/-! ## Tapes -/

/-- Winding a scanner off does not run out of its bound either. -/
theorem tape_fault_ne_stalled (ha : s.automaton.Lawful states)
    (hstart : s.automaton.isFinal s.automaton.start = false) : s.tape.fault ≠ some .stalled := by
  induction hlength : s.input.length using Nat.strongRecOn generalizing s with
  | ind n ih =>
  cases hn : s.nextToken with
  | error fault s' =>
    have hloops : s.Loops (.error fault s') := (loops_iff hstart).mpr hn.symm
    rw [tape_fault hn]
    exact fun h => hloops.fault_ne_stalled ha (Option.some.inj h)
  | ok token s' =>
    cases token with
    | none =>
      rw [tape_none hn]
      intro h
      cases h
    | some t =>
      have hsteady := steady_of_nextToken hn
      have hlt := nextTokenWithin_input_lt hstart hn
      rw [tape_token hstart hn]
      exact ih _ (hlength ▸ hlt) (hsteady.lawful ha) (hsteady.start_not_final hstart) rfl

end Scanner

/-! ## Calls -/

namespace Account

open Scanner

variable {s : Scanner} {states : Set Int}

/-- The first call and the ones behind it. -/
theorem answers_calls_succ (s : Scanner) (n : Nat) :
    ((opened s).calls (n + 1)).answers = s.answer :: ((opened s.drawn).calls n).answers := by
  rw [Nat.add_comm, calls_add, (calls_eq _ n).1]
  show ((opened s).call).answers ++ ((opened ((opened s).call).scanner).calls n).answers = _
  rw [call_eq]
  rfl

theorem steady_calls (s : Scanner) (n : Nat) : s.Steady ((opened s).calls n).scanner := by
  induction n with
  | zero => exact .refl s
  | succ n ih =>
    rw [calls, call_eq]
    exact ih.trans (steady_nextToken _)

/-- After no more calls than there are bytes nothing is handed out any more. -/
theorem exists_calls_settled (ha : s.automaton.Lawful states)
    (hstart : s.automaton.isFinal s.automaton.start = false) (ho : s.stream.closed = false) :
    ∃ n ≤ s.input.length, .ok none ∉ ((opened s).calls n).answers ∧
      ∀ m, ((opened s).calls (n + m)).answers =
        ((opened s).calls n).answers ++ List.replicate m (.ok none) := by
  -- By induction on the input: a call that hands something out takes a byte.
  induction hlength : s.input.length using Nat.strongRecOn generalizing s with
  | ind k ih =>
  rcases answer_cases ha hstart ho with ⟨hnone, hend⟩ | ⟨hsome, hlt⟩
  · refine ⟨0, Nat.zero_le k, List.not_mem_nil, fun m => ?_⟩
    cases m with
    | zero => rfl
    | succ m =>
      rw [Nat.zero_add, answers_calls_succ, hnone, calls_of_atEnd hend]
      rfl
  · have hsteady : s.Steady s.drawn := s.steady_nextToken
    obtain ⟨n, hn, hnot, hrest⟩ := ih _ (hlength ▸ hlt) (hsteady.lawful ha)
      (hsteady.start_not_final hstart) (hsteady.opened ho) rfl
    refine ⟨n + 1, by omega, ?_, fun m => ?_⟩
    · rw [answers_calls_succ, List.mem_cons, not_or]
      exact ⟨fun h => hsome h.symm, hnot⟩
    · rw [Nat.add_right_comm, answers_calls_succ, answers_calls_succ, hrest]
      rfl

theorem length_token?_add_fault? (answers : List Answer) :
    (answers.filterMap Answer.token?).length + (answers.filterMap Answer.fault?).length ≤
      answers.length := by
  induction answers with
  | nil => exact Nat.le_refl 0
  | cons answer rest ih =>
    simp only [List.filterMap_cons, List.length_cons]
    cases answer with
    | error fault => exact Nat.succ_le_succ ih
    | ok token =>
      cases token with
      | none => exact Nat.le_succ_of_le ih
      | some t =>
        show (rest.filterMap Answer.token?).length + 1 + (rest.filterMap Answer.fault?).length ≤
          rest.length + 1
        omega

/-- However many calls there are, they hand out no more tokens and faults than there are bytes. -/
theorem length_tokens_add_faults (ha : s.automaton.Lawful states)
    (hstart : s.automaton.isFinal s.automaton.start = false) (ho : s.stream.closed = false)
    (m : Nat) : ((opened s).calls m).tokens.length + ((opened s).calls m).faults.length ≤
      s.input.length := by
  obtain ⟨n, hn, -, hrest⟩ := exists_calls_settled ha hstart ho
  have hmore : ((opened s).calls m).answers <+: ((opened s).calls n).answers ++
      List.replicate m (.ok none) := by
    rw [← hrest m, Nat.add_comm, calls_add, (calls_eq _ n).1]
    exact List.prefix_append _ _
  have htokens := (hmore.filterMap Answer.token?).length_le
  have hfaults := (hmore.filterMap Answer.fault?).length_le
  have hcount := length_token?_add_fault? ((opened s).calls n).answers
  have hnothing : (List.replicate m (.ok none : Answer)).filterMap Answer.token? = [] ∧
      (List.replicate m (.ok none : Answer)).filterMap Answer.fault? = [] :=
    ⟨List.filterMap_replicate_of_none rfl, List.filterMap_replicate_of_none rfl⟩
  rw [length_answers] at hcount
  rw [List.filterMap_append, hnothing.1, List.append_nil] at htokens
  rw [List.filterMap_append, hnothing.2, List.append_nil] at hfaults
  rw [tokens, faults]
  omega

/-- With lexemes that can be read every fault is a lexical one. -/
theorem lexical_of_mem_faults (ha : s.automaton.Lawful states)
    (hstart : s.automaton.isFinal s.automaton.start = false) (ho : s.stream.closed = false)
    (hr : s.automaton.Readable) (n : Nat) :
    ∀ f ∈ ((opened s).calls n).faults, ∃ cause place, f = .lexical cause place s.file := by
  induction n with
  | zero => exact List.forall_mem_nil _
  | succ n ih =>
    have hsteady := steady_calls s n
    have hspends := spends_nextToken (hsteady.lawful ha) (hsteady.start_not_final hstart)
      (hsteady.opened ho)
    intro f hf
    rw [calls, call_eq, faults, List.filterMap_append, List.mem_append] at hf
    rcases hf with hf | hf
    · exact ih f hf
    · rw [answer] at hf
      generalize ((opened s).calls n).scanner.nextToken = result at hspends hf
      cases hspends with
      | token | complete => simp [outcome, Answer.fault?] at hf
      | fault shorter lexical =>
        obtain rfl : f = _ := by simpa [outcome, Answer.fault?] using hf
        rw [hsteady.file, hsteady.automaton] at lexical
        exact lexical hr

end Account

open Scanner in
/-- Scanning comes to an end. Let a scanner in any state have an automaton that keeps its contract
and in whose start no lexeme may end. While a token is looked for, each round that is followed by
another takes a byte or meets the end, and the rounds come to what `nextToken` gives, and to nothing
else. The lexeme of a token is not empty, and the tokens up to the end or to a fault are no more
than the bytes to be scanned. If the stream is open, any number of calls hand out no more tokens and
faults together than there are bytes: after some calls, which are no more than the bytes and each of
which hands something out, all others hand out nothing. The faults are lexical ones if all lexemes
can be read. -/
theorem scanning_terminates {s : Scanner} {states : Set Int} (ha : s.automaton.Lawful states)
    (hstart : s.automaton.isFinal s.automaton.start = false) :
    (∀ m m', Relation.ReflTransGen Repeats s m → m.Repeats m' →
      m'.input.length < m.input.length ∨ m'.atEnd = true) ∧
    (∀ result, s.Loops result ↔ result = s.nextToken) ∧
    (∀ t s', s.nextToken = .ok (some t) s' →
      s'.buffer ≠ [] ∧ Text.Utf8.decode s'.buffer = .ok t.value ∧ t.value ≠ "") ∧
    (s.tape.tokens.length ≤ s.input.length ∧ s.tape.fault ≠ some .stalled) ∧
    (s.stream.closed = false →
      (∀ n, ((opened s).calls n).tokens.length + ((opened s).calls n).faults.length ≤
        s.input.length) ∧
      (∃ n ≤ s.input.length, .ok none ∉ ((opened s).calls n).answers ∧
        ∀ m, ((opened s).calls (n + m)).answers =
          ((opened s).calls n).answers ++ List.replicate m (.ok none)) ∧
      (s.automaton.Readable →
        ∀ n, ∀ f ∈ ((opened s).calls n).faults,
          ∃ cause place, f = .lexical cause place s.file)) := by
  refine ⟨fun m m' hm hround => ?_, fun result => loops_iff hstart, fun t s' hn => ?_,
    ⟨length_tokens_le hstart, tape_fault_ne_stalled ha hstart⟩, fun ho => ?_⟩
  · have hsteady := steady_of_repeats hm
    exact hround.shorter_or_atEnd (hsteady.start_not_final hstart)
  · have hloops : s.Loops (.ok (some t) s') := (loops_iff hstart).mpr hn.symm
    obtain ⟨hne, hdecode⟩ := hloops.lexeme hstart
    refine ⟨hne, hdecode, fun hempty => hne ?_⟩
    rw [hempty] at hdecode
    exact Text.Utf8.eq_nil_of_decode hdecode
  · exact ⟨length_tokens_add_faults ha hstart ho, exists_calls_settled ha hstart ho,
      lexical_of_mem_faults ha hstart ho⟩

/-- With the lexicon of the letter `b` behind letters `a`, the five bytes of `acaba` are a fault, a
token and a letter `a` that is left over: two calls hand something out, and no call behind them. -/
theorem scanning_terminates_behindA :
    let s := Scanner.ofBytes Scanner.behindA.automaton [0x61, 0x63, 0x61, 0x62, 0x61] none false
    s.automaton.Lawful Scanner.behindA.declared ∧
      s.automaton.isFinal s.automaton.start = false ∧ s.stream.closed = false ∧
      ((opened s).calls 2).tokens.length = 1 ∧ ((opened s).calls 2).faults.length = 1 ∧
      ∃ n ≤ 5, .ok none ∉ ((opened s).calls n).answers ∧
        ∀ m, ((opened s).calls (n + m)).answers =
          ((opened s).calls n).answers ++ List.replicate m (.ok none) := by
  intro s
  have ha : s.automaton.Lawful Scanner.behindA.declared := Automaton.Table.lawful (by decide) rfl
  have hstart : s.automaton.isFinal s.automaton.start = false := rfl
  obtain ⟨-, -, -, -, hcalls⟩ := scanning_terminates ha hstart
  exact ⟨ha, hstart, rfl, by decide, by decide, (hcalls rfl).2.1⟩

end ArithCheck
