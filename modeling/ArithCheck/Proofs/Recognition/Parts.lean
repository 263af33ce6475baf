import ArithCheck.Recognition

/-!
# The parts of a recognition

What the parts of a rule do to a recognition of a given state, over any source: a terminal, one
part after another, and a chain. `body` is a rule apart from its entry and its limit, and `conclude`
is what comes after the rule of expressions.
-/

namespace ArithCheck.Recognition

open Token

variable {σ : Type} {first second third operand : Recognize σ Bool} {r r' : Recognition σ}
  {fault : Fault} {k : Kind} {operators : List Kind} {bound : Nat}

/-- The kind of the token ahead. -/
def ahead (r : Recognition σ) : Option Kind := r.lookahead.map (·.kind)

/-- What is ahead decides how a computation goes on. -/
theorem kindAhead_bind {α : Type} (next : Option Kind → Recognize σ α) (r : Recognition σ) :
    (kindAhead >>= next) r = next r.ahead r := rfl

/-- A computation that has to do with the log only: it does not look at the source, and leaves it
and the token ahead as they are. -/
def Aside {α : Type} (c : Recognize σ α) : Prop :=
  ∀ r : Recognition σ, ∃ a log, ∀ source : σ,
    c { r with source := source } = .ok a { r with source := source, log := log }

theorem aside_kindAhead : Aside (kindAhead : Recognize σ (Option Kind)) :=
  fun r => ⟨r.ahead, r.log, fun _ => rfl⟩

/-- The record of entering a rule, if rules are traced. -/
def entering (n : Nonterminal) (active : Nat) (r : Recognizer) : List Log.Record :=
  if r.tracing then [.enter n active r.lookahead] else []

/-- All that entering a rule changes is the log. -/
theorem enter_eq (n : Nonterminal) (active : Nat) (r : Recognition σ) :
    enter n active r = .ok () { r with log := r.log ++ entering n active r.toRecognizer } := by
  have henter : enter n active r =
      (if r.tracing = true then write (.enter n active r.lookahead) else pure ()) r := rfl
  rw [henter, entering]
  split <;> rfl

theorem aside_enter (n : Nonterminal) (active : Nat) :
    Aside (enter n active : Recognize σ Unit) := fun r =>
  ⟨(), r.log ++ entering n active r.toRecognizer, fun source =>
    enter_eq n active { r with source := source }⟩

/-! ## One part after another -/

theorem both_true (h : first r = .ok true r') : both first second r = second r' := by
  simp only [both, bind, EStateM.bind, h, if_true]

theorem both_false (h : first r = .ok false r') : both first second r = .ok false r' := by
  simp only [both, bind, EStateM.bind, h]
  rfl

theorem both_error (h : first r = .error fault r') : both first second r = .error fault r' := by
  simp only [both, bind, EStateM.bind, h]

theorem both_assoc : both (both first second) third = both first (both second third) := by
  funext r
  cases h : first r with
  | error fault s => rw [both_error h, both_error (both_error h)]
  | ok b s =>
    cases b with
    | false => rw [both_false h, both_false (both_false h)]
    | true =>
      rw [both_true h]
      have h' : both first second r = second s := both_true h
      cases hs : second s with
      | error fault u => rw [both_error hs, both_error (h'.trans hs)]
      | ok b u =>
        cases b with
        | false => rw [both_false hs, both_false (h'.trans hs)]
        | true => rw [both_true hs, both_true (h'.trans hs)]

/-! ## The conclusion -/

/-- What a recognition does after the rule of expressions. -/
def conclude (complete : Bool) : Recognize σ Bool := do
  let rest := (← get).lookahead
  if complete then
    if let some token := rest then write (.trailing token.location)
  let accepted := complete && rest.isNone
  write (.verdict accepted)
  return accepted

/-- The records of a conclusion with the given token ahead. -/
def concluding (complete : Bool) (rest : Option Token) : List Log.Record :=
  (if complete then rest.toList.map fun t => .trailing t.location else []) ++
    [.verdict (complete && rest.isNone)]

/-- A conclusion accepts if the rule does and nothing is left. It changes nothing but the log. -/
theorem conclude_eq (complete : Bool) (r : Recognition σ) :
    conclude complete r = .ok (complete && r.lookahead.isNone)
      { r with log := r.log ++ concluding complete r.lookahead } := by
  obtain ⟨⟨tracing, lookahead⟩, source, log⟩ := r
  cases complete with
  | false => rfl
  | true => cases lookahead <;> rfl

theorem aside_conclude (complete : Bool) : Aside (conclude complete : Recognize σ Bool) :=
  fun r => ⟨complete && r.lookahead.isNone, r.log ++ concluding complete r.lookahead,
    fun source => conclude_eq complete { r with source := source }⟩

variable [TokenSource σ]

/-! ## Terminals -/

theorem advance_eq {token : Option Token} {source : σ}
    (h : TokenSource.pull r.source = .ok token source) :
    advance r = .ok () { r with
      source := source
      lookahead := token
      log := r.log ++ Log.ofToken (TokenSource.tracing r.source) token } := by
  rw [advance, h]

theorem advance_error {source : σ} (h : TokenSource.pull r.source = .error fault source) :
    advance r = .error fault { r with source := source } := by
  rw [advance, h]

theorem terminal_ok (hk : r.ahead = some k) (h : advance r = .ok () r') :
    terminal k r = .ok true r' := by
  rw [terminal, kindAhead_bind, if_pos hk]
  simp only [bind, EStateM.bind, h]
  rfl

theorem terminal_error (hk : r.ahead = some k)
    (h : advance r = .error fault r') : terminal k r = .error fault r' := by
  rw [terminal, kindAhead_bind, if_pos hk]
  simp only [bind, EStateM.bind, h]

theorem terminal_false (hk : r.ahead ≠ some k) : terminal k r = .ok false r := by
  rw [terminal, kindAhead_bind, if_neg hk]
  rfl

/-! ## Chains -/

/-- A chain goes on with an operator that is ahead. -/
theorem chain_operator (hk : r.ahead = some k) (hmem : k ∈ operators) :
    chain operators operand (bound + 1) r =
      both (terminal k) (both operand (chain operators operand bound)) r := by
  rw [chain, kindAhead_bind, hk, ← both_assoc]
  exact congrFun (if_pos hmem) r

/-- A chain is over where no operator is ahead. -/
theorem chain_over (hk : ∀ k, r.ahead = some k → k ∉ operators) :
    chain operators operand (bound + 1) r = .ok true r := by
  rw [chain, kindAhead_bind]
  cases h : r.ahead with
  | none => rfl
  | some k => exact congrFun (if_neg (hk k h)) r

/-! ## Rules -/

/-- The rule of a nonterminal without its entry, given the rules that it can enter and a bound for
its chain. -/
def body (call : Nonterminal → Recognize σ Bool) (bound : Nat) : Nonterminal → Recognize σ Bool
  | .e => both (call .t) (call .ee)
  | .ee => chain [.plus, .minus] (call .t) bound
  | .t => both (call .x) (call .tt)
  | .tt => chain [.times, .divide] (call .x) bound
  | .x => both (call .y) (call .xx)
  | .xx => do
    if (← kindAhead) = some .pow then both (terminal .pow) (call .x) else return true
  | .y => do
    match ← kindAhead with
    | some .plus => both (terminal .plus) (call .f)
    | some .minus => both (terminal .minus) (call .f)
    | _ => call .f
  | .f => do
    match ← kindAhead with
    | some .lparen => both (terminal .lparen) (both (call .e) (terminal .rparen))
    | some .float => terminal .float
    | some .variable => terminal .variable
    | _ => return false

variable {call : Nonterminal → Recognize σ Bool}

theorem body_xx_pow (hk : r.ahead = some .pow) :
    body call bound .xx r = both (terminal .pow) (call .x) r := by
  rw [body, kindAhead_bind, if_pos hk]

theorem body_xx_over (hk : r.ahead ≠ some .pow) : body call bound .xx r = .ok true r := by
  rw [body, kindAhead_bind, if_neg hk]
  rfl

theorem body_y_signed (hk : r.ahead = some k) (hsign : k = .plus ∨ k = .minus) :
    body call bound .y r = both (terminal k) (call .f) r := by
  rw [body, kindAhead_bind, hk]
  rcases hsign with rfl | rfl <;> rfl

theorem body_y_unsigned (hplus : r.ahead ≠ some .plus) (hminus : r.ahead ≠ some .minus) :
    body call bound .y r = call .f r := by
  rw [body, kindAhead_bind]
  cases h : r.ahead with
  | none => rfl
  | some k =>
    cases k with
    | plus => exact absurd h hplus
    | minus => exact absurd h hminus
    | _ => rfl

theorem body_f_group (hk : r.ahead = some .lparen) :
    body call bound .f r = both (terminal .lparen) (both (call .e) (terminal .rparen)) r := by
  rw [body, kindAhead_bind, hk]

theorem body_f_atom (hk : r.ahead = some k) (hatom : k = .float ∨ k = .variable) :
    body call bound .f r = terminal k r := by
  rw [body, kindAhead_bind, hk]
  rcases hatom with rfl | rfl <;> rfl

theorem body_f_over (hgroup : r.ahead ≠ some .lparen) (hfloat : r.ahead ≠ some .float)
    (hvariable : r.ahead ≠ some .variable) : body call bound .f r = .ok false r := by
  rw [body, kindAhead_bind]
  cases h : r.ahead with
  | none => rfl
  | some k =>
    cases k with
    | lparen => exact absurd h hgroup
    | float => exact absurd h hfloat
    | «variable» => exact absurd h hvariable
    | _ => rfl

/-- A rule with a budget is entered, and then it is its body. -/
theorem rule_eq (width budget active : Nat) (n : Nonterminal) :
    (rule width (budget + 1) active n : Recognize σ Bool) =
      enter n (active + 1) >>= fun _ => body (rule width budget (active + 1)) width n := by
  cases n <;> rfl

theorem rule_succ (width budget active : Nat) (n : Nonterminal) (r : Recognition σ) :
    rule width (budget + 1) active n r = body (rule width budget (active + 1)) width n
      { r with log := r.log ++ entering n (active + 1) r.toRecognizer } := by
  rw [rule_eq]
  simp only [bind, EStateM.bind, enter_eq]

/-! ## Whole recognitions -/

variable {α : Type} {c : Recognize σ α} {limit : Nat} {r₁ : Recognition σ}

theorem nested_ok {a : α} (h : c r = .ok a r') : nested c r = .ok a r' := by
  rw [nested, h]

theorem nested_exhausted (h : c r = .error .exhausted r') : nested c r =
    .error (.nesting (r'.lookahead.map (·.position)) (TokenSource.file r'.source)) r' := by
  rw [nested, h]

theorem nested_error (h : c r = .error fault r') (hne : fault ≠ .exhausted) :
    nested c r = .error fault r' := by
  rw [nested, h]
  cases fault with
  | exhausted => exact absurd rfl hne
  | _ => rfl

/-- A fault of the first drawing. -/
theorem recognize_of_advance_error (h : advance r = .error fault r') :
    recognize limit r = .error fault r' := by
  simp only [recognize, bind, EStateM.bind, h]

theorem recognize_of_advance (h : advance r = .ok () r₁) :
    recognize limit r = (nested (rule r₁.width limit 0 .e) >>= conclude) r₁ := by
  simp only [recognize, bind, EStateM.bind, h]
  rfl

theorem recognize_of_exhausted (h : advance r = .ok () r₁)
    (hrule : rule r₁.width limit 0 .e r₁ = .error .exhausted r') :
    recognize limit r =
      .error (.nesting (r'.lookahead.map (·.position)) (TokenSource.file r'.source)) r' := by
  rw [recognize_of_advance h]
  simp only [bind, EStateM.bind, nested_exhausted hrule]

theorem recognize_of_error (h : advance r = .ok () r₁) (hne : fault ≠ .exhausted)
    (hrule : rule r₁.width limit 0 .e r₁ = .error fault r') :
    recognize limit r = .error fault r' := by
  rw [recognize_of_advance h]
  simp only [bind, EStateM.bind, nested_error hrule hne]

theorem recognize_of_ok {complete : Bool} (h : advance r = .ok () r₁)
    (hrule : rule r₁.width limit 0 .e r₁ = .ok complete r') :
    recognize limit r = .ok (complete && r'.lookahead.isNone)
      { r' with log := r'.log ++ concluding complete r'.lookahead } := by
  rw [recognize_of_advance h]
  simp only [bind, EStateM.bind, nested_ok hrule, conclude_eq]

end ArithCheck.Recognition
