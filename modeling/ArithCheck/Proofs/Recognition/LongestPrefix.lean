import ArithCheck.Proofs.Grammar.Viable
import ArithCheck.Proofs.Recognition.Scanning
import Mathlib.Data.List.Induction

/-!
# The rules take longest prefixes

A rule may be entered from any state of a recognizer: with any token ahead or with none, over a
scanner with any lexicon. It takes the longest part of what is ahead with which a sentence of its
nonterminal can begin.

* `outlook`: what is ahead of a recognition over a scanner, as a tape;
* `LongestViable`: the longest part of tokens with which a sentence can begin;
* `rule_idle`: a rule that can take nothing, over any source;
* `Outcome.consumes`: a rule that can take something, told by its outcome over the tape;
* `rule_takes_longest`: every rule over every scanner.
-/

namespace ArithCheck

open Token Outline

/-- The longest part of tokens with which a sentence of a nonterminal can begin. -/
structure LongestViable (n : Nonterminal) (ts u : List Token) : Prop where
  le : u <+: ts
  viable : Viable n (kindsOf u)
  longest {w : List Token} (hle : w <+: ts) (hw : Viable n (kindsOf w)) : w <+: u

variable {n : Nonterminal}

/-- With nothing at all every nonterminal has a sentence that begins. -/
theorem viable_nil (n : Nonterminal) : Viable n [] := viable_iff_run.mpr ⟨⟨_, rfl⟩, nofun⟩

/-- A kind begins a sentence if it can come next and is left to the sentence. -/
theorem viable_single {k : Kind} (hk : (step n.operators n.initial k).isSome = true)
    (hreserved : k ∉ n.reserved) : Viable n [k] := by
  obtain ⟨s, hs⟩ := Option.isSome_iff_exists.mp hk
  refine viable_iff_run.mpr ⟨⟨s, run_step hs rfl⟩, fun k' h => ?_⟩
  obtain rfl : k = k' := Option.some.inj h
  exact hreserved

/-- Where the first token cannot begin a sentence nothing is taken. -/
theorem longestViable_nil {ts : List Token} (h : ∀ t, ts.head? = some t → ¬ Viable n [t.kind]) :
    LongestViable n ts [] where
  le := List.nil_prefix
  viable := viable_nil n
  longest {w} hle hw := by
    cases w with
    | nil => exact List.nil_prefix
    | cons t w =>
      obtain ⟨rest, rfl⟩ := hle
      exact absurd (hw.mono (by simp)) (h t rfl)

theorem exists_longestViable (n : Nonterminal) (ts : List Token) :
    ∃ u, LongestViable n ts u := by
  induction ts using List.reverseRecOn with
  | nil => exact ⟨[], longestViable_nil nofun⟩
  | append_singleton ts t ih =>
    by_cases hall : Viable n (kindsOf (ts ++ [t]))
    · exact ⟨ts ++ [t], List.prefix_rfl, hall, fun hle _ => hle⟩
    · obtain ⟨u, hu⟩ := ih
      refine ⟨u, hu.le.trans (List.prefix_append ts [t]), hu.viable, fun {w} hle hw => ?_⟩
      rcases List.prefix_concat_iff.mp hle with rfl | hle
      · exact absurd hw hall
      · exact hu.longest hle hw

/-- Where an outline goes on along tokens and not beyond them they are the longest part. -/
theorem longestViable_of_run {u v : List Token} {s : Outline}
    (hrun : run n.operators n.initial (kindsOf u) = some s)
    (hreserved : ∀ k, (kindsOf u).head? = some k → k ∉ n.reserved)
    (hstuck : ∀ t, v.head? = some t → step n.operators s t.kind = none) :
    LongestViable n (u ++ v) u where
  le := List.prefix_append u v
  viable := viable_iff_run.mpr ⟨⟨s, hrun⟩, hreserved⟩
  longest {w} hle hw := by
    rcases List.prefix_or_prefix_of_prefix hle (List.prefix_append u v) with h | ⟨rest, rfl⟩
    · exact h
    cases rest with
    | nil => simp
    | cons t rest =>
      obtain ⟨after, hafter⟩ := (List.prefix_append_right_inj u).mp hle
      have hnext := hstuck t (by rw [← hafter]; rfl)
      rw [kindsOf_append, kindsOf_cons] at hw
      exact absurd hw (not_viable_of_stuck hrun hnext _)

namespace Recognition

variable {σ : Type}

/-! ## Rules that can take nothing -/

/-- No token is ahead with which a sentence of the nonterminal can begin. -/
def Idle (n : Nonterminal) (r : Recognition σ) : Prop :=
  ∀ k, r.ahead = some k → ¬ Viable n [k]

/-- A recognition stays where it is: an answer is given, or too many rules are in progress. -/
inductive Stays (answer : Bool) (short : Prop) (r : Recognition σ) :
    EStateM.Result Fault (Recognition σ) Bool → Prop
  | answered (log : Log) : Stays answer short r (.ok answer { r with log := log })
  | exhausted (many : short) (log : Log) :
    Stays answer short r (.error .exhausted { r with log := log })

variable {r : Recognition σ} {result : EStateM.Result Fault (Recognition σ) Bool}

theorem Stays.mono {answer : Bool} {short short' : Prop} {log : Log} (hshort : short → short')
    (h : Stays answer short { r with log := log } result) : Stays answer short' r result := by
  cases h with
  | answered log => exact .answered log
  | exhausted many log => exact .exhausted (hshort many) log

/-- The second of two parts is not reached where the first does not succeed. -/
theorem Stays.both {short : Prop} {first second : Recognize σ Bool}
    (h : Stays false short r (first r)) : Stays false short r (both first second r) := by
  generalize hfirst : first r = result at h
  cases h with
  | answered log => rw [both_false hfirst]; exact .answered log
  | exhausted many log => rw [both_error hfirst]; exact .exhausted many log

/-- What can begin no sentence begins none of those that come first in it. -/
theorem Idle.mono {m : Nonterminal} (h : Idle n r)
    (hle : ∀ ks, Derives m ks → ∃ ks', Derives n (ks ++ ks')) : Idle m r := by
  rintro k hk ⟨ks, hks⟩
  obtain ⟨ks', hsentence⟩ := hle _ hks
  exact h k hk ⟨ks ++ ks', by rw [← List.append_assoc]; exact hsentence⟩

theorem Idle.ne {k : Kind} (h : Idle n r) (hk : Viable n [k]) : r.ahead ≠ some k :=
  fun hahead => h k hahead hk

theorem Idle.not_mem {ks : List Kind} (h : Idle n r)
    (hks : ∀ k ∈ ks, (step n.operators n.initial k).isSome = true ∧ k ∉ n.reserved) :
    ∀ k, r.ahead = some k → k ∉ ks := fun k hk hmem =>
  h k hk (viable_single (hks k hmem).1 (hks k hmem).2)

variable [TokenSource σ]

/-- A rule that can take nothing draws no token, and accepts if it has the empty sentence. -/
theorem rule_idle {n : Nonterminal} {r : Recognition σ} (h : Idle n r) (width budget active : Nat) :
    Stays (decide (n.initial = done)) (budget < n.rank) r (rule (width + 1) budget active n r) := by
  -- The rules that come first in each other are entered one inside the other.
  induction budget generalizing n r active with
  | zero => exact .exhausted n.rank_pos r.log
  | succ budget ih =>
    rw [rule_succ]
    generalize r.log ++ entering n (active + 1) r.toRecognizer = log
    have hidle : Idle n { r with log := log } := h
    cases n with
    | e =>
      have hfirst : Idle .t { r with log := log } :=
        hidle.mono fun ks hks => ⟨[], .sum hks .sumEnd⟩
      exact (Stays.both (ih hfirst (active + 1))).mono fun hlt => Nat.succ_lt_succ hlt
    | t =>
      have hfirst : Idle .x { r with log := log } :=
        hidle.mono fun ks hks => ⟨[], .product hks .productEnd⟩
      exact (Stays.both (ih hfirst (active + 1))).mono fun hlt => Nat.succ_lt_succ hlt
    | x =>
      have hfirst : Idle .y { r with log := log } :=
        hidle.mono fun ks hks => ⟨[], .power hks .powerEnd⟩
      exact (Stays.both (ih hfirst (active + 1))).mono fun hlt => Nat.succ_lt_succ hlt
    | y =>
      have hfirst : Idle .f { r with log := log } := hidle.mono fun ks hks =>
        ⟨[], (List.append_nil ks).symm ▸ .unsigned hks⟩
      rw [body_y_unsigned (hidle.ne (viable_single rfl (by decide)))
        (hidle.ne (viable_single rfl (by decide)))]
      exact (ih hfirst (active + 1)).mono fun hlt => Nat.succ_lt_succ hlt
    | ee =>
      rw [body, chain_over (hidle.not_mem (by decide))]
      exact .answered log
    | tt =>
      rw [body, chain_over (hidle.not_mem (by decide))]
      exact .answered log
    | xx =>
      rw [body_xx_over (hidle.ne (viable_single rfl (by decide)))]
      exact .answered log
    | f =>
      rw [body_f_over (hidle.ne (viable_single rfl (by decide)))
        (hidle.ne (viable_single rfl (by decide))) (hidle.ne (viable_single rfl (by decide)))]
      exact .answered log

/-! ## What is ahead -/

section Scanning

variable {r r' : Recognition Scanner} {q q' : Recognition Tape}

/-- What is ahead of a recognition: the token ahead, and what the scanner will hand out behind it.
Where no token is ahead it is the end of the input. -/
def outlook (r : Recognition Scanner) : Tape :=
  match r.lookahead with
  | none => ⟨[], none, r.source.file, r.source.tracing⟩
  | some t => { r.source.tape with tokens := t :: r.source.tape.tokens }

theorem head?_outlook (r : Recognition Scanner) : r.outlook.tokens.head? = r.lookahead := by
  rw [outlook]
  cases r.lookahead <;> rfl

theorem outlook_eq_nil (h : r.outlook.tokens = []) : r.outlook.fault = none := by
  rw [outlook] at h ⊢
  cases hl : r.lookahead with
  | none => rfl
  | some t => simp [hl] at h

/-- It is what the recognition over the tape has not taken yet. -/
theorem Scanning.outlook_eq (h : Scanning r q) (hq : q.Settled) :
    r.outlook = { q.source with tokens := q.pending } := by
  rw [outlook, pending, ← h.lookahead, ← h.tape]
  cases hl : r.lookahead with
  | some t => rfl
  | none =>
    obtain ⟨htokens, hfault⟩ := hq (h.lookahead ▸ hl)
    rw [← h.tape] at htokens hfault
    simp only [Option.toList_none, List.nil_append]
    rw [htokens, hfault, Scanner.tape_file, Scanner.tape_tracing]

/-! ## What a rule takes -/

/-- How a rule may end in front of the tokens `u` and `v`, of which `u` are its own. -/
inductive Consumes (n : Nonterminal) (short : Prop) (r : Recognition Scanner) (u v : List Token) :
    EStateM.Result Fault (Recognition Scanner) Bool → Prop
  /-- The tokens `u` are taken, and the first one of `v` is ahead. -/
  | taken {accepted : Bool} {r' : Recognition Scanner} (behind : r.outlook.fault = none ∨ v ≠ [])
    (rest : r'.outlook = { r.outlook with tokens := v }) (still : u = [] → r'.source = r.source)
    (sentence : accepted = true ↔ Derives n (kindsOf u)) : Consumes n short r u v (.ok accepted r')
  /-- The fault behind the tokens comes up, with the last one still ahead. -/
  | faulty {fault : Fault} {r' : Recognition Scanner} (met : r.outlook.fault = some fault)
    (all : v = []) (last : r'.lookahead = r.outlook.tokens.getLast?) :
    Consumes n short r u v (.error fault r')
  /-- Too many rules are in progress. -/
  | exhausted {r' : Recognition Scanner} (many : short) :
    Consumes n short r u v (.error .exhausted r')

/-- Where nothing can be taken the scanner is left alone. -/
theorem Stays.consumes {short : Prop} {result : EStateM.Result Fault (Recognition Scanner) Bool}
    (h : Stays (decide (n.initial = done)) short r result) :
    Consumes n short r [] r.outlook.tokens result := by
  cases h with
  | exhausted many log => exact .exhausted many
  | answered log =>
    refine .taken ?_ rfl (fun _ => rfl) ?_
    · by_cases hnil : r.outlook.tokens = []
      · exact .inl (outlook_eq_nil hnil)
      · exact .inr hnil
    · rw [decide_eq_true_iff, kindsOf_nil, derives_iff_run, run_nil, Option.some_inj]
      exact ⟨fun h => ⟨h, nofun⟩, fun h => h.1⟩

/-- Elsewhere something is taken, as the token ahead can begin a sentence. -/
theorem ne_nil_of_longestViable {u : List Token} (hu : LongestViable n r.outlook.tokens u)
    (hidle : ¬ Idle n r) : u ≠ [] := by
  rintro rfl
  refine hidle fun k hk hviable => ?_
  obtain ⟨t, ht, rfl⟩ := Option.map_eq_some_iff.mp hk
  rw [← head?_outlook, List.head?_eq_some_iff] at ht
  obtain ⟨rest, hrest⟩ := ht
  have hle : [t] <+: r.outlook.tokens := hrest ▸ List.prefix_append [t] rest
  exact absurd (List.prefix_nil.mp (hu.longest hle hviable)) (List.cons_ne_nil t [])

/-- What is taken from the tape is taken from the scanner. -/
theorem Took.consumes {short : Prop} {u : List Token} {s : Outline} {accepted : Bool}
    (took : Took q u q') (hrun : run n.operators n.initial (kindsOf u) = some s)
    (stuck : Stuck n.operators s q') (hsentence : accepted = true ↔ Derives n (kindsOf u))
    (hq : q.Settled) (hfresh : Fresh n q) (hidle : ¬ Idle n r) (hrq : Scanning r q)
    (hrq' : Scanning r' q') :
    ∃ u v, r.outlook.tokens = u ++ v ∧ LongestViable n r.outlook.tokens u ∧
      Consumes n short r u v (.ok accepted r') := by
  have houtlook := hrq.outlook_eq hq
  have hsplit : r.outlook.tokens = u ++ q'.pending := by rw [houtlook]; exact took.pending
  have hlongest : LongestViable n r.outlook.tokens u := by
    rw [hsplit]
    refine longestViable_of_run hrun (fun k hk => ?_) fun t ht => stuck t.kind ?_
    · have hu : u ≠ [] := by rintro rfl; cases hk
      exact hfresh k (took.head?_eq hq hu ▸ hk)
    · rw [ahead, took.settled.lookahead_eq, ht]
      rfl
  refine ⟨u, q'.pending, hsplit, hlongest, .taken ?_ ?_
    (fun hu => absurd hu (ne_nil_of_longestViable hlongest hidle)) hsentence⟩
  · cases hpending : q'.pending with
    | cons t v => exact .inr (List.cons_ne_nil t v)
    | nil =>
      have hfault := (took.settled (lookahead_of_pending hpending)).2
      rw [took.fault] at hfault
      exact .inl (by rw [houtlook, hfault])
  · rw [hrq'.outlook_eq took.settled, houtlook, took.tape]

/-- The outcome over the tape tells what is taken from the scanner. -/
theorem Outcome.consumes {short : Prop} {x : EStateM.Result Fault (Recognition Scanner) Bool}
    {y : EStateM.Result Fault (Recognition Tape) Bool}
    (h : Outcome n.operators n.initial (Derives n) short q y) (hq : q.Settled) (hfresh : Fresh n q)
    (hidle : ¬ Idle n r) (hrq : Scanning r q)
    (hsame : Agree Scanning Ended x y) :
    ∃ u v, r.outlook.tokens = u ++ v ∧ LongestViable n r.outlook.tokens u ∧
      Consumes n short r u v x := by
  have houtlook := hrq.outlook_eq hq
  cases h with
  | accepted took sentence hrun stuck =>
    cases hsame with
    | ok hrq' =>
      exact took.consumes hrun stuck ⟨fun _ => sentence, fun _ => rfl⟩ hq hfresh hidle hrq hrq'
  | rejected took hrun ne stuck =>
    cases hsame with
    | ok hrq' =>
      refine took.consumes hrun stuck ⟨nofun, fun hsentence => absurd ?_ ne⟩ hq hfresh hidle hrq
        hrq'
      exact Option.some.inj (hrun.symm.trans (derives_iff_run.mp hsentence).1)
  | faulty met hrun last =>
    cases hsame with
    | error hended =>
      have hall : r.outlook.tokens = q.pending := by rw [houtlook]
      refine ⟨q.pending, [], by rw [hall, List.append_nil], ?_, .faulty ?_ rfl ?_⟩
      · have hlongest := longestViable_of_run (v := []) hrun
          (fun k hk => hfresh k (hq.ahead_eq ▸ hk)) nofun
        rw [hall]
        rwa [List.append_nil] at hlongest
      · rw [houtlook, met]
      · rw [hended.lookahead, last, hall]
  | exhausted many file =>
    cases hsame with
    | error _ =>
      obtain ⟨u, hu⟩ := exists_longestViable n r.outlook.tokens
      obtain ⟨v, hv⟩ := hu.le
      exact ⟨u, v, hv.symm, hu, .exhausted many⟩

/-- Every rule consumes the longest part of what is ahead with which a sentence can begin. -/
theorem start_consumes (hstart : r.source.automaton.isFinal r.source.automaton.start = false)
    (limit : Nat) (n : Nonterminal) :
    ∃ u v, r.outlook.tokens = u ++ v ∧ LongestViable n r.outlook.tokens u ∧
      Consumes n (limit < n.rank + 5 * r.outlook.tokens.length) r u v (start limit n r) := by
  by_cases hidle : Idle n r
  · have hlongest : LongestViable n r.outlook.tokens [] := longestViable_nil fun t ht => by
      rw [head?_outlook] at ht
      exact hidle t.kind (congrArg (Option.map Token.kind) ht)
    have hstays : Stays _ (limit < n.rank) { r with log := r.log } (start limit n r) :=
      rule_idle hidle (r.source.input.length + 1) limit 0
    refine ⟨[], r.outlook.tokens, rfl, hlongest, Stays.consumes ?_⟩
    exact hstays.mono fun h => Nat.lt_add_right _ h
  · let q : Recognition Tape := { r with source := r.source.tape }
    have hrq : Scanning r q := ⟨hstart, rfl, rfl, rfl⟩
    obtain ⟨k, hk, hviable⟩ : ∃ k, r.ahead = some k ∧ Viable n [k] := by
      simpa [Idle] using hidle
    obtain ⟨t, ht, -⟩ := Option.map_eq_some_iff.mp hk
    have hq : q.Settled := fun hnone => absurd (ht.symm.trans hnone) (Option.some_ne_none t)
    have hfresh : Fresh n q := fun k' hk' => by
      obtain rfl : k = k' := Option.some.inj (hk.symm.trans hk')
      exact (viable_iff_run.mp hviable).2 k rfl
    have hpending : r.outlook.tokens = q.pending := by rw [hrq.outlook_eq hq]
    have hwidth : q.pending.length < r.width := by
      have hle := Scanner.length_tokens_le hstart
      rw [pending_of_ahead (r := q) ht]
      show r.source.tape.tokens.length + 1 < r.source.input.length + 2
      omega
    have houtcome := rule_meets r.width limit 0 n q hq hwidth hfresh
    rw [← hpending] at houtcome
    exact houtcome.consumes hq hfresh hidle hrq (scanning.rule r.width limit 0 n r q hrq)

/-- Rules take longest prefixes. Let a rule be entered in any state of a recognizer, over any
scanner in whose lexicon the empty lexeme is none, and let `u` be the longest part of the tokens
ahead with which a sentence of its nonterminal can begin and `v` the tokens behind it. Unless too
many rules are in progress, which takes more of them than are linear in the number of tokens: where
the input ends behind the tokens or `v` is not empty, exactly `u` is taken, the first token of `v`
is ahead if there is one, and the rule succeeds if `u` is a sentence; and where `v` is empty and a
fault is behind the tokens, it is this fault that the rule ends in, with the last of the tokens
still ahead. -/
theorem rule_takes_longest (hstart : r.source.automaton.isFinal r.source.automaton.start = false)
    (limit : Nat) (n : Nonterminal) :
    ∃ u v, r.outlook.tokens = u ++ v ∧ LongestViable n r.outlook.tokens u ∧
      (n.rank + 5 * r.outlook.tokens.length ≤ limit → r.outlook.fault ≠ some .exhausted →
        ∀ r', start limit n r ≠ .error .exhausted r') ∧
      ((∀ r', start limit n r ≠ .error .exhausted r') →
        (r.outlook.fault = none ∨ v ≠ [] → ∃ accepted r', start limit n r = .ok accepted r' ∧
          r'.outlook = { r.outlook with tokens := v } ∧ r'.lookahead = v.head? ∧
          (u = [] → r'.source = r.source) ∧ (accepted = true ↔ Derives n (kindsOf u))) ∧
        (∀ fault, r.outlook.fault = some fault → v = [] →
          ∃ r', start limit n r = .error fault r' ∧
            r'.lookahead = r.outlook.tokens.getLast?)) := by
  obtain ⟨u, v, hsplit, hlongest, hresult⟩ := start_consumes hstart limit n
  refine ⟨u, v, hsplit, hlongest, ?_⟩
  generalize start limit n r = result at hresult
  cases hresult with
  | @taken accepted r' behind rest still sentence =>
    have hahead : r'.lookahead = v.head? := by rw [← head?_outlook, rest]
    refine ⟨fun _ _ _ h => by simp at h, fun _ =>
      ⟨fun _ => ⟨accepted, r', rfl, rest, hahead, still, sentence⟩, fun fault hfault hv => ?_⟩⟩
    rcases behind with hnone | hne
    · simp [hnone] at hfault
    · exact absurd hv hne
  | @faulty fault r' met all last =>
    refine ⟨fun _ hne r₁ h => ?_, fun _ => ⟨fun h => ?_, fun fault' hfault _ => ?_⟩⟩
    · cases h
      exact hne met
    · rcases h with hnone | hne
      · simp [hnone] at met
      · exact absurd all hne
    · obtain rfl : fault = fault' := Option.some.inj (met.symm.trans hfault)
      exact ⟨r', rfl, last⟩
  | @exhausted r' many =>
    exact ⟨fun hle => absurd many (Nat.not_lt.mpr hle), fun hnot => absurd rfl (hnot r')⟩

/-- With the variable `a` ahead of the bytes `+$` an expression can begin with both tokens, and so
the rule of expressions ends in the fault of the byte `$`, with the operator still ahead. -/
theorem rule_takes_longest_unfinished :
    let r : Recognition Scanner :=
      { tracing := false
        lookahead := some ⟨.variable, "a", .start, none⟩
        source := Scanner.ofBytes Arithmetic.arithmetic [0x2B, 0x24] none false
        log := #[] }
    r.source.automaton.isFinal r.source.automaton.start = false ∧
      kindsOf r.outlook.tokens = [.variable, .plus] ∧
      ∃ fault r', r.outlook.fault = some fault ∧ start nestingLimit .e r = .error fault r' ∧
        r'.lookahead.map (·.kind) = some .plus := by
  intro r
  have houtlook : r.outlook = ⟨[⟨.variable, "a", .start, none⟩, ⟨.plus, "+", .start, none⟩],
    some (.lexical (.unexpectedByte 0x24) ⟨1, 2⟩ none), none, false⟩ := rfl
  obtain ⟨u, v, hsplit, hlongest, hbound, hresult⟩ :=
    rule_takes_longest (r := r) rfl nestingLimit .e
  rw [houtlook] at hsplit hlongest hbound hresult
  have hall : Viable .e [.variable, .plus] := viable_iff_run.mpr ⟨⟨_, rfl⟩, fun k _ => nofun⟩
  have hv : v = [] := by
    have hle := (hlongest.longest List.prefix_rfl hall).length_le
    have hlength := congrArg List.length hsplit
    rw [List.length_append] at hlength
    exact List.length_eq_zero_iff.mp (by omega)
  obtain ⟨r', hfault, hlast⟩ := (hresult (hbound (by decide) (by decide))).2 _ rfl hv
  exact ⟨rfl, by rw [houtlook]; rfl, _, r', by rw [houtlook], hfault, by rw [hlast]; rfl⟩

end Scanning

end Recognition

end ArithCheck
