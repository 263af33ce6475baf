import ArithCheck.Proofs.Examination.Acceptance
import ArithCheck.Proofs.Recognition.Cost
import ArithCheck.Proofs.Recognition.Peak

/-!
# What nesting costs

The rules in progress in a whole recognition, for every limit: told by the levels of the tokens that
have been taken, over sequences of tokens and over byte strings alike.

* `NestingCost`: what the log of a recognition that traces everything says of them;
* `nesting_cost`: every such log says so.
-/

namespace ArithCheck

open Token Recognition Examination Arithmetic

/-- What the log of a recognition of the tokens `ts` under a limit says of the rules in progress. -/
structure NestingCost (limit : Nat) (ts : List Token) (verdict : Except Fault Bool)
    (records : List Log.Record) : Prop where
  /-- When the rule of atoms is entered, as many rules are in progress as the levels cost behind the
  tokens that have been drawn up to the one ahead. -/
  atoms : ∀ before active ahead after, records = before ++ .enter .f active ahead :: after →
    ∃ u, drawnIn before = u ++ ahead.toList ∧ drawnIn before <+: ts ∧
      active = (Levels.ofKinds (kindsOf u)).cost
  /-- In a run that comes to a verdict there are the most on some entry of the rule of atoms. -/
  peak : ∀ accepted, verdict = .ok accepted → ∃ active ahead, .enter .f active ahead ∈ records ∧
    ∀ record ∈ records, record.active ≤ active
  /-- A run is given up only where the levels cost more than the limit. -/
  exceeded : ∀ position file, verdict = .error (.nesting position file) →
    ∃ u, u <+: ts ∧ limit < (Levels.ofKinds (kindsOf u)).cost
  /-- The depth of the groups and the length of the chains of powers bound the rules in progress,
  and a run that is allowed so many is not given up. -/
  bounded : ∀ p c, (∀ u, u <+: ts → (Levels.ofKinds (kindsOf u)).Within p c) →
    (∀ record ∈ records, record.active ≤ (p + 1) * (7 + 2 * c)) ∧
    ((p + 1) * (7 + 2 * c) ≤ limit → ∀ position file, verdict ≠ .error (.nesting position file))

variable {ts : List Token} {records records' : List Log.Record} {limit : Nat} {tape : Tape}

/-! ## Logs -/

/-- The entries of records are paid for, and the tokens drawn are the first of `ts`. -/
structure Priced (ts : List Token) (records : List Log.Record) : Prop where
  costed : Costed records
  drawn : drawnIn records <+: ts

theorem Recognition.Follows.priced {u : List Token} {q : Recognition Tape} (h : Follows ts u q) :
    Priced ts q.log.toList := by
  refine ⟨h.costed, q.source.tokens, ?_⟩
  rw [h.drawn, h.tokens, List.append_assoc]
  rfl

/-- Records that tell neither of entries nor of tokens. -/
theorem Priced.append (h : Priced ts records) (hconcluding : ∀ record ∈ records',
    record.token? = none ∧ ∀ n active ahead, record ≠ .enter n active ahead) :
    Priced ts (records ++ records') := by
  induction records' generalizing records with
  | nil => rwa [List.append_nil]
  | cons record records' ih =>
    obtain ⟨⟨htoken, hentry⟩, hrest⟩ := List.forall_mem_cons.mp hconcluding
    rw [List.append_cons]
    have hcosted := h.costed.concat fun n active ahead heq => absurd heq (hentry n active ahead)
    refine ih ⟨hcosted, ?_⟩ hrest
    have hnone : drawnIn [record] = [] := by simp [drawnIn, htoken]
    rw [drawnIn_append, hnone, List.append_nil]
    exact h.drawn

theorem Priced.entry {before after : List Log.Record} {n : Nonterminal} {active : Nat}
    {ahead : Option Token} (h : Priced ts records)
    (hsplit : records = before ++ .enter n active ahead :: after) :
    ∃ u, drawnIn before = u ++ ahead.toList ∧ drawnIn before <+: ts ∧
      active ≤ (Levels.ofKinds (kindsOf u)).cost ∧
      (n = .f → active = (Levels.ofKinds (kindsOf u)).cost) := by
  rw [List.append_cons] at hsplit
  obtain ⟨u, hu, hcost⟩ := h.costed before n active ahead ⟨after, hsplit.symm⟩
  have hbefore : before <+: records := ⟨[.enter n active ahead] ++ after, by simp [hsplit]⟩
  exact ⟨u, hu, (hbefore.filterMap _).trans h.drawn, hcost⟩

/-- No entry costs more than the bound of the levels. -/
theorem Priced.bounded {bound : Nat} (h : Priced ts records)
    (hbound : ∀ u, u <+: ts → (Levels.ofKinds (kindsOf u)).cost ≤ bound) :
    ∀ record ∈ records, record.active ≤ bound := by
  intro record hmem
  obtain ⟨before, after, hsplit⟩ := List.append_of_mem hmem
  cases record with
  | token | trailing | verdict => exact Nat.zero_le bound
  | enter n active ahead =>
    obtain ⟨u, hu, hdrawn, hcost, -⟩ := h.entry hsplit
    exact Nat.le_trans hcost (hbound u ((hu ▸ List.prefix_append u _).trans hdrawn))

theorem mem_concluding {complete : Bool} {rest : Option Token} {record : Log.Record}
    (h : record ∈ concluding complete rest) :
    (∃ l, record = .trailing l) ∨ ∃ accepted, record = .verdict accepted := by
  rcases List.mem_append.mp h with h | h
  · split at h
    · obtain ⟨t, -, rfl⟩ := List.mem_map.mp h
      exact .inl ⟨_, rfl⟩
    · cases h
  · exact .inr ⟨_, List.mem_singleton.mp h⟩

theorem Priced.conclude (h : Priced ts records) (complete : Bool) (rest : Option Token) :
    Priced ts (records ++ concluding complete rest) := by
  refine h.append fun record hmem => ?_
  rcases mem_concluding hmem with ⟨l, rfl⟩ | ⟨accepted, rfl⟩ <;>
    exact ⟨rfl, fun _ _ _ h => by cases h⟩

theorem peaked_concluding (complete : Bool) (rest : Option Token) :
    Peaked 0 (concluding complete rest) := by
  intro record hmem
  rcases mem_concluding hmem with ⟨l, rfl⟩ | ⟨accepted, rfl⟩ <;> exact .inl (Nat.le_refl 0)

/-! ## Runs -/

variable {q : Recognition Tape} {width : Nat}

/-- The verdict and the log of a recognition, told by the end of the rule of expressions. -/
inductive Reports (answer : Except Fault Bool) (log : Log) :
    EStateM.Result Fault (Recognition Tape) Bool → Prop
  | verdict {complete accepted : Bool} {q : Recognition Tape} (verdict : answer = .ok accepted)
    (concluded : log = q.log ++ concluding complete q.lookahead) :
    Reports answer log (.ok complete q)
  | nesting {q : Recognition Tape}
    (verdict : ∃ position file, answer = .error (.nesting position file))
    (same : log = q.log) : Reports answer log (.error .exhausted q)
  | fault {fault : Fault} {q : Recognition Tape} (verdict : answer = .error fault)
    (same : log = q.log) : Reports answer log (.error fault q)

theorem Examination.Reflects.reports {bytes : List UInt8} {e : Examination}
    {result : EStateM.Result Fault (Recognition Tape) Bool} (h : Reflects bytes e result) :
    Reports e.verdict e.log result := by
  cases h with
  | verdict verdict _ _ _ log => exact .verdict verdict log
  | nesting verdict log =>
    obtain ⟨position, verdict⟩ := verdict
    exact .nesting ⟨position, _, verdict⟩ log
  | fault _ verdict _ log => exact .fault verdict log

theorem reports_recognize (limit : Nat) (q : Recognition Tape) :
    ∃ width, Reports (Recognition.verdict (Recognition.recognize limit q))
      (left (Recognition.recognize limit q)).log (onTape width limit q) := by
  cases hadvance : Recognition.advance q with
  | error fault q' =>
    refine ⟨0, ?_⟩
    rw [onTape_of_error hadvance, recognize_of_advance_error hadvance]
    exact .fault rfl rfl
  | ok _ first =>
    refine ⟨first.width, ?_⟩
    rw [onTape_of_ok hadvance]
    cases hrule : rule first.width limit 0 .e first with
    | ok complete q' =>
      rw [recognize_of_ok hadvance hrule]
      exact .verdict rfl rfl
    | error fault q' =>
      by_cases hexhausted : fault = .exhausted
      · subst hexhausted
        rw [recognize_of_exhausted hadvance hrule]
        exact .nesting ⟨_, _, rfl⟩ rfl
      · rw [recognize_of_error hadvance hexhausted hrule]
        exact .fault rfl rfl

/-- Where a recognition that traces everything ends over a tape, told by the levels there. -/
theorem ends_onTape (htracing : tape.tracing = true)
    (hfault : ∀ fault, tape.fault = some fault → ¬ fault.IsNesting) (width limit : Nat) :
    Ends tape.tokens limit (fun _ => True)
      (onTape width limit (atStart (.traceAll true) tape)) := by
  have hstart : Follows tape.tokens [] (atStart (.traceAll true) tape) :=
    ⟨rfl, hfault, rfl, htracing, rfl, costed_nil⟩
  rcases hstart.advance with ⟨first, hadvance, follows⟩ | ⟨fault, hne, hadvance⟩
  · rw [onTape_of_ok hadvance]
    have hfits : Fits .e 0 .start := ⟨rfl, rfl, rfl⟩
    exact (leads_rule width limit 0 .e hfits).mono (fun _ _ => trivial) first ⟨_, follows, rfl⟩
  · rw [onTape_of_error hadvance]
    exact .fault ⟨_, hstart, rfl⟩ fun h => absurd h hne

theorem climbed_onTape {complete : Bool} {q' : Recognition Tape} (htracing : q.tracing = true)
    (h : onTape width limit q = .ok complete q') : Climbed 0 1 q q' := by
  cases hadvance : Recognition.advance q with
  | error fault first =>
    rw [onTape_of_error hadvance] at h
    cases h
  | ok _ first =>
    rw [onTape_of_ok hadvance] at h
    have hdrawn := climbed_advance htracing hadvance
    have hrule := rule_crests width limit 0 .e first complete q' hdrawn.tracing h
    exact hdrawn.trans hrule (Nat.zero_le _)

/-- The records of a recognition are paid for, and it is given up only where the levels cost more
than the limit. -/
theorem Reports.priced {answer : Except Fault Bool} {log : Log}
    {result : EStateM.Result Fault (Recognition Tape) Bool} (h : Reports answer log result)
    (hends : Ends ts limit (fun _ => True) result) : Priced ts log.toList ∧
      ∀ position file, answer = .error (.nesting position file) →
        ∃ u, u <+: ts ∧ limit < (Levels.ofKinds (kindsOf u)).cost := by
  cases h with
  | verdict verdict concluded =>
    subst concluded
    rw [Array.toList_appendList]
    refine ⟨?_, fun position file h => by rw [verdict] at h; cases h⟩
    cases hends with
    | success stands | failure stands =>
      obtain ⟨u, follows, -⟩ := stands
      exact follows.priced.conclude _ _
  | nesting _ same =>
    subst same
    cases hends with
    | fault stands exceeds =>
      obtain ⟨u, follows, rfl⟩ := stands
      exact ⟨follows.priced, fun _ _ _ => ⟨u, ⟨_, follows.tokens.symm⟩, exceeds trivial⟩⟩
  | fault verdict same =>
    subst same
    cases hends with
    | fault stands exceeds =>
      obtain ⟨u, follows, rfl⟩ := stands
      refine ⟨follows.priced, fun position file h => ⟨u, ⟨_, follows.tokens.symm⟩, exceeds ?_⟩⟩
      obtain rfl := Except.error.inj (verdict.symm.trans h)
      trivial

theorem Reports.peak {answer : Except Fault Bool} {log : Log} {accepted : Bool}
    (h : Reports answer log (onTape width limit q)) (htracing : q.tracing = true)
    (hlog : q.log = #[]) (hverdict : answer = .ok accepted) :
    ∃ active ahead, .enter .f active ahead ∈ log.toList ∧
      ∀ record ∈ log.toList, record.active ≤ active := by
  generalize hresult : onTape width limit q = result at h
  cases h with
  | nesting verdict =>
    obtain ⟨position, file, verdict⟩ := verdict
    rw [hverdict] at verdict
    cases verdict
  | fault verdict =>
    rw [hverdict] at verdict
    cases verdict
  | @verdict complete _ q' _ concluded =>
    obtain ⟨-, records, hrecords, hpeaked, hreaches⟩ := climbed_onTape htracing hresult
    have hconcluding := peaked_concluding complete q'.lookahead
    rw [concluded, Array.toList_appendList, hrecords, hlog]
    exact (hpeaked.append hreaches hconcluding (Nat.zero_le _)).exists_max
      (hreaches.mono (List.subset_append_left _ _) (Nat.le_refl 1)) Nat.one_pos

/-- The cost of a recognition over a tape. -/
theorem Reports.nestingCost {answer : Except Fault Bool} {log : Log}
    (h : Reports answer log (onTape width limit (atStart (.traceAll true) tape)))
    (htracing : tape.tracing = true)
    (hfault : ∀ fault, tape.fault = some fault → ¬ fault.IsNesting) :
    NestingCost limit tape.tokens answer log.toList := by
  obtain ⟨hpriced, hexceeded⟩ := h.priced (ends_onTape htracing hfault width limit)
  refine ⟨fun before active ahead after hsplit => ?_, fun accepted => h.peak rfl rfl, hexceeded,
    fun p c hwithin => ⟨hpriced.bounded fun u hu => (hwithin u hu).cost_le, ?_⟩⟩
  · obtain ⟨u, hu, hdrawn, -, hcost⟩ := hpriced.entry hsplit
    exact ⟨u, hu, hdrawn, hcost rfl⟩
  · intro hle position file hnesting
    obtain ⟨u, hu, hlt⟩ := hexceeded position file hnesting
    have hcost := (hwithin u hu).cost_le
    omega

/-- What nesting costs. On every entry of the rule of atoms the rules in progress are the cost of
the levels of the tokens taken: for each open group and for the outermost level five, one more if a
sum is being read there, one more if a product is, and two for each `^` in the chain of powers. A
run that comes to a verdict has the most of them on such an entry. So they are bounded by the depth
of the groups and the length of the chains of powers, however long the sums and products are. This
holds under every limit, over every sequence of tokens and every byte string. -/
theorem nesting_cost (limit : Nat) (file : Option String) :
    (∀ ts : List Token,
      let result := Recognition.recognize limit (atStart (.traceAll true) ⟨ts, none, file, true⟩)
      NestingCost limit ts (Recognition.verdict result) (left result).log.toList ∧
        (5 + 5 * ts.length ≤ limit → ∃ accepted, Recognition.verdict result = .ok accepted)) ∧
    ∀ bytes : List UInt8,
      let e := ofStream limit (.traceAll true) (.ofBytes bytes) file
      NestingCost limit (freshTape (.traceAll true) bytes file).tokens e.verdict e.log.toList := by
  refine ⟨fun ts => ⟨?_, fun hlimit => ?_⟩, fun bytes => ?_⟩
  · obtain ⟨width, h⟩ := reports_recognize limit (atStart (.traceAll true) ⟨ts, none, file, true⟩)
    exact h.nestingCost rfl nofun
  · have hfault : (Tape.mk ts none file true).fault = none := rfl
    rcases recognize_atStart limit (.traceAll true) hfault with ⟨r, hrec, -⟩ | ⟨many, -⟩
    · exact ⟨_, by rw [hrec]; rfl⟩
    · exact absurd hlimit (Nat.not_le.mpr many)
  · obtain ⟨width, -, h⟩ := ofStream_reflects limit (.traceAll true) bytes file
    refine h.reports.nestingCost (Scanner.tape_tracing _) ?_
    intro fault hfault
    obtain ⟨cause, place, rfl⟩ := freshTape_fault hfault
    exact id

end ArithCheck
