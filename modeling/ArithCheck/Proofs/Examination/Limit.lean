import ArithCheck.Proofs.Examination.OnTape
import ArithCheck.Proofs.Examination.Tracing
import ArithCheck.Proofs.Recognition.Limit

/-!
# Limits on the rules in progress

The limit on the number of rules in progress has no influence on an examination that does not reach
it. One that does is given up at the first entry into a rule that is one too many, and up to there
it is the examination without a limit.

* `rule_not_exhausted`: a limit that is not reached over a given input;
* `limited_ofStream`: examinations that trace everything, with the limit and without;
* `nesting_limit_transparent`: examinations under any settings.
-/

namespace ArithCheck

open Token Recognition Arithmetic

namespace Examination

/-- A limit that no examination of a byte string reaches. -/
def ample (bytes : List UInt8) : Nat := 5 * (bytes.length + 3)

/-- The examination of a byte string without a limit: under one that it does not reach
(`keeping_history`), so that no larger one makes a difference (`eq_unlimited_of_keeping`). -/
def unlimited (settings : Settings) (bytes : List UInt8) (file : Option String) : Examination :=
  ofStream (ample bytes) settings (.ofBytes bytes) file

/-- What happens in the examination of a byte string without a limit, in the order of time: the
tokens drawn, the rules entered and the conclusion. -/
def history (bytes : List UInt8) (file : Option String) : List Log.Record :=
  (unlimited (.traceAll true) bytes file).log.toList

variable {bytes : List UInt8} {r r₁ r₂ : Recognition Scanner} {q : Recognition Tape}

/-- The room for chains is in proportion to the input. -/
theorem Mirrors.width_le (h : Mirrors bytes r q) : r.width ≤ bytes.length + 3 := by
  have hinput := h.ready.input_eq
  have hheld := r.source.length_held_le
  have hbytes := congrArg List.length h.bytes
  rw [Stream.bytes, List.length_append] at hbytes
  show r.source.input.length + 2 ≤ _
  rw [hinput, List.length_append]
  omega

/-- The rules do not reach an ample limit. -/
theorem Mirrors.rule_not_exhausted (h : Mirrors bytes r q) (hq : q.lookahead = none)
    (hadvance : Recognition.advance r = .ok () r₁) :
    rule r₁.width (ample bytes) 0 .e r₁ ≠ .error .exhausted r₂ := by
  intro hexhausted
  rcases h.fault_of_rule hq hadvance hexhausted with hfault | ⟨-, hlt⟩
  · exact (h.ne_of_fault hfault).1 rfl
  · obtain ⟨q₁, -, hs⟩ := h.advance_ok hadvance
    have hwidth := hs.1.width_le
    simp only [ample] at hlt
    omega

/-- The rule of expressions under a limit and without. -/
theorem Mirrors.curbed (h : Mirrors bytes r q) (hq : q.lookahead = none)
    (hadvance : Recognition.advance r = .ok () r₁) (hr : Traced r₁) (limit : Nat) :
    Curbed limit r₁ (rule r₁.width limit 0 .e r₁) (rule r₁.width (ample bytes) 0 .e r₁) := by
  rcases Nat.le_total limit (ample bytes) with hle | hle
  · exact rule_curbs hle r₁.width 0 .e r₁ hr
  · have hcurbed : Curbed (ample bytes) r₁ _ _ := rule_curbs hle r₁.width 0 .e r₁ hr
    generalize hfree : rule r₁.width (ample bytes) 0 .e r₁ = y, rule r₁.width limit 0 .e r₁ = x
      at hcurbed ⊢
    cases hcurbed with
    | kept later keeping => exact .kept later (keeping.mono hle)
    | cut => exact absurd hfree (h.rule_not_exhausted hq hadvance)

/-- An examination ends where the rule of expressions does, with a conclusion or a fault. -/
theorem ofResult_recognize {limit : Nat} (hadvance : Recognition.advance r = .ok () r₁)
    (hne : ∀ r₂, rule r₁.width limit 0 .e r₁ ≠ .error .exhausted r₂) :
    ∃ records, (∀ limit', Keeping limit' records) ∧
      (ofResult (Recognition.recognize limit r)).log.toList =
        (left (rule r₁.width limit 0 .e r₁)).log.toList ++ records ∧
      (ofResult (Recognition.recognize limit r)).scanner =
        (left (rule r₁.width limit 0 .e r₁)).source := by
  cases hrule : rule r₁.width limit 0 .e r₁ with
  | error fault r₂ =>
    rw [recognize_of_error hadvance (fun hfault => hne r₂ (hfault ▸ hrule)) hrule]
    exact ⟨[], keeping_nil, (List.append_nil _).symm, rfl⟩
  | ok complete r₂ =>
    rw [recognize_of_ok hadvance hrule]
    refine ⟨concluding complete r₂.lookahead, fun limit' => ?_, Array.toList_appendList, rfl⟩
    cases complete <;> cases r₂.lookahead <;> simp [concluding, Keeping, Log.Record.active]

/-- An examination under a limit and the one without, if both trace everything. -/
inductive Limited (limit : Nat) (file : Option String) : Examination → Examination → Prop
  /-- The limit is not reached. -/
  | kept {e : Examination} (keeping : Keeping limit e.log.toList) : Limited limit file e e
  /-- The limit is reached on entering a rule. -/
  | cut {e free : Examination} {before after : List Log.Record} {n : Nonterminal} {active : Nat}
    (free_log : free.log.toList = before ++ .enter n active e.lookahead :: after)
    (keeping : Keeping limit before) (exceeds : limit < active)
    (verdict : e.verdict = .error (.nesting (e.lookahead.map (·.position)) file))
    (log : e.log.toList = before)
    (past : e.scanner.stream.past <:+ free.scanner.stream.past) : Limited limit file e free

/-- A recognition that traces everything, from its start on, under a limit and without. -/
theorem limited_recognize (h : Mirrors bytes r q) (hq : q.lookahead = none) (hr : Traced r)
    (hlog : r.log = #[]) (limit : Nat) :
    Limited limit r.source.file (ofResult (Recognition.recognize limit r))
      (ofResult (Recognition.recognize (ample bytes) r)) := by
  obtain ⟨drawn, hdrawn, hkeeping⟩ := later_advance hr limit
  cases hadvance : Recognition.advance r with
  | error fault r₁ =>
    rw [hadvance] at hdrawn
    rw [recognize_of_advance_error hadvance, recognize_of_advance_error hadvance]
    refine .kept ?_
    rw [ofResult, show r₁.log.toList = _ from hdrawn.log, hlog]
    exact hkeeping
  | ok _ r₁ =>
    rw [hadvance] at hdrawn
    have hcurbed := h.curbed hq hadvance hdrawn.traced limit
    obtain ⟨concluded, hconcluded, hfree, hscanner⟩ :=
      ofResult_recognize hadvance fun _ => h.rule_not_exhausted hq hadvance
    generalize hx : rule r₁.width limit 0 .e r₁ = x, hy : rule r₁.width (ample bytes) 0 .e r₁ = y
      at hcurbed hfree hscanner
    cases hcurbed with
    | kept later keeping =>
      have hsame : Recognition.recognize limit r = Recognition.recognize (ample bytes) r := by
        simp only [recognize_of_advance hadvance, bind, EStateM.bind, nested, hx, hy]
      rw [hsame]
      refine .kept ?_
      rw [hfree, (hdrawn.trans later).log, hlog]
      exact (hkeeping.append keeping).append (hconcluded limit)
    | @cut _ m before after n active earlier keeping exceeds later =>
      have hm := hdrawn.trans earlier
      rw [recognize_of_exhausted hadvance hx]
      have hlog' : m.log.toList = drawn ++ before := by rw [hm.log, hlog]; rfl
      have hfile : TokenSource.file m.source = r.source.file := hm.source.file
      have hfree' : (ofResult (Recognition.recognize (ample bytes) r)).log.toList =
          drawn ++ before ++ .enter n active m.lookahead :: (after ++ concluded) := by
        rw [hfree, later.log, hlog', List.append_assoc]
        rfl
      refine .cut hfree' (hkeeping.append keeping) exceeds ?_ hlog' ?_
      · rw [← hfile]
        rfl
      · rw [hscanner]
        exact later.source.past

/-- Without a limit it is never a matter of nesting. -/
theorem Mirrors.not_nesting (h : Mirrors bytes r q) (hq : q.lookahead = none)
    (position : Option Position) (name : Option String) :
    (ofResult (Recognition.recognize (ample bytes) r)).verdict ≠
      .error (.nesting position name) := by
  cases hadvance : Recognition.advance r with
  | error fault r₁ =>
    rw [recognize_of_advance_error hadvance]
    rintro ⟨⟩
    exact (h.ne_of_fault (h.fault_of_advance hadvance)).2.2 _ _ rfl
  | ok _ r₁ =>
    cases hrule : rule r₁.width (ample bytes) 0 .e r₁ with
    | error fault r₂ =>
      have hne : fault ≠ .exhausted := by
        rintro rfl
        exact h.rule_not_exhausted hq hadvance hrule
      have hfault := (h.fault_of_rule hq hadvance hrule).resolve_right fun hfault => hne hfault.1
      rw [recognize_of_error hadvance hne hrule]
      rintro ⟨⟩
      exact (h.ne_of_fault hfault).2.2 _ _ rfl
    | ok complete r₂ =>
      rw [recognize_of_ok hadvance hrule]
      exact nofun

section OfBytes

variable (bytes : List UInt8) (file : Option String)

theorem unlimited_not_nesting (settings : Settings) (position : Option Position)
    (name : Option String) :
    (unlimited settings bytes file).verdict ≠ .error (.nesting position name) :=
  (mirrors_fresh settings bytes file).not_nesting rfl position name

theorem limited_ofStream (limit : Nat) :
    Limited limit file (ofStream limit (.traceAll true) (.ofBytes bytes) file)
      (unlimited (.traceAll true) bytes file) :=
  limited_recognize (mirrors_fresh (.traceAll true) bytes file) rfl
    ⟨Scanner.ready_ofBytes bytes file _, rfl⟩ rfl limit

/-- An ample limit is kept. -/
theorem keeping_history : Keeping (ample bytes) (history bytes file) := by
  have hlimited : Limited (ample bytes) file (unlimited (.traceAll true) bytes file) _ :=
    limited_ofStream bytes file (ample bytes)
  generalize he : unlimited (.traceAll true) bytes file = e at hlimited
  cases hlimited with
  | kept keeping => rw [history, he]; exact keeping
  | cut _ _ _ verdict =>
    exact absurd verdict (he ▸ unlimited_not_nesting bytes file (.traceAll true) _ _)

end OfBytes

/-- Examinations that are the same if they trace everything are the same under any settings. -/
theorem ofStream_congr {limit limit' : Nat} {stream : Stream} {file : Option String}
    (h : ofStream limit (.traceAll true) stream file = ofStream limit' (.traceAll true) stream file)
    (settings : Settings) :
    ofStream limit settings stream file = ofStream limit' settings stream file := by
  obtain ⟨hverdict, hlookahead, hscanner, hlog⟩ := ofStream_masked limit settings stream file
  obtain ⟨hverdict', hlookahead', hscanner', hlog'⟩ := ofStream_masked limit' settings stream file
  rw [h] at hverdict hlookahead hscanner hlog
  generalize ofStream limit settings stream file = e, ofStream limit' settings stream file = e' at *
  obtain ⟨verdict, scanner, lookahead, log⟩ := e
  obtain ⟨verdict', scanner', lookahead', log'⟩ := e'
  simp_all only

/-- A limit that is not reached makes no difference. -/
theorem eq_unlimited_of_keeping {limit : Nat} {file : Option String}
    (h : Keeping limit (history bytes file)) (settings : Settings) :
    ofStream limit settings (.ofBytes bytes) file = unlimited settings bytes file := by
  refine ofStream_congr ?_ settings
  have hlimited := limited_ofStream bytes file limit
  rw [history] at h
  generalize ofStream limit (.traceAll true) (.ofBytes bytes) file = e at hlimited ⊢
  change e = unlimited (.traceAll true) bytes file
  generalize unlimited (.traceAll true) bytes file = free at h hlimited ⊢
  cases hlimited with
  | kept => rfl
  | @cut _ before after n active free_log _ exceeds =>
    have hmem : Log.Record.enter n active e.lookahead ∈ free.log.toList :=
      free_log ▸ List.mem_append_right before List.mem_cons_self
    exact absurd (h _ hmem) (Nat.not_le.mpr exceeds)

/-- The bytes that an examination has read. -/
def consumed (e : Examination) : List UInt8 := e.scanner.stream.past.reverse

/-- An examination `e` that is given up with some token ahead, after it has written the records that
the settings keep of those `before`. Without a limit it is `free`. -/
structure Cut (settings : Settings) (file : Option String) (before : List Log.Record)
    (ahead : Option Token) (e free : Examination) : Prop where
  verdict : e.verdict = .error (.nesting (ahead.map (·.position)) file)
  lookahead : e.lookahead = ahead
  log : e.log.toList = before.filter settings.keeps
  log_le : e.log.toList <+: free.log.toList
  consumed_le : e.consumed <+: free.consumed

/-- A limit that is exceeded cuts an examination off at the first entry that exceeds it. -/
theorem exists_cut {limit : Nat} {file : Option String}
    (h : ∃ record ∈ history bytes file, limit < record.active) (settings : Settings) :
    ∃ before n active ahead after, history bytes file = before ++ .enter n active ahead :: after ∧
      Keeping limit before ∧ limit < active ∧
      Cut settings file before ahead (ofStream limit settings (.ofBytes bytes) file)
        (unlimited settings bytes file) := by
  obtain ⟨record, hmem, hlt⟩ := h
  have hlimited := limited_ofStream bytes file limit
  obtain ⟨hverdict, hlookahead, hscanner, hlog⟩ :=
    ofStream_masked limit settings (.ofBytes bytes) file
  obtain ⟨-, -, hscanner', hlog'⟩ :=
    ofStream_masked (ample bytes) settings (.ofBytes bytes) file
  rw [history, unlimited] at *
  generalize ofStream limit (.traceAll true) (.ofBytes bytes) file = e,
    ofStream (ample bytes) (.traceAll true) (.ofBytes bytes) file = free at *
  cases hlimited with
  | kept keeping => exact absurd (keeping _ hmem) (Nat.not_le.mpr hlt)
  | @cut _ before after n active free_log keeping exceeds verdict log past =>
    refine ⟨before, n, active, e.lookahead, after, free_log, keeping, exceeds,
      hverdict.trans verdict, hlookahead, ?_, ?_, ?_⟩
    · rw [hlog, Array.toList_filter, log]
    · rw [hlog, unlimited, hlog', Array.toList_filter, Array.toList_filter, free_log, log]
      exact (List.prefix_append before _).filter settings.keeps
    · rw [consumed, consumed, hscanner, unlimited, hscanner']
      exact List.reverse_prefix.mpr past

/-- A limit on the rules in progress matters only where it is exceeded. If in the examination
without a limit there are never more rules in progress than the limit allows, the examination under
the limit is the same. Otherwise it ends in a fault of nesting at the first entry into a rule that
is one too many, with the token that is ahead there; its log and the bytes that it has read are the
beginning of those without a limit. So a verdict or a lexical fault stays what it is under every
larger limit, and without a limit there are no other ends. -/
theorem nesting_limit_transparent (limit : Nat) (settings : Settings) (bytes : List UInt8)
    (file : Option String) :
    let free := unlimited settings bytes file
    let e := ofStream limit settings (.ofBytes bytes) file
    (∀ limit', ample bytes ≤ limit' →
      ofStream limit' settings (.ofBytes bytes) file = free) ∧
    (∀ position name, free.verdict ≠ .error (.nesting position name)) ∧
    ((∀ record ∈ history bytes file, record.active ≤ limit) → e = free) ∧
    ((∃ record ∈ history bytes file, limit < record.active) →
      ∃ before n active ahead after, history bytes file = before ++ .enter n active ahead :: after ∧
        (∀ record ∈ before, record.active ≤ limit) ∧ limit < active ∧
        e.verdict = .error (.nesting (ahead.map (·.position)) file) ∧ e.lookahead = ahead ∧
        e.log.toList = before.filter settings.keeps ∧ e.log.toList <+: free.log.toList ∧
        e.consumed <+: free.consumed) ∧
    ∀ more, (∃ position, e.verdict = .error (.nesting position file)) ∨
      ofStream (limit + more) settings (.ofBytes bytes) file = e := by
  intro free e
  refine ⟨fun limit' hle => ?_, unlimited_not_nesting bytes file settings,
    fun hkeeping => eq_unlimited_of_keeping hkeeping settings, fun hexceeds => ?_, fun more => ?_⟩
  · exact eq_unlimited_of_keeping ((keeping_history bytes file).mono hle) settings
  · obtain ⟨before, n, active, ahead, after, hhistory, hkeeping, hlt, cut⟩ :=
      exists_cut hexceeds settings
    exact ⟨before, n, active, ahead, after, hhistory, hkeeping, hlt, cut.verdict, cut.lookahead,
      cut.log, cut.log_le, cut.consumed_le⟩
  · by_cases hkeeping : Keeping limit (history bytes file)
    · have hlarger : Keeping (limit + more) (history bytes file) :=
        hkeeping.mono (Nat.le_add_right limit more)
      exact .inr ((eq_unlimited_of_keeping hlarger settings).trans
        (eq_unlimited_of_keeping hkeeping settings).symm)
    · have hexceeds : ∃ record ∈ history bytes file, limit < record.active := by
        simpa [Keeping] using hkeeping
      obtain ⟨_, _, _, _, _, _, _, _, cut⟩ := exists_cut hexceeds settings
      exact .inl ⟨_, cut.verdict⟩

end Examination

end ArithCheck
