import ArithCheck.Proofs.Scanner.Tape

/-!
# Drawing a token

What drawing a token does to a scanner that is ready: `Ready.draw` covers every outcome at once,
by induction on the input, as blanks may stand in front of the token. A scanner is drawn from as
its tape is, and at the end of the tape it has read its stream to the end.
-/

namespace ArithCheck.Scanner

open Arithmetic (State Ending exists_cuts_ending)

variable {s s' : Scanner}

/-- What may come of drawing a token from a scanner. -/
inductive Draw (s : Scanner) : EStateM.Result Fault Scanner (Option Token) → Prop
  | token {t : Token} {s' : Scanner} (ready : s'.Ready) (same : s.Continues s')
    (shorter : s'.input.length < s.input.length)
    (tape : s.tape = { s'.tape with tokens := t :: s'.tape.tokens }) : Draw s (.ok (some t) s')
  | complete {s' : Scanner} (ready : s'.Ready) (same : s.Continues s') (atEnd : s'.atEnd = true)
    (tape : s.tape = ⟨[], none, s.file, s.tracing⟩) : Draw s (.ok none s')
  | fault {fault : Fault} {s' : Scanner} (ready : s'.Ready) (same : s.Continues s')
    (shorter : s'.input.length < s.input.length)
    (tape : s.tape = ⟨[], some fault, s.file, s.tracing⟩) : Draw s (.error fault s')

/-- Drawing may begin behind bytes that make no token. -/
theorem Draw.of_continues {result : EStateM.Result Fault Scanner (Option Token)}
    (hsame : s.Continues s') (hlt : s'.input.length < s.input.length) (htape : s.tape = s'.tape)
    (h : Draw s' result) : Draw s result := by
  cases h with
  | token ready same shorter tape =>
    exact .token ready (hsame.trans same) (by omega) (htape.trans tape)
  | complete ready same atEnd tape =>
    refine .complete ready (hsame.trans same) atEnd ?_
    rw [htape, tape, hsame.file, hsame.tracing]
  | fault ready same shorter tape =>
    refine .fault ready (hsame.trans same) (by omega) ?_
    rw [htape, tape, hsame.file, hsame.tracing]

theorem Ready.draw (hs : s.Ready) : Draw s s.nextToken := by
  induction h : s.input.length using Nat.strongRecOn generalizing s with
  | ind n ih =>
    obtain ⟨w, q, rest, hi, hq, hstop⟩ := State.start.exists_trail s.input
    cases hf : q.isFinal with
    | true =>
      have hr := hs.beyond hi q.code
      have hm := hs.munch_final hi hq hstop hf
      have hlt := munch_input_lt hs.start_not_final hm
      cases hk : q.kind? with
      | some k =>
        have hn := hs.nextToken_token hi hq hstop hf hk
        rw [hn]
        exact .token hr (s.continues_beyond _) hlt (tape_token hs.start_not_final hn)
      | none =>
        have hn := hs.nextToken_blank hi hq hstop hf hk
        have htape := tape_congr hr.start_not_final hn (Nat.le_of_lt hlt)
        rw [hn]
        exact (ih _ (h ▸ hlt) hr rfl).of_continues (s.continues_beyond _) hlt htape
    | false =>
      rcases State.fault_or_nothing rest hq hf with hne | ⟨rfl, rfl, rfl⟩
      · have hn := hs.nextToken_fault hi hq hstop hf hne
        have htape := tape_fault hn
        have hw : rest = [] → w ≠ [] := fun hnil =>
          State.ne_nil_of_reach hq (by rw [hne.resolve_left (not_not.mpr hnil)]; exact nofun)
        rw [hn]
        refine .fault (hs.after _) (s.continues_after _) ?_ htape
        rw [hs.input_after hi.symm, hi, List.length_append, List.length_drop]
        cases rest with
        | nil => exact List.length_pos_iff.mpr (hw rfl)
        | cons b rest => simp only [List.length_cons]; omega
      · obtain ⟨s', hn, hr, hend, hsame⟩ := hs.nextToken_complete hi
        rw [hn]
        refine .complete hr hsame hend ?_
        rw [tape_none hn, hsame.file, hsame.tracing]

/-- The fault of a tape is a lexical one. -/
theorem Ready.tape_fault_lexical {fault : Fault} (hs : s.Ready) (h : s.tape.fault = some fault) :
    ∃ cause place, fault = .lexical cause place s.file := by
  obtain ⟨ps, z, ending, hcuts, hend⟩ := exists_cuts_ending s.file s.position s.input
  rw [hs.tape_of_cuts hcuts hend] at h
  subst h
  exact hend.fault_lexical

end ArithCheck.Scanner
