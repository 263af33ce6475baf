import ArithCheck.Proofs.Examination.Course
import ArithCheck.Proofs.Recognition.Nesting

/-!
# The sentences that are accepted

A byte string is accepted if and only if its tokens are a sentence of the grammar whose derivation
tree is no deeper than the limit allows; a deeper one is the nesting fault.

* `onTape_tree`: the recognition over the tape of a derivation tree;
* `accepts_iff_sentence`: examinations of byte strings.
-/

namespace ArithCheck

open Token Outline Recognition Arithmetic Examination

variable {q : Recognition Tape}

/-- Over the tokens of a tree a recognition takes all of them if the tree is not too deep, and
visits the nodes of the tree. -/
theorem onTape_tree (hfault : q.source.fault = none) {width : Nat}
    (hw : q.source.tokens.length < width) (limit : Nat) {t : Tree .e}
    (ht : kindsOf q.source.tokens = t.kinds) :
    (t.depth ≤ limit → ∃ q', onTape width limit q = .ok true q' ∧ q'.lookahead = none ∧
      (q.tracing = true → visitsOf q'.log = visitsOf q.log ++ t.visits q.source.tokens)) ∧
      (¬ t.depth ≤ limit → ∃ q', onTape width limit q = .error .exhausted q' ∧
        q'.source.file = q.source.file) := by
  rcases advance_cases q with ⟨q₁, hadv, took⟩ | ⟨fault, met, -⟩
  · rw [onTape_of_ok hadv]
    have hpending := tokens_of_advance hadv
    have hfacing : Facing width Nonterminal.e.operators q.source.tokens q₁ :=
      ⟨took.settled, took.fault.trans hfault, by rw [hpending]; exact hw, [],
        by rw [hpending, List.append_nil], nofun⟩
    obtain ⟨hok, herror⟩ := takes_tree t width limit 0 q₁ _ hfacing ht
    refine ⟨fun hle => ?_, fun hle => ?_⟩
    · obtain ⟨q', hrule, walked⟩ := hok hle
      obtain ⟨htracing, hvisits⟩ := visitsOf_advance hadv
      refine ⟨q', hrule, ?_, fun hon => ?_⟩
      · have hall := walked.took.pending
        rw [hpending, List.self_eq_append_right] at hall
        exact lookahead_of_pending hall
      · rw [walked.visits (htracing.trans hon), hvisits, hpending]
    · obtain ⟨q', hrule, hfile⟩ := herror hle
      exact ⟨q', hrule, hfile.trans took.file⟩
  · simp [hfault] at met

/-- Of all byte strings those are accepted whose tokens are a sentence of the grammar with a tree
no deeper than the limit, and no other; then all the bytes have been read and the end has been met.
A sentence whose trees are deeper is the nesting fault. -/
theorem accepts_iff_sentence (limit : Nat) (settings : Settings) (bytes : List UInt8)
    (file : Option String) :
    let e := Examination.ofStream limit settings (.ofBytes bytes) file
    (e.verdict = .ok true →
      (∃ ts, tokens bytes file = .ok ts ∧ Derives .e (kindsOf ts)) ∧ e.read = bytes.length ∧
        e.scanner.atEnd = true) ∧
    ∀ ts, tokens bytes file = .ok ts → Derives .e (kindsOf ts) →
      (∃ t : Tree .e, t.kinds = kindsOf ts) ∧
      ∀ t : Tree .e, t.kinds = kindsOf ts →
        (t.depth ≤ limit → e.verdict = .ok true) ∧
        (limit < t.depth → ∃ position, e.verdict = .error (.nesting position file)) := by
  intro e
  obtain ⟨width, hw, hreflects⟩ := ofStream_reflects limit settings bytes file
  have htape := complete_freshTape settings bytes file
  have hfile := freshTape_file settings bytes file
  refine ⟨fun haccept => ?_, fun ts hts hderives => ⟨derives_iff_tree.mp hderives, fun t ht => ?_⟩⟩
  · have hcourse := ofStream_course limit settings bytes file
    cases hcourse with
    | accepted hfault sentence _ whole =>
      exact ⟨⟨_, htape.symm.trans (complete_eq_ok_iff.mpr ⟨hfault, rfl⟩), sentence⟩, whole.2,
        whole.1⟩
    | refused _ _ _ verdict | unfinished _ _ _ verdict | faulty _ _ verdict =>
      rw [haccept] at verdict
      cases verdict
    | nested _ verdict =>
      obtain ⟨position, verdict⟩ := verdict
      rw [haccept] at verdict
      cases verdict
  · obtain ⟨hfault, rfl⟩ := complete_eq_ok_iff.mp (htape.trans hts)
    obtain ⟨hok, herror⟩ := onTape_tree (q := atStart settings (freshTape settings bytes file))
      hfault hw limit ht.symm
    refine ⟨fun hle => ?_, fun hlt => ?_⟩
    · obtain ⟨q', hrun, hnone, -⟩ := hok hle
      rw [hrun] at hreflects
      cases hreflects with
      | verdict verdict =>
        rw [hnone] at verdict
        exact verdict
    · obtain ⟨q', hrun, hfile'⟩ := herror (by omega)
      rw [hrun] at hreflects
      cases hreflects with
      | fault ne => exact absurd rfl ne
      | nesting verdict =>
        have hq' : q'.source.file = file := hfile'.trans hfile
        rwa [hq'] at verdict

end ArithCheck
