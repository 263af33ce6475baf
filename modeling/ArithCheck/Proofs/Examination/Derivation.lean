import ArithCheck.Proofs.Examination.Sentences
import ArithCheck.Proofs.Grammar.Unambiguous

/-!
# The derivation of an accepted input

The tokens of an accepted byte string have exactly one derivation tree, and an examination that
traces rules logs the nodes of this tree in preorder, without the further links of its chains.
-/

namespace ArithCheck

open Token Recognition Examination

/-- The tokens of an accepted byte string have exactly one derivation tree. If rules are traced, the
log of the examination tells of the visits of this tree in preorder, each with the first token that
is not taken there, and the texts of these records are those of the visits. -/
theorem accepted_trace (limit : Nat) (settings : Settings) (bytes : List UInt8)
    (file : Option String)
    (haccept : (ofStream limit settings (.ofBytes bytes) file).verdict = .ok true) :
    let log := (ofStream limit settings (.ofBytes bytes) file).log
    ∃ ts, tokens bytes file = .ok ts ∧
      ∃ t : Tree .e, t.kinds = kindsOf ts ∧ (∀ t' : Tree .e, t'.kinds = kindsOf ts → t' = t) ∧
        (settings.traceRules.isOn = true → visitsOf log = t.visits ts ∧
          (log.toList.filter (·.visit?.isSome)).map (·.text) = (t.visits ts).map (·.text)) := by
  intro log
  obtain ⟨width, hw, hreflects⟩ := ofStream_reflects limit settings bytes file
  obtain ⟨hfault, hsentence⟩ :=
    (ofStream_course limit settings bytes file).sentence_of_accepts haccept
  obtain ⟨t, ht⟩ := hsentence.exists_tree
  obtain ⟨hok, herror⟩ := onTape_tree (q := atStart settings (freshTape settings bytes file))
    hfault hw limit ht.symm
  refine ⟨_, (complete_freshTape settings bytes file).symm.trans
    (complete_eq_ok_iff.mpr ⟨hfault, rfl⟩), t, ht, fun t' ht' => ?_, fun hon => ?_⟩
  · exact t'.eq_of_kinds t (ht'.trans ht.symm)
  have hlog : visitsOf log = t.visits (freshTape settings bytes file).tokens := by
    by_cases hle : t.depth ≤ limit
    · obtain ⟨q', hrun, hnone, hvisits⟩ := hok hle
      rw [hrun] at hreflects
      cases hreflects with
      | verdict _ _ _ _ hconcluded =>
        have hempty : (concluding true q'.lookahead).filterMap Log.Record.visit? = [] := by
          rw [hnone]
          rfl
        rw [show log = _ from hconcluded, visitsOf_append, hempty, List.append_nil, hvisits hon]
        rfl
    · obtain ⟨q', hrun, -⟩ := herror hle
      rw [hrun] at hreflects
      cases hreflects with
      | fault ne => exact absurd rfl ne
      | nesting verdict =>
        obtain ⟨position, verdict⟩ := verdict
        rw [haccept] at verdict
        cases verdict
  exact ⟨hlog, by rw [map_text_visits, hlog]⟩

/-- In `a+b-c` the second operator is one more link of the chain that the first one begins, and
there is one visit of the chain. -/
theorem accepted_trace_chain :
    (ofStream 10 (.traceAll true) (.ofBytes [0x61, 0x2B, 0x62, 0x2D, 0x63]) none).verdict =
      .ok true ∧
    ∃ ts, tokens [0x61, 0x2B, 0x62, 0x2D, 0x63] none = .ok ts ∧
      ∃ t : Tree .e, t.kinds = kindsOf ts ∧ (t.visits ts).map (·.rule) =
        [.e, .t, .x, .y, .f, .xx, .tt, .ee, .t, .x, .y, .f, .xx, .tt, .t, .x, .y, .f, .xx,
          .tt] := by
  have haccept : (ofStream 10 (.traceAll true) (.ofBytes [0x61, 0x2B, 0x62, 0x2D, 0x63])
      none).verdict = .ok true := by decide +kernel
  obtain ⟨ts, hts, t, ht, -, htrace⟩ := accepted_trace 10 (.traceAll true) _ none haccept
  refine ⟨haccept, ts, hts, t, ht, ?_⟩
  rw [← (htrace rfl).1]
  decide +kernel

end ArithCheck
