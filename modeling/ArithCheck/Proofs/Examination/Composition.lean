import ArithCheck.Proofs.Examination.Acceptance

/-!
# Expressions made of expressions

What the recognizer says of tokens that are put together from accepted ones. All of it is read off
from outlines: an accepted sequence leads from where an operand is due to where it is complete, in a
group as well as outside.

* `accepted_replace_iff`: an operand can be replaced by any expression in brackets, wherever it
  stands;
* `accepted_combine`: two expressions with an operator between them or without, and one behind a
  sign.
-/

namespace ArithCheck

open Token Outline

variable {p q e : List Token}

namespace Outline

variable {ops ks ks' : List Kind} {s : Outline} {k : Kind} {d : Nat}

theorem signs_subset_infixes : signs ⊆ infixes := by decide

/-- No operator but a sign may come where an operand is due. -/
theorem mem_signs_of_step (h : (step ops ⟨d, .operand⟩ k).isSome) (hk : k ∈ infixes) :
    k ∈ signs := by
  cases k with
  | plus | minus => decide
  | times | divide | pow => cases h
  | float | «variable» | lparen | rparen => simp [infixes] at hk

/-- Behind a sign there is no other one. -/
theorem step_atom_of_mem_signs (hk : k ∈ signs) : step ops ⟨d, .atom⟩ k = none := by
  obtain rfl | rfl : k = .plus ∨ k = .minus := by simpa [signs] using hk
  all_goals rfl

/-- Two sequences lead to the same outline from everywhere. -/
def Alike (ks ks' : List Kind) : Prop := ∀ s, run infixes s ks = run infixes s ks'

/-- Such sequences can be exchanged in every context. -/
theorem Alike.in_context (h : Alike ks ks') (us vs : List Kind) :
    run infixes s (us ++ ks ++ vs) = run infixes s (us ++ ks' ++ vs) := by
  have hrun : (run infixes · ks) = (run infixes · ks') := funext h
  rw [run_append, run_append, run_append, run_append, hrun]

theorem alike_atoms : Alike [.variable] [.float] := by
  rintro ⟨d, next⟩
  cases next with
  | operand | atom => rfl
  | operator => cases d <;> rfl

/-- A sentence in brackets leads to where a variable does: its brackets close each other. -/
theorem alike_group (h : Derives .e ks) : Alike [.variable] (.lparen :: ks ++ [.rparen]) := by
  rintro ⟨d, next⟩
  have hgroup : run infixes ⟨d + 1, .operand⟩ (ks ++ [.rparen]) = some ⟨d, .operator⟩ :=
    run_trans (h.run (.inl d.succ_pos)) rfl
  cases next with
  | operand | atom => exact hgroup.symm
  | operator => cases d <;> rfl

end Outline

/-- Where the recognizer accepts a variable it accepts, for any expression, that expression in
brackets, and conversely; and so with a float. The tokens around it may be any. -/
theorem accepted_replace_iff {x y l r : Token} (hx : x.kind = .variable) (hy : y.kind = .float)
    (hl : l.kind = .lparen) (hr : r.kind = .rparen) (he : Accepted e) (u v : List Token) :
    (Accepted (u ++ [x] ++ v) ↔ Accepted (u ++ [l] ++ e ++ [r] ++ v)) ∧
    (Accepted (u ++ [x] ++ v) ↔ Accepted (u ++ [y] ++ v)) := by
  have hgroup := alike_group (accepted_iff_derives.mp he)
  constructor
  · have hbrackets : u ++ [l] ++ e ++ [r] ++ v = u ++ (l :: e ++ [r]) ++ v := by simp
    rw [hbrackets, accepted_iff_run, accepted_iff_run]
    simp only [kindsOf_append, kindsOf_cons, kindsOf_nil, hx, hl, hr]
    rw [hgroup.in_context]
  · rw [accepted_iff_run, accepted_iff_run]
    simp only [kindsOf_append, kindsOf_cons, kindsOf_nil, hx, hy]
    rw [alike_atoms.in_context]

/-- The variable of `-x * 1` can be a sum in brackets, or a float. As `x)` is refused, so is the sum
in front of a bracket that closes no group. -/
theorem accepted_replace_iff_sum :
    let token (k : Kind) : Token := ⟨k, "", .start, none⟩
    Accepted ([.variable, .plus, .float].map token) ∧
      Accepted ([.minus, .lparen, .variable, .plus, .float, .rparen, .times, .float].map token) ∧
      Accepted ([.minus, .float, .times, .float].map token) ∧
      ¬ Accepted ([.lparen, .variable, .plus, .float, .rparen, .rparen].map token) := by
  intro token
  have he : Accepted ([.variable, .plus, .float].map token) := by decide
  have hreplace := accepted_replace_iff (x := token .variable) (y := token .float)
    (l := token .lparen) (r := token .rparen) rfl rfl rfl rfl he
  obtain ⟨hgroup, hfloat⟩ := hreplace [token .minus] [token .times, token .float]
  obtain ⟨hstuck, -⟩ := hreplace [] [token .rparen]
  exact ⟨he, hgroup.mp (by decide), hfloat.mp (by decide),
    fun h => absurd (hstuck.mpr h) (by decide)⟩

/-- The tokens begin with a sign. -/
def Signed (ts : List Token) : Prop := ∃ t, ts.head? = some t ∧ t.kind ∈ signs

theorem signed_cons_iff {t : Token} {ts : List Token} : Signed (t :: ts) ↔ t.kind ∈ signs := by
  simp [Signed]

/-- Behind an expression the outline goes on from the end of an operand. -/
theorem accepted_append_iff (hp : Accepted p) (ts : List Token) :
    Accepted (p ++ ts) ↔ run infixes done (kindsOf ts) = some done := by
  rw [accepted_iff_run, kindsOf_append, run_append, accepted_iff_run.mp hp]
  rfl

theorem Accepted.link (hp : Accepted p) (hq : Accepted q) {o : Token} (ho : o.kind ∈ infixes) :
    Accepted (p ++ [o] ++ q) := by
  rw [List.append_assoc, accepted_append_iff hp]
  exact run_step (if_pos ho) (accepted_iff_run.mp hq)

theorem Accepted.rejected_dangling (hp : Accepted p) {o : Token} (ho : o.kind ∈ infixes) :
    Rejected (p ++ [o]) := by
  rw [rejected_iff_not_accepted, accepted_append_iff hp, kindsOf_cons,
    run_step (step_done.trans (if_pos ho)) rfl]
  exact nofun

/-- Of two expressions side by side the second one must begin with a sign, which is then an operator
between them. -/
theorem Accepted.append_iff (hp : Accepted p) (hq : Accepted q) :
    Accepted (p ++ q) ↔ Signed q := by
  have hrun := accepted_iff_run.mp hq
  rw [accepted_append_iff hp]
  cases q with
  | nil => cases hrun
  | cons t q =>
    rw [kindsOf_cons] at hrun ⊢
    obtain ⟨s, hstep, hrest⟩ := Option.bind_eq_some_iff.mp hrun
    rw [signed_cons_iff]
    constructor
    · intro h
      obtain ⟨_, hinfix, -⟩ := Option.bind_eq_some_iff.mp h
      refine mem_signs_of_step (Option.isSome_iff_exists.mpr ⟨s, hstep⟩) ?_
      by_contra ho
      rw [step_done, if_neg ho] at hinfix
      cases hinfix
    · intro hsign
      have hinfix : t.kind ∈ infixes := signs_subset_infixes hsign
      obtain rfl : ⟨0, .atom⟩ = s := Option.some.inj ((if_pos hsign).symm.trans hstep)
      exact run_step (step_done.trans (if_pos hinfix)) (run_unsigned hrest)

/-- A sign goes in front of an expression that has none. -/
theorem Accepted.signed_iff (hp : Accepted p) {s : Token} (hs : s.kind ∈ signs) :
    Accepted ([s] ++ p) ↔ ¬ Signed p := by
  have hrun := accepted_iff_run.mp hp
  have hstep : step infixes ⟨0, .operand⟩ s.kind = some ⟨0, .atom⟩ := if_pos hs
  rw [accepted_iff_run, List.singleton_append, kindsOf_cons, run_step hstep rfl]
  cases p with
  | nil => cases hrun
  | cons t p =>
    rw [signed_cons_iff]
    constructor
    · intro h hsign
      rw [kindsOf_cons, run_cons, step_atom_of_mem_signs hsign] at h
      cases h
    · intro hsign
      refine (run_operand (List.cons_ne_nil _ _) fun k hk => ?_).symm.trans hrun
      obtain rfl := Option.some.inj hk
      exact hsign

/-- Two expressions with an operator between them are an expression, however the operators in them
bind; an operator with nothing behind it is refused; two expressions side by side are one only if
the second begins with a sign; and a sign in front makes an expression only of what has none. -/
theorem accepted_combine (hp : Accepted p) (hq : Accepted q) :
    (∀ o : Token, o.kind ∈ infixes → Accepted (p ++ [o] ++ q) ∧ Rejected (p ++ [o])) ∧
    (Accepted (p ++ q) ↔ Signed q) ∧
    ∀ s : Token, s.kind ∈ signs → (Accepted ([s] ++ p) ↔ ¬ Signed p) :=
  ⟨fun _ ho => ⟨hp.link hq ho, hp.rejected_dangling ho⟩, hp.append_iff hq,
    fun _ hs => hp.signed_iff hs⟩

/-- With `x` and `-1`: `x ^ -1` and `x -1` are expressions, `x ^`, `-1 x` and `+-1` are none. -/
theorem accepted_combine_signed :
    let token (k : Kind) : Token := ⟨k, "", .start, none⟩
    Accepted ([.variable].map token) ∧ Accepted ([.minus, .float].map token) ∧
      Accepted ([.variable, .pow, .minus, .float].map token) ∧
      Rejected ([.variable, .pow].map token) ∧
      Accepted ([.variable, .minus, .float].map token) ∧
      ¬ Accepted ([.minus, .float, .variable].map token) ∧
      ¬ Accepted ([.plus, .minus, .float].map token) := by
  intro token
  have hp : Accepted ([.variable].map token) := by decide
  have hq : Accepted ([.minus, .float].map token) := by decide
  have hsigned : Signed ([.minus, .float].map token) := signed_cons_iff.mpr (by decide)
  have hunsigned : ¬ Signed ([.variable].map token) := signed_cons_iff.not.mpr (by decide)
  obtain ⟨hpower, happend, -⟩ := accepted_combine hp hq
  obtain ⟨-, happend', hsign⟩ := accepted_combine hq hp
  obtain ⟨haccepted, hrejected⟩ := hpower (token .pow) (by decide)
  exact ⟨hp, hq, haccepted, hrejected, happend.mpr hsigned, fun h => hunsigned (happend'.mp h),
    fun h => (hsign (token .plus) (by decide)).mp h hsigned⟩

end ArithCheck
