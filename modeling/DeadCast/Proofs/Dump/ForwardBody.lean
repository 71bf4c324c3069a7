import DeadCast.Proofs.Dump.BodyWalk
import Mathlib.Tactic

/-!
# Bodies of any shape

A body need not be well formed: brackets may be linked to the wrong token or to none, and the token
that ends it may not be on the way, because a link leads past it or because it stands before the start.
The walk through such a body still ends if no token leads back (`Configuration.IsForward`).

It moves in two ways, to the next token and behind the token that a bracket is linked to.  Both lead
from a token to a later one (`Configuration.IsForward.rank_lt`), so the places of the visited tokens
ascend, no token is visited twice, and there are no more visits than tokens
(`EnumBody.exists_walkFrom`).  Whether the walk meets the end of the body plays no part in this.

How many constants there are is limited by the walk as well.  A name counts only while one is expected,
and after a name nothing but a comma makes the next one expected (`EnumBody.Reaches.names_le`).
-/

namespace DeadCast

namespace Configuration

/-- No token leads back: the next token is a later one, and an opening bracket is linked to itself or to
a later token.  `rank` is the place of a token in the text. -/
structure IsForward (c : Configuration) (rank : Nat → Nat) : Prop where
  next : ∀ {j k : Nat} {t : Token}, c.token? j = some t → t.next = some k → rank j < rank k
  link : ∀ {j k : Nat} {t : Token}, c.token? j = some t → EnumBody.opens t.text = true →
    t.link = some k → rank j ≤ rank k

instance (c : Configuration) (k : Nat) : Decidable (c.IsName k) :=
  decidable_of_iff ((c.token? k).any fun t => (t.isName.getD (.bool false)).isTrue) (by
    simp [IsName, Option.any_eq_true])

instance (c : Configuration) (k : Nat) (s : String) : Decidable (c.Reads k s) :=
  decidable_of_iff ((c.token? k).any (·.text.isText s)) (by
    simp [Reads, Option.any_eq_true, Datum.isText_iff])

end Configuration

namespace EnumBody

/-! ## What a part says about its token -/

theorem of_roleOf_name {expecting : Bool} {t : Token} (h : roleOf expecting t = .name) :
    expecting = true ∧ (t.isName.getD (.bool false)).isTrue = true := by
  unfold roleOf at h
  split at h
  · rename_i hname
    simpa using hname
  · split at h
    · cases h
    · split at h <;> cases h

theorem of_roleOf_bracket {expecting : Bool} {t : Token} {link : Nat}
    (h : roleOf expecting t = .bracket link) : opens t.text = true ∧ t.link = some link := by
  unfold roleOf at h
  split at h
  · cases h
  · split at h
    · rename_i hopen hlink
      cases h
      exact ⟨hopen, hlink⟩
    · split at h <;> cases h

theorem of_roleOf_comma {expecting : Bool} {t : Token} (h : roleOf expecting t = .comma) :
    t.text = .text "," := by
  unfold roleOf at h
  split at h
  · cases h
  · split at h
    · cases h
    · split at h
      · rename_i hcomma
        exact Datum.isText_iff.1 hcomma
      · cases h

end EnumBody

/-! ## The walk through a forward body -/

namespace Configuration

open EnumBody

variable {c : Configuration} {rank : Nat → Nat}

/-- **One step leads to a later token**, whichever of the two moves it is. -/
theorem IsForward.rank_lt (h : c.IsForward rank) {expecting : Bool} {position next : Nat} {t : Token}
    (ht : c.token? position = some t)
    (hnext : positionAfter c t (roleOf expecting t) = some next) : rank position < rank next := by
  cases hrole : roleOf expecting t with
  | name => rw [hrole] at hnext; exact h.next ht hnext
  | comma => rw [hrole] at hnext; exact h.next ht hnext
  | other => rw [hrole] at hnext; exact h.next ht hnext
  | bracket link =>
    rw [hrole] at hnext
    obtain ⟨hopen, hlink⟩ := of_roleOf_bracket hrole
    obtain ⟨u, hu, hunext⟩ := Option.bind_eq_some_iff.1 hnext
    calc rank position ≤ rank link := h.link ht hopen hlink
      _ < rank next := h.next hu hunext

/-- **The walk ends**, from every position. -/
theorem IsForward.exists_reaches (h : c.IsForward rank) (stop : Nat) (expecting : Bool)
    (position : Nat) : ∃ visits, Reaches c stop expecting position visits := by
  -- all tokens stand before some place, and each step comes nearer to it
  obtain ⟨bound, hbound⟩ : ∃ bound, ∀ k < c.tokens.size, rank k < bound :=
    ⟨(Finset.range c.tokens.size).sup rank + 1,
      fun k hk => Nat.lt_succ_of_le (Finset.le_sup (Finset.mem_range.2 hk))⟩
  induction hd : bound - rank position using Nat.strong_induction_on
    generalizing expecting position with
  | _ distance ih =>
    by_cases hstop : position = stop
    · subst hstop
      exact ⟨[], .here⟩
    · cases ht : c.token? position with
      | none => exact ⟨[], .lost hstop ht⟩
      | some t =>
        cases hnext : positionAfter c t (roleOf expecting t) with
        | none => exact ⟨_, .last hstop ht rfl hnext⟩
        | some next =>
          have hlater := h.rank_lt ht hnext
          have hhere := hbound position (Array.getElem?_eq_some_iff.1 ht).1
          obtain ⟨visits, hrest⟩ := ih (bound - rank next) (by omega) _ next rfl
          exact ⟨_, .step hstop ht rfl hnext hrest⟩

/-- **The places of the visited tokens ascend**, from that of the first position on. -/
theorem IsForward.pairwise_rank (h : c.IsForward rank) {stop position : Nat} {expecting : Bool}
    {visits : List Visit} (hreach : Reaches c stop expecting position visits) :
    visits.Pairwise (fun v w => rank v.position < rank w.position) ∧
      ∀ v ∈ visits, rank position ≤ rank v.position := by
  induction hreach with
  | here => simp
  | lost hne ht => simp
  | last hne ht hrole hnext => simp
  | @step expecting position next t role visits hne ht hrole hnext hrest ih =>
    obtain ⟨hpairwise, hfrom⟩ := ih
    subst hrole
    have hlater := h.rank_lt ht hnext
    refine ⟨List.pairwise_cons.2 ⟨?_, hpairwise⟩, ?_⟩
    · intro v hv
      exact lt_of_lt_of_le hlater (hfrom v hv)
    · rw [List.forall_mem_cons]
      exact ⟨le_refl _, fun v hv => le_of_lt (lt_of_lt_of_le hlater (hfrom v hv))⟩

end Configuration

namespace EnumBody

variable {c : Configuration} {stop : Nat} {expecting : Bool} {position : Nat} {visits : List Visit}

/-- A visited token has the part that it was visited in. -/
theorem Reaches.role_eq (h : Reaches c stop expecting position visits) :
    ∀ v ∈ visits, ∃ t expected, c.token? v.position = some t ∧ roleOf expected t = v.role := by
  induction h with
  | here => simp
  | lost hne ht => simp
  | last hne ht hrole hnext =>
    rw [List.forall_mem_singleton]
    exact ⟨_, _, ht, hrole⟩
  | step hne ht hrole hnext hrest ih =>
    rw [List.forall_mem_cons]
    exact ⟨⟨_, _, ht, hrole⟩, ih⟩

/-- **Names and commas.**  A walk visits at most as many names of enumerators as commas, and one more if
a name is expected at its start. -/
theorem Reaches.names_le (h : Reaches c stop expecting position visits) :
    visits.countP (·.role = .name) ≤ visits.countP (·.role = .comma) + expecting.toNat := by
  induction h with
  | here => simp
  | lost hne ht => simp
  | @last expecting position t role hne ht hrole hnext =>
    cases role with
    | name => simp [(of_roleOf_name hrole).1]
    | bracket link => simp
    | comma => simp
    | other => simp
  | @step expecting position next t role visits hne ht hrole hnext hrest ih =>
    cases role with
    | name =>
      -- a name was expected, and none is expected after it
      obtain rfl := (of_roleOf_name hrole).1
      rw [List.countP_cons_of_pos (by simp), List.countP_cons_of_neg (by simp)]
      exact Nat.succ_le_succ ih
    | bracket link =>
      rw [List.countP_cons_of_neg (by simp), List.countP_cons_of_neg (by simp)]
      exact ih
    | comma =>
      rw [List.countP_cons_of_neg (by simp), List.countP_cons_of_pos (by simp)]
      exact le_trans ih (Nat.le_add_right _ _)
    | other =>
      rw [List.countP_cons_of_neg (by simp), List.countP_cons_of_neg (by simp)]
      exact ih

/-- Visits in one part are not more than visits of tokens with some property, if each token that is
visited in this part has the property. -/
theorem Reaches.countP_le (h : Reaches c stop expecting position visits) {role : Role}
    {P : Nat → Prop} [DecidablePred P]
    (hrole : ∀ {k t expected}, c.token? k = some t → roleOf expected t = role → P k) :
    visits.countP (·.role = role) ≤ (visits.map Visit.position).countP (P ·) := by
  rw [List.countP_map]
  apply List.countP_mono_left
  intro v hv heq
  obtain ⟨t, expected, ht, hpart⟩ := h.role_eq v hv
  simp only [decide_eq_true_eq, Function.comp_apply] at heq ⊢
  exact hrole ht (hpart.trans heq)

end EnumBody

/-! ## Values -/

/-- Every token can be asked for its known integer. -/
def Configuration.Answers (c : Configuration) : Prop :=
  ∀ k t, c.token? k = some t → ∃ value, t.knownInteger = .ok value

namespace EnumBody

variable {c : Configuration}

theorem exists_initializerValue (h : c.Answers) (equals : Token) :
    ∃ value, initializerValue c equals = .ok value := by
  have hfollow : ∀ k t, c.follow? k = some t → ∃ value, t.knownInteger = .ok value := by
    intro k t ht
    obtain ⟨j, -, hj⟩ := Option.bind_eq_some_iff.1 ht
    exact h j t hj
  unfold initializerValue
  split
  · rename_i root hroot
    exact hfollow _ root hroot
  · dsimp only
    split
    · cases hfirst : c.follow? equals.next with
      | none => exact ⟨none, rfl⟩
      | some first => exact hfollow _ first hfirst
    · exact ⟨none, rfl⟩

theorem exists_enumeratorValue (h : c.Answers) {k : Nat} {name : Token}
    (hname : c.token? k = some name) (previous : Option Int) :
    ∃ value, enumeratorValue c previous name = .ok value := by
  obtain ⟨known, hknown⟩ := h k name hname
  unfold enumeratorValue
  rw [hknown]
  cases known with
  | some n => exact ⟨some n, rfl⟩
  | none =>
    cases hnext : c.follow? name.next with
    | none => exact ⟨previous.map (· + 1), rfl⟩
    | some next =>
      by_cases hequals : next.text.isText "=" = true
      · obtain ⟨value, hvalue⟩ := exists_initializerValue h next
        exact ⟨value, by simp [bind, Except.bind, hequals, hvalue]⟩
      · exact ⟨previous.map (· + 1), by simp [bind, Except.bind, hequals, pure, Except.pure]⟩

/-- **Each constant has its own name** among the visited tokens. -/
theorem exists_valuesFrom (h : c.Answers) (previous : Option Int) (visits : List Visit) :
    ∃ values, valuesFrom c previous visits = .ok values ∧
      values.length ≤ visits.countP (·.role = .name) := by
  induction visits generalizing previous with
  | nil => exact ⟨[], rfl, le_refl _⟩
  | cons v rest ih =>
    obtain ⟨position, role⟩ := v
    by_cases hrole : role = .name
    · subst hrole
      rw [List.countP_cons_of_pos (by simp), valuesFrom]
      cases ht : c.token? position with
      | none =>
        obtain ⟨values, hvalues, hlength⟩ := ih previous
        exact ⟨values, hvalues, Nat.le_succ_of_le hlength⟩
      | some t =>
        obtain ⟨value, hvalue⟩ := exists_enumeratorValue h ht previous
        obtain ⟨values, hvalues, hlength⟩ := ih value
        refine ⟨value :: values, ?_, Nat.succ_le_succ hlength⟩
        simp only [hvalue, hvalues, bind, Except.bind, pure, Except.pure]
    · obtain ⟨values, hvalues, hlength⟩ := ih previous
      rw [List.countP_cons_of_neg (by simpa using hrole), valuesFrom]
      refine ⟨values, ?_, hlength⟩
      cases role with
      | name => exact absurd rfl hrole
      | bracket link => exact hvalues
      | comma => exact hvalues
      | other => exact hvalues

/-! ## The whole body -/

/-- Visits of different tokens, of which no more play the part of a name than are names, and at most one
more than are commas. -/
structure Orderly (c : Configuration) (visits : List Visit) : Prop where
  once : (visits.map Visit.position).Nodup
  names : visits.countP (·.role = .name) ≤ (visits.map Visit.position).countP (c.IsName ·)
  commas : visits.countP (·.role = .name) ≤
    (visits.map Visit.position).countP (c.Reads · ",") + 1

section Forward

variable {rank : Nat → Nat} {stop : Nat}

theorem orderly_of_reaches (h : c.IsForward rank) {position : Nat} {visits : List Visit}
    (hreach : Reaches c stop true position visits) : Orderly c visits where
  once := by
    rw [List.Nodup, List.pairwise_map]
    refine (h.pairwise_rank hreach).1.imp ?_
    intro v w hlt heq
    rw [heq] at hlt
    exact lt_irrefl _ hlt
  names := by
    apply hreach.countP_le
    intro k t expected ht hrole
    exact ⟨t, ht, (of_roleOf_name hrole).2⟩
  commas := by
    have hcommas : visits.countP (·.role = .comma) ≤
        (visits.map Visit.position).countP (c.Reads · ",") :=
      hreach.countP_le fun ht hrole => ⟨_, ht, of_roleOf_comma hrole⟩
    have hnames := hreach.names_le
    simp only [Bool.toNat_true] at hnames
    omega

/-- A limit above the number of tokens is never met. -/
theorem exists_walkFrom (h : c.IsForward rank) (first : Option Nat) : ∃ visits, Orderly c visits ∧
    ∀ steps, c.tokens.size < steps → walkFrom c stop steps true first = ⟨visits, true⟩ := by
  cases first with
  | none =>
    refine ⟨[], ⟨by simp, by simp, by simp⟩, ?_⟩
    intro steps hsteps
    simp [walkFrom]
  | some position =>
    obtain ⟨visits, hreach⟩ := h.exists_reaches stop true position
    have horderly := orderly_of_reaches h hreach
    refine ⟨visits, horderly, ?_⟩
    intro steps hsteps
    apply walkFrom_of_reaches hreach
    have hlength := Configuration.length_le_of_nodup (c := c) horderly.once (by
      intro k hk
      obtain ⟨v, hv, rfl⟩ := List.mem_map.1 hk
      obtain ⟨t, -, ht, -⟩ := hreach.role_eq v hv
      exact (Array.getElem?_eq_some_iff.1 ht).1)
    rw [List.length_map] at hlength
    omega

end Forward

/-- **A body of any shape is walked through once.**  No token leads back, but brackets may be linked to
wrong tokens or to none, and the end of the body may be passed over, be missing or stand before the
start.

The walk ends by itself: a limit above the number of tokens is never met.  It visits each token at most
once.  If tokens can be asked for their known integer, the constants are found, at most one for each
name among the visited tokens, and at most one more than there are commas among them. -/
theorem constants_of_isForward {rank : Nat → Nat} (h : c.IsForward rank) (start stop : Nat) :
    let first := (c.token? start).bind Token.next
    let w := walk c start stop
    let visited := w.visits.map Visit.position
    (∀ steps, c.tokens.size < steps → walkFrom c stop steps true first = w) ∧ w.ended = true ∧
      visited.Nodup ∧
      (c.Answers → ∃ values, constants c start stop = .ok values ∧
        values.length ≤ visited.countP (c.IsName ·) ∧
        values.length ≤ visited.countP (c.Reads · ",") + 1) := by
  intro first w visited
  obtain ⟨visits, horderly, hlimit⟩ := exists_walkFrom h first
  have hw : w = ⟨visits, true⟩ := hlimit (2 * c.tokens.size + 1) (by omega)
  have hvisited : visited = visits.map Visit.position := by
    show w.visits.map Visit.position = _
    rw [hw]
  rw [hw, hvisited]
  refine ⟨hlimit, rfl, horderly.once, ?_⟩
  intro hanswers
  obtain ⟨values, hvalues, hlength⟩ := exists_valuesFrom hanswers (some (-1)) visits
  refine ⟨values, ?_, le_trans hlength horderly.names, le_trans hlength horderly.commas⟩
  have hwalk : walk c start stop = ⟨visits, true⟩ := hw
  rw [constants, hwalk, hvalues]
  rfl

/-- The tokens `{ A ( } ) , B` with the parentheses linked to each other, and no token behind the last. -/
def passedOver : Configuration where
  tokens := #[
    { str := some (.text "\x7b"), next := some 1 },
    { str := some (.text "A"), isName := some (.bool true), next := some 2 },
    { str := some (.text "("), link := some 4, next := some 3 },
    { str := some (.text "\x7d"), next := some 4 },
    { str := some (.text ")"), next := some 5 },
    { str := some (.text ","), next := some 6 },
    { str := some (.text "B"), isName := some (.bool true) }]

theorem isForward_passedOver : passedOver.IsForward id where
  next := by
    intro j k t ht hk
    have hj : j < 7 := (Array.getElem?_eq_some_iff.1 ht).1
    interval_cases j <;> obtain rfl := Option.some.inj ht <;> cases hk <;> decide
  link := by
    intro j k t ht hopen hk
    have hj : j < 7 := (Array.getElem?_eq_some_iff.1 ht).1
    interval_cases j <;> obtain rfl := Option.some.inj ht <;> cases hk
    -- the parenthesis is the only token with a link
    decide

theorem answers_passedOver : passedOver.Answers := by
  intro k t ht
  have hk : k < 7 := (Array.getElem?_eq_some_iff.1 ht).1
  interval_cases k <;> obtain rfl := Option.some.inj ht <;> exact ⟨_, rfl⟩

/-- The link leads past the closing brace, so the walk ends behind the last token.  It has two names and
one comma, and there are two constants.  With the end before the start it ends there too. -/
theorem constants_of_isForward_passedOver :
    passedOver.IsForward id ∧ passedOver.Answers ∧
      (walk passedOver 0 3).visits.map Visit.position = [1, 2, 5, 6] ∧
      (walk passedOver 0 3).ended = true ∧ (walk passedOver 4 1).ended = true ∧
      ∃ values, constants passedOver 0 3 = .ok values ∧ values = [some 0, some 1] ∧
        values.length ≤ [1, 2, 5, 6].countP (passedOver.IsName ·) ∧
        values.length ≤ [1, 2, 5, 6].countP (passedOver.Reads · ",") + 1 := by
  have hvisited : (walk passedOver 0 3).visits.map Visit.position = [1, 2, 5, 6] := rfl
  have hvalues : constants passedOver 0 3 = .ok [some 0, some 1] := rfl
  obtain ⟨-, hended, -, hconstants⟩ := constants_of_isForward isForward_passedOver 0 3
  obtain ⟨-, hbefore, -, -⟩ := constants_of_isForward isForward_passedOver 4 1
  obtain ⟨values, heq, hnames, hcommas⟩ := hconstants answers_passedOver
  rw [hvisited] at hnames hcommas
  refine ⟨isForward_passedOver, answers_passedOver, hvisited, hended, hbefore, values, heq, ?_,
    hnames, hcommas⟩
  exact Except.ok.inj (heq.symm.trans hvalues)

end EnumBody

end DeadCast
