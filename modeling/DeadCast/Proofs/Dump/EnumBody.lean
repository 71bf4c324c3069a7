import DeadCast.Proofs.Dump.BodyWalk
import DeadCast.Proofs.Dump.Known
import Mathlib.Tactic

/-!
# The enumerators of a well-formed body

A body is well formed if between its braces stand enumerators with commas between them
(`EnumBody.Encloses`).  An enumerator is a name, or a name with an equals sign and an initializer;
an initializer may hold anything but a comma outside of brackets, and its opening brackets are
linked to tokens further on in it (`EnumBody.Balanced`).

For such a body the walk visits the names of the enumerators in order, and no other name: inside an
initializer no name is expected, and brackets are jumped over (`EnumBody.Listed.reaches`).  So the
constants of a scope are found enumerator by enumerator, each from the one before it by the rules of
C, which `EnumBody.Takes` states one by one (`Scope.constants_of_encloses`).  The one exception is a
token that refuses to say what it is known to be: then there are no constants at all
(`Scope.constants_overflowing`).
-/

namespace DeadCast

namespace EnumBody

/-! ## Well-formed bodies -/

/-- Tokens without a comma outside of brackets.  An opening bracket is linked to one of the tokens
behind it, whatever stands between the two. -/
inductive Balanced (c : Configuration) : List Nat → Prop
  | nil : Balanced c []
  | plain {k : Nat} {rest : List Nat} {t : Token} (ht : c.token? k = some t)
    (hopen : opens t.text = false) (hcomma : t.text ≠ .text ",") (hrest : Balanced c rest) :
    Balanced c (k :: rest)
  | group {k close : Nat} {inner rest : List Nat} {t : Token} (ht : c.token? k = some t)
    (hopen : opens t.text = true) (hlink : t.link = some close) (hrest : Balanced c rest) :
    Balanced c (k :: (inner ++ close :: rest))

/-- The positions of an initializer: the equals sign, the token behind it, and all others. -/
structure Initializer where
  equals : Nat
  first : Nat
  others : List Nat

/-- The positions of an enumerator: its name, and its initializer if it has one. -/
structure Enumerator where
  name : Nat
  initializer : Option Initializer

namespace Enumerator

/-- The positions of the tokens behind the name. -/
def behind (e : Enumerator) : List Nat :=
  match e.initializer with
  | none => []
  | some i => i.equals :: i.first :: i.others

/-- The name is a name, and the initializer begins with an equals sign and is balanced. -/
structure IsWellFormed (c : Configuration) (e : Enumerator) : Prop where
  name : c.IsName e.name
  equals : ∀ i, e.initializer = some i → c.Reads i.equals "="
  balanced : ∀ i, e.initializer = some i → Balanced c (i.first :: i.others)

end Enumerator

/-- Enumerators with commas between them, and maybe one behind the last. -/
inductive Listed (c : Configuration) : List Enumerator → List Nat → Prop
  | nil : Listed c [] []
  | last {e : Enumerator} (he : e.IsWellFormed c) : Listed c [e] (e.name :: e.behind)
  | cons {e : Enumerator} {comma : Nat} {es : List Enumerator} {ps : List Nat}
    (he : e.IsWellFormed c) (hcomma : c.Reads comma ",") (hrest : Listed c es ps) :
    Listed c (e :: es) (e.name :: (e.behind ++ comma :: ps))

/-- What may stand between the braces: a list of enumerators, or a comma alone. -/
inductive Content (c : Configuration) : List Enumerator → List Nat → Prop
  | listed {es : List Enumerator} {ps : List Nat} (h : Listed c es ps) : Content c es ps
  | comma {k : Nat} (hcomma : c.Reads k ",") (hname : ¬ c.IsName k) : Content c [] [k]

/-- The tokens from the brace at `start` to the closing brace at `stop` follow each other, and
between the braces stand the enumerators. -/
structure Encloses (c : Configuration) (start stop : Nat) (es : List Enumerator) (ps : List Nat) :
    Prop where
  content : Content c es ps
  chain : (start :: (ps ++ [stop])).IsChain c.Follows
  closes : c.Reads stop "\x7d"
  inside : stop ∉ ps

/-! ## The rules of C -/

/-- The value of an enumerator behind one of value `previous`. -/
inductive Takes (c : Configuration) (previous : Option Int) (e : Enumerator) : Option Int → Prop
  /-- The known integer of the name counts first. -/
  | known {name : Token} {n : Int} (hname : c.token? e.name = some name)
    (hn : name.Knows (some n)) : Takes c previous e (some n)
  /-- Else that of the expression behind the equals sign, if it has one. -/
  | expression {name equals root : Token} {i : Initializer} {value : Option Int}
    (hname : c.token? e.name = some name) (hn : name.Knows none)
    (hi : e.initializer = some i) (hequals : c.token? i.equals = some equals)
    (hroot : c.follow? equals.operand2 = some root) (hvalue : root.Knows value) :
    Takes c previous e value
  /-- Without an expression, that of the first token, if a comma or the brace comes after it. -/
  | single {name equals first : Token} {i : Initializer} {after : Nat} {value : Option Int}
    (hname : c.token? e.name = some name) (hn : name.Knows none)
    (hi : e.initializer = some i) (hequals : c.token? i.equals = some equals)
    (hroot : c.follow? equals.operand2 = none) (hfirst : c.token? i.first = some first)
    (hafter : first.next = some after) (hends : c.Reads after "," ∨ c.Reads after "\x7d")
    (hvalue : first.Knows value) : Takes c previous e value
  /-- Otherwise the initializer has no value. -/
  | unclear {name equals first : Token} {i : Initializer}
    (hname : c.token? e.name = some name) (hn : name.Knows none)
    (hi : e.initializer = some i) (hequals : c.token? i.equals = some equals)
    (hroot : c.follow? equals.operand2 = none) (hfirst : c.token? i.first = some first)
    (hends : ∀ after, first.next = some after → ¬ (c.Reads after "," ∨ c.Reads after "\x7d")) :
    Takes c previous e none
  /-- Without an initializer the enumerator is one more than the one before it. -/
  | successor {name : Token} (hname : c.token? e.name = some name)
    (hn : name.Knows none) (hi : e.initializer = none) :
    Takes c previous e (previous.map (· + 1))

/-- The tokens that the rules ask for their known integer. -/
inductive Asks (c : Configuration) (e : Enumerator) : Token → Prop
  | name {name : Token} (hname : c.token? e.name = some name) : Asks c e name
  | expression {name equals root : Token} {i : Initializer} (hname : c.token? e.name = some name)
    (hn : name.Knows none) (hi : e.initializer = some i) (hequals : c.token? i.equals = some equals)
    (hroot : c.follow? equals.operand2 = some root) : Asks c e root
  | single {name equals first : Token} {i : Initializer} {after : Nat}
    (hname : c.token? e.name = some name) (hn : name.Knows none) (hi : e.initializer = some i)
    (hequals : c.token? i.equals = some equals) (hroot : c.follow? equals.operand2 = none)
    (hfirst : c.token? i.first = some first) (hafter : first.next = some after)
    (hends : c.Reads after "," ∨ c.Reads after "\x7d") : Asks c e first

/-- Some token that the rules ask for its known integer refuses with the fault. -/
def Fails (c : Configuration) (e : Enumerator) (fault : Fault) : Prop :=
  ∃ t, Asks c e t ∧ t.Refuses fault

/-- The values of enumerators one after the other, behind one of value `previous`. -/
inductive Counted (c : Configuration) : Option Int → List Enumerator → List (Option Int) → Prop
  | nil {previous : Option Int} : Counted c previous [] []
  | cons {previous value : Option Int} {e : Enumerator} {es : List Enumerator}
    {values : List (Option Int)} (h : Takes c previous e value)
    (hrest : Counted c value es values) : Counted c previous (e :: es) (value :: values)

/-- The entry before the one at `k`.  Before the first stands `-1`, so that it counts from `0`. -/
def entryBefore (values : List (Option Int)) (k : Nat) : Option Int :=
  ((some (-1) :: values)[k]?).join

namespace Counted

variable {c : Configuration} {previous : Option Int} {es : List Enumerator}
  {values : List (Option Int)}

theorem length_eq (h : Counted c previous es values) : values.length = es.length := by
  induction h with
  | nil => rfl
  | cons _ _ ih => rw [List.length_cons, List.length_cons, ih]

theorem takes (h : Counted c previous es values) {k : Nat} {e : Enumerator}
    (he : es[k]? = some e) :
    ∃ v, values[k]? = some v ∧ Takes c ((previous :: values)[k]?).join e v := by
  induction h generalizing k with
  | nil => simp at he
  | cons htakes hrest ih =>
    cases k with
    | zero =>
      obtain rfl := Option.some.inj he
      exact ⟨_, rfl, htakes⟩
    | succ k => exact ih he

end Counted

/-! ## The walk through a well-formed body -/

section Walk

variable {c : Configuration} {stop : Nat}

/-- The visits of the names of enumerators. -/
def nameVisits (es : List Enumerator) : List Visit := es.map fun e => ⟨e.name, .name⟩

/-- **An initializer is passed without a name.** -/
theorem Balanced.reaches {ps : List Nat} (h : Balanced c ps) {q : Nat} {visits : List Visit}
    (hchain : (ps ++ [q]).IsChain c.Follows) (hstop : stop ∉ ps)
    (hrest : Reaches c stop false q visits) {k : Nat} (hk : (ps ++ [q]).head? = some k) :
    ∃ passed, Reaches c stop false k (passed ++ visits) ∧ (∀ v ∈ passed, v.role ≠ .name) ∧
      passed.length ≤ ps.length := by
  induction h generalizing k with
  | nil =>
    obtain rfl : q = k := Option.some.inj hk
    exact ⟨[], hrest, by simp, by simp⟩
  | @plain j rest t ht hopen hcomma hbalanced ih =>
    obtain rfl : j = k := Option.some.inj hk
    obtain ⟨l, hl, hjl, hchain⟩ := Configuration.exists_next hchain
    obtain ⟨passed, hreach, hroles, hlength⟩ :=
      ih hchain (List.not_mem_of_not_mem_cons hstop) hl
    refine ⟨⟨j, .other⟩ :: passed, ?_, by simpa using hroles, Nat.succ_le_succ hlength⟩
    refine .step ?_ ht (roleOf_other hopen hcomma) (hjl.next_eq ht) hreach
    rintro rfl
    exact hstop (List.mem_cons_self ..)
  | @group j close inner rest t ht hopen hlink hbalanced ih =>
    obtain rfl : j = k := Option.some.inj hk
    -- the walk goes on behind the closing bracket
    rw [← List.cons_append, List.append_assoc] at hchain
    obtain ⟨l, hl, ⟨u, hu, hul⟩, hchain⟩ := Configuration.exists_next hchain.right_of_append
    obtain ⟨passed, hreach, hroles, hlength⟩ := ih hchain (fun h => hstop (by simp [h])) hl
    refine ⟨⟨j, .bracket close⟩ :: passed, ?_, by simpa using hroles, ?_⟩
    · refine .step ?_ ht (roleOf_bracket hopen hlink) ?_ hreach
      · rintro rfl
        exact hstop (List.mem_cons_self ..)
      · rw [positionAfter, hu]
        exact hul
    · simp only [List.length_cons, List.length_append]
      omega

/-- An enumerator is passed with one name, its own. -/
theorem Enumerator.IsWellFormed.reaches {e : Enumerator} (h : e.IsWellFormed c) {q : Nat}
    {visits : List Visit} (hchain : (e.name :: (e.behind ++ [q])).IsChain c.Follows)
    (hname : e.name ≠ stop) (hstop : stop ∉ e.behind) (hrest : Reaches c stop false q visits) :
    ∃ passed, Reaches c stop true e.name (⟨e.name, .name⟩ :: (passed ++ visits)) ∧
      (∀ v ∈ passed, v.role ≠ .name) ∧ passed.length ≤ e.behind.length := by
  obtain ⟨t, ht, hisName⟩ := h.name
  obtain ⟨k, hk, hnext, hchain⟩ := Configuration.exists_next hchain
  have hbehind : Balanced c e.behind := by
    unfold Enumerator.behind
    cases hi : e.initializer with
    | none => exact .nil
    | some i =>
      obtain ⟨s, hs, htext⟩ := h.equals i hi
      refine .plain hs ?_ ?_ (h.balanced i hi)
      · simp [opens, htext, Datum.isText, Datum.same]
      · simp [htext]
  obtain ⟨passed, hreach, hroles, hlength⟩ := hbehind.reaches hchain hstop hrest hk
  refine ⟨passed, ?_, hroles, hlength⟩
  exact .step hname ht (roleOf_name hisName) (hnext.next_eq ht) hreach

theorem filter_names {v : Visit} {passed visits : List Visit} (hname : v.role = .name)
    (hpassed : ∀ v ∈ passed, v.role ≠ .name) :
    (v :: (passed ++ visits)).filter (fun v => v.role = .name) =
      v :: visits.filter fun v => v.role = .name := by
  have hnone : passed.filter (fun v => v.role = .name) = [] := by
    simpa [List.filter_eq_nil_iff] using hpassed
  rw [List.filter_cons_of_pos (by simpa using hname), List.filter_append, hnone, List.nil_append]

/-- The tokens of an enumerator up to its comma, and those from there on. -/
theorem isChain_comma {e : Enumerator} {comma : Nat} {ps : List Nat}
    (h : (e.name :: (e.behind ++ comma :: ps) ++ [stop]).IsChain c.Follows) :
    (e.name :: (e.behind ++ [comma])).IsChain c.Follows ∧
      (comma :: (ps ++ [stop])).IsChain c.Follows := by
  rw [← List.cons_append, List.append_assoc] at h
  exact List.isChain_split.1 h

/-- **The walk through a list of enumerators** visits their names in order, and no other name. -/
theorem Listed.reaches {es : List Enumerator} {ps : List Nat} (h : Listed c es ps)
    (hchain : (ps ++ [stop]).IsChain c.Follows) (hstop : stop ∉ ps) {k : Nat}
    (hk : (ps ++ [stop]).head? = some k) :
    ∃ visits, Reaches c stop true k visits ∧ visits.length ≤ ps.length ∧
      visits.filter (fun v => v.role = .name) = nameVisits es := by
  induction h generalizing k with
  | nil =>
    obtain rfl : stop = k := Option.some.inj hk
    exact ⟨[], .here, by simp, rfl⟩
  | @last e he =>
    obtain rfl : e.name = k := Option.some.inj hk
    obtain ⟨passed, hreach, hroles, hlength⟩ := he.reaches hchain
      (fun heq => hstop (by simp [heq])) (List.not_mem_of_not_mem_cons hstop) .here
    refine ⟨_, hreach, by simpa using hlength, ?_⟩
    exact filter_names rfl hroles
  | @cons e comma es ps he hcomma hlisted ih =>
    obtain rfl : e.name = k := Option.some.inj hk
    obtain ⟨t, ht, htext⟩ := hcomma
    obtain ⟨hfront, hback⟩ := isChain_comma hchain
    obtain ⟨l, hl, hnext, hrest⟩ := Configuration.exists_next hback
    obtain ⟨visits, hvisits, hcount, hnames⟩ := ih hrest (fun hmem => hstop (by simp [hmem])) hl
    have hcommaStep : Reaches c stop false comma (⟨comma, .comma⟩ :: visits) := by
      refine .step ?_ ht (roleOf_comma (by simp) htext) (hnext.next_eq ht) hvisits
      rintro rfl
      exact hstop (by simp)
    obtain ⟨passed, hreach, hroles, hlength⟩ := he.reaches hfront
      (fun heq => hstop (by simp [heq])) (fun hmem => hstop (by simp [hmem])) hcommaStep
    refine ⟨_, hreach, ?_, ?_⟩
    · simp only [List.length_cons, List.length_append]
      omega
    · rw [filter_names rfl hroles, List.filter_cons_of_neg (by simp), hnames]
      rfl

/-! ## The values of a well-formed body -/

/-- An enumerator in its place: well formed, and followed by a comma or the closing brace. -/
def Stands (c : Configuration) (e : Enumerator) : Prop :=
  e.IsWellFormed c ∧ ∃ q, (e.name :: (e.behind ++ [q])).IsChain c.Follows ∧
    (c.Reads q "," ∨ c.Reads q "\x7d")

theorem Listed.stands {es : List Enumerator} {ps : List Nat} (h : Listed c es ps)
    (hchain : (ps ++ [stop]).IsChain c.Follows) (hcloses : c.Reads stop "\x7d") :
    ∀ e ∈ es, Stands c e := by
  induction h with
  | nil => simp
  | last he =>
    rw [List.forall_mem_singleton]
    exact ⟨he, stop, hchain, Or.inr hcloses⟩
  | @cons e comma es ps he hcomma hlisted ih =>
    obtain ⟨hfront, hback⟩ := isChain_comma hchain
    rw [List.forall_mem_cons]
    exact ⟨⟨he, comma, hfront, Or.inl hcomma⟩, ih (List.isChain_cons.1 hback).2⟩

theorem isText_textOf_iff {k : Option Nat} {s : String} (hs : s ≠ "") :
    (Token.textOf (c.follow? k)).isText s = true ↔ ∃ j, k = some j ∧ c.Reads j s := by
  rw [Datum.isText_iff]
  cases k with
  | none => simpa [Configuration.follow?, Token.textOf] using hs.symm
  | some j =>
    simp only [Configuration.follow?, Option.bind_some, Option.some.injEq, exists_eq_left',
      Configuration.Reads]
    cases c.token? j with
    | none => simpa [Token.textOf] using hs.symm
    | some t => simp [Token.textOf]

/-- The value of an initializer is that of a token that may be asked, or none. -/
theorem initializerValue_cases {equals first : Token} {i : Initializer}
    (hnext : equals.next = some i.first) (hfirst : c.token? i.first = some first) :
    (∃ root, c.follow? equals.operand2 = some root ∧
      initializerValue c equals = root.knownInteger) ∨
    (c.follow? equals.operand2 = none ∧
      ((∃ after, first.next = some after ∧ (c.Reads after "," ∨ c.Reads after "\x7d") ∧
        initializerValue c equals = first.knownInteger) ∨
      ((∀ after, first.next = some after → ¬ (c.Reads after "," ∨ c.Reads after "\x7d")) ∧
        initializerValue c equals = .ok none))) := by
  cases hroot : c.follow? equals.operand2 with
  | some root => exact Or.inl ⟨root, rfl, by simp only [initializerValue, hroot]⟩
  | none =>
    have hfollow : c.follow? equals.next = some first := by
      rw [hnext]
      exact hfirst
    have hends : ((Token.textOf (c.follow? first.next)).isText "," ||
        (Token.textOf (c.follow? first.next)).isText "\x7d") = true ↔
          ∃ after, first.next = some after ∧ (c.Reads after "," ∨ c.Reads after "\x7d") := by
      rw [Bool.or_eq_true, isText_textOf_iff (by decide), isText_textOf_iff (by decide), ← exists_or]
      simp only [and_or_left]
    refine Or.inr ⟨rfl, ?_⟩
    by_cases hafter : ∃ after, first.next = some after ∧ (c.Reads after "," ∨ c.Reads after "\x7d")
    · obtain ⟨after, hafter', hreads⟩ := hafter
      refine Or.inl ⟨after, hafter', hreads, ?_⟩
      simp only [initializerValue, hroot, hfollow, Option.bind_some, Token.knownIntegerOf]
      rw [if_pos (hends.2 ⟨after, hafter', hreads⟩)]
    · refine Or.inr ⟨fun after hnext' hreads => hafter ⟨after, hnext', hreads⟩, ?_⟩
      simp only [initializerValue, hroot, hfollow, Option.bind_some]
      rw [if_neg fun h => hafter (hends.1 h)]

/-- An enumerator without an initializer counts on, unless its name is known. -/
theorem enumeratorValue_of_none {e : Enumerator} (h : Stands c e) (hi : e.initializer = none)
    {name : Token} (hname : c.token? e.name = some name) (hn : name.Knows none)
    (previous : Option Int) : enumeratorValue c previous name = .ok (previous.map (· + 1)) := by
  obtain ⟨-, q, hchain, hq⟩ := h
  -- the token behind the name is no equals sign
  have hnext : c.Follows e.name q := by
    simpa [Enumerator.behind, hi] using hchain
  obtain ⟨u, hu, htext⟩ : ∃ u, c.token? q = some u ∧ u.text.isText "=" = false := by
    rcases hq with ⟨u, hu, htext⟩ | ⟨u, hu, htext⟩
    · exact ⟨u, hu, by simp [htext, Datum.isText, Datum.same]⟩
    · exact ⟨u, hu, by simp [htext, Datum.isText, Datum.same]⟩
  have hfollow : c.follow? name.next = some u := by
    rw [hnext.next_eq hname]
    exact hu
  simp [enumeratorValue, hn.knownInteger_eq, hfollow, htext, bind, Except.bind, pure, Except.pure]

/-- An enumerator with an initializer has its value, unless its name is known. -/
theorem enumeratorValue_of_some {e : Enumerator} (h : Stands c e) {i : Initializer}
    (hi : e.initializer = some i) {name : Token} (hname : c.token? e.name = some name)
    (hn : name.Knows none) (previous : Option Int) :
    ∃ equals first, c.token? i.equals = some equals ∧ equals.next = some i.first ∧
      c.token? i.first = some first ∧
      enumeratorValue c previous name = initializerValue c equals := by
  obtain ⟨hwell, q, hchain, -⟩ := h
  have htokens : c.Follows e.name i.equals ∧ c.Follows i.equals i.first ∧
      (i.first :: (i.others ++ [q])).IsChain c.Follows := by
    simpa [Enumerator.behind, hi] using hchain
  obtain ⟨hnext, hfirst, hrest⟩ := htokens
  obtain ⟨equals, hequals, htext⟩ := hwell.equals i hi
  obtain ⟨-, -, ⟨first, hfirst', -⟩, -⟩ := Configuration.exists_next hrest
  have hfollow : c.follow? name.next = some equals := by
    rw [hnext.next_eq hname]
    exact hequals
  refine ⟨equals, first, hequals, hfirst.next_eq hequals, hfirst', ?_⟩
  simp [enumeratorValue, hn.knownInteger_eq, hfollow, htext, bind, Except.bind]

/-- **One enumerator** gets its value by the rules, unless a token that they ask refuses. -/
theorem enumeratorValue_spec {e : Enumerator} (h : Stands c e) {name : Token}
    (hname : c.token? e.name = some name) (previous : Option Int) :
    (∃ v, enumeratorValue c previous name = .ok v ∧ Takes c previous e v) ∨ ∃ f, Fails c e f := by
  rcases name.knows_or_refuses with ⟨known, hn⟩ | ⟨f, hrefuses⟩
  · cases known with
    | some n =>
      refine Or.inl ⟨some n, ?_, .known hname hn⟩
      simp [enumeratorValue, hn.knownInteger_eq, bind, Except.bind, pure, Except.pure]
    | none =>
      cases hi : e.initializer with
      | none =>
        exact Or.inl ⟨_, enumeratorValue_of_none h hi hname hn previous, .successor hname hn hi⟩
      | some i =>
        obtain ⟨equals, first, hequals, hnext, hfirst, hvalue⟩ :=
          enumeratorValue_of_some h hi hname hn previous
        rw [hvalue]
        rcases initializerValue_cases hnext hfirst with
          ⟨root, hroot, heq⟩ | ⟨hroot, ⟨after, hafter, hreads, heq⟩ | ⟨hends, heq⟩⟩
        · rcases root.knows_or_refuses with ⟨v, hv⟩ | ⟨f, hrefuses⟩
          · exact Or.inl ⟨v, heq.trans hv.knownInteger_eq, .expression hname hn hi hequals hroot hv⟩
          · exact Or.inr ⟨f, root, .expression hname hn hi hequals hroot, hrefuses⟩
        · rcases first.knows_or_refuses with ⟨v, hv⟩ | ⟨f, hrefuses⟩
          · exact Or.inl ⟨v, heq.trans hv.knownInteger_eq,
              .single hname hn hi hequals hroot hfirst hafter hreads hv⟩
          · exact Or.inr ⟨f, first, .single hname hn hi hequals hroot hfirst hafter hreads, hrefuses⟩
        · exact Or.inl ⟨none, heq, .unclear hname hn hi hequals hroot hfirst hends⟩
  · exact Or.inr ⟨f, name, .name hname, hrefuses⟩

/-- If a token that is asked refuses, that is the fault of the enumerator. -/
theorem enumeratorValue_of_fails {e : Enumerator} (h : Stands c e) {name : Token}
    (hname : c.token? e.name = some name) (previous : Option Int) {f : Fault} (hfails : Fails c e f) :
    enumeratorValue c previous name = .error f := by
  obtain ⟨t, hasks, hrefuses⟩ := hfails
  have hsame : ∀ {u : Token}, c.token? e.name = some u → u = name := fun hu =>
    Option.some.inj (hu.symm.trans hname)
  cases hasks with
  | name ht =>
    obtain rfl := hsame ht
    simp [enumeratorValue, hrefuses.knownInteger_eq, bind, Except.bind]
  | expression hu hn hi hequals hroot =>
    obtain rfl := hsame hu
    obtain ⟨equals', first, hequals', hnext, hfirst, hvalue⟩ :=
      enumeratorValue_of_some h hi hname hn previous
    obtain rfl := Option.some.inj (hequals'.symm.trans hequals)
    rw [hvalue, initializerValue, hroot]
    exact hrefuses.knownInteger_eq
  | single hu hn hi hequals hroot hfirst hafter hends =>
    obtain rfl := hsame hu
    obtain ⟨equals', first', hequals', hnext, hfirst', hvalue⟩ :=
      enumeratorValue_of_some h hi hname hn previous
    obtain rfl := Option.some.inj (hequals'.symm.trans hequals)
    obtain rfl := Option.some.inj (hfirst'.symm.trans hfirst)
    rw [hvalue]
    rcases initializerValue_cases hnext hfirst with
      ⟨root, hroot', -⟩ | ⟨-, ⟨-, -, -, heq⟩ | ⟨hnone, -⟩⟩
    · rw [hroot] at hroot'
      cases hroot'
    · exact heq.trans hrefuses.knownInteger_eq
    · exact absurd hends (hnone _ hafter)

theorem valuesFrom_nameVisits_cons {e : Enumerator} {es : List Enumerator} {name : Token}
    (hname : c.token? e.name = some name) (previous : Option Int) :
    valuesFrom c previous (nameVisits (e :: es)) = (do
      let value ← enumeratorValue c previous name
      return value :: (← valuesFrom c value (nameVisits es))) := by
  simp only [nameVisits, List.map_cons, valuesFrom, hname]

/-- **A list of enumerators** gets its values one by one, if no token that is asked refuses. -/
theorem valuesFrom_nameVisits {es : List Enumerator} (h : ∀ e ∈ es, Stands c e)
    (hanswers : ∀ e ∈ es, ∀ f, ¬ Fails c e f) (previous : Option Int) :
    ∃ values, valuesFrom c previous (nameVisits es) = .ok values ∧ Counted c previous es values := by
  induction es generalizing previous with
  | nil => exact ⟨[], rfl, .nil⟩
  | cons e es ih =>
    obtain ⟨he, hes⟩ := List.forall_mem_cons.1 h
    obtain ⟨hsound, hrest⟩ := List.forall_mem_cons.1 hanswers
    obtain ⟨name, hname, -⟩ := he.1.name
    rcases enumeratorValue_spec he hname previous with ⟨v, hv, htakes⟩ | ⟨f, hfails⟩
    · obtain ⟨values, hvalues, hcounted⟩ := ih hes hrest v
      refine ⟨v :: values, ?_, .cons htakes hcounted⟩
      rw [valuesFrom_nameVisits_cons hname, hv]
      simp only [bind, Except.bind, hvalues]
      rfl
    · exact absurd hfails (hsound f)

/-- The first enumerator of which a token refuses ends the count. -/
theorem valuesFrom_of_fails {before after : List Enumerator} {e : Enumerator}
    (h : ∀ e' ∈ before ++ e :: after, Stands c e') (hanswers : ∀ e' ∈ before, ∀ f, ¬ Fails c e' f)
    {f : Fault} (hfails : Fails c e f) (previous : Option Int) :
    valuesFrom c previous (nameVisits (before ++ e :: after)) = .error f := by
  induction before generalizing previous with
  | nil =>
    have he := h e (by simp)
    obtain ⟨name, hname, -⟩ := he.1.name
    rw [List.nil_append, valuesFrom_nameVisits_cons hname,
      enumeratorValue_of_fails he hname previous hfails]
    rfl
  | cons e' before ih =>
    obtain ⟨he', hrest⟩ := List.forall_mem_cons.1 h
    obtain ⟨hsound, hbefore⟩ := List.forall_mem_cons.1 hanswers
    obtain ⟨name, hname, -⟩ := he'.1.name
    rcases enumeratorValue_spec he' hname previous with ⟨v, hv, -⟩ | ⟨g, hg⟩
    · rw [List.cons_append, valuesFrom_nameVisits_cons hname, hv]
      simp only [bind, Except.bind, ih hrest hbefore v]
    · exact absurd hg (hsound g)

/-! ## The whole body -/

variable {start : Nat} {es : List Enumerator} {ps : List Nat}

theorem Encloses.stands (h : Encloses c start stop es ps) : ∀ e ∈ es, Stands c e := by
  cases h.content with
  | listed hlisted => exact hlisted.stands (List.isChain_cons.1 h.chain).2 h.closes
  | comma hcomma hname => simp

/-- The walk through the body ends, and its names are those of the enumerators. -/
theorem Encloses.walk_eq (h : Encloses c start stop es ps) :
    ∃ visits, walk c start stop = ⟨visits, true⟩ ∧
      visits.filter (fun v => v.role = .name) = nameVisits es := by
  obtain ⟨k, hk, ⟨t, ht, htk⟩, hchain⟩ := Configuration.exists_next h.chain
  have hsize := Configuration.length_le_of_isChain hchain h.inside
  obtain ⟨visits, hreach, hlength, hnames⟩ : ∃ visits, Reaches c stop true k visits ∧
      visits.length ≤ ps.length ∧ visits.filter (fun v => v.role = .name) = nameVisits es := by
    cases h.content with
    | listed hlisted => exact hlisted.reaches hchain h.inside hk
    | @comma j hcomma hname =>
      obtain rfl : j = k := Option.some.inj hk
      obtain ⟨u, hu, htext⟩ := hcomma
      have hnext : c.Follows j stop := (List.isChain_cons_cons.1 hchain).1
      have hrole : roleOf true u = .comma :=
        roleOf_comma (fun _ => Bool.eq_false_iff.2 fun hu' => hname ⟨u, hu, hu'⟩) htext
      refine ⟨[⟨j, .comma⟩], .step ?_ hu hrole (hnext.next_eq hu) .here, le_refl _, rfl⟩
      rintro rfl
      exact h.inside (List.mem_singleton_self _)
  refine ⟨visits, ?_, hnames⟩
  rw [walk, ht, Option.bind_some, htk]
  exact walkFrom_of_reaches hreach (by omega)

/-- The constants of the body are the values of the names. -/
theorem Encloses.constants_eq (h : Encloses c start stop es ps) :
    constants c start stop = valuesFrom c (some (-1)) (nameVisits es) := by
  obtain ⟨visits, hwalk, hnames⟩ := h.walk_eq
  rw [constants, hwalk, ← hnames, ← valuesFrom_filter]
  cases hvalues : valuesFrom c (some (-1)) visits with
  | error f => simp [bind, Except.bind]
  | ok values => simp [bind, Except.bind, pure, Except.pure]

end Walk

end EnumBody

open EnumBody in
/-- **The enumerators of a well-formed body.**  The body of the scope encloses some enumerators.

If no token that the rules ask for its known integer refuses, the scope declares one constant for
each enumerator, in order.  Each is the known integer of the name, else that of the initializer,
else one more than the constant before it, and the first counts from `0`; behind a constant that is
not known the next one is not known either.

If a token refuses, there are no constants at all, and the fault is that of the first enumerator
that has such a token. -/
theorem Scope.constants_of_encloses {c : Configuration} {s : Scope} {start stop : Nat}
    {es : List Enumerator} {ps : List Nat} (hstart : s.bodyStart = some start)
    (hstop : s.bodyEnd = some stop) (h : Encloses c start stop es ps) :
    ((∀ e ∈ es, ∀ f, ¬ Fails c e f) →
      ∃ values, s.constants c = .ok values ∧ values.length = es.length ∧
        ∀ k e, es[k]? = some e → ∃ v, values[k]? = some v ∧ Takes c (entryBefore values k) e v) ∧
    ∀ before e after f, es = before ++ e :: after → (∀ e' ∈ before, ∀ f', ¬ Fails c e' f') →
      Fails c e f → s.constants c = .error f := by
  have hconstants : s.constants c = valuesFrom c (some (-1)) (nameVisits es) := by
    rw [Scope.constants, hstart, hstop]
    exact h.constants_eq
  rw [hconstants]
  refine ⟨fun hanswers => ?_, ?_⟩
  · obtain ⟨values, hvalues, hcounted⟩ := valuesFrom_nameVisits h.stands hanswers (some (-1))
    exact ⟨values, hvalues, hcounted.length_eq, fun k e he => hcounted.takes he⟩
  · rintro before e after f rfl hanswers hfails
    exact valuesFrom_of_fails h.stands hanswers hfails (some (-1))

/-! ## A body with brackets -/

namespace EnumBody

/-- The tokens `{ A = f ( B , 1 ) , C , D = 7 , E , }`. -/
def nested : Configuration where
  tokens := #[word "\x7b" 1, name "A" 2, { word "=" 3 with operand2 := some 4 }, name "f" 4,
    { word "(" 5 with link := some 8 }, name "B" 6, word "," 7, number "1" 8, word ")" 9,
    word "," 10, name "C" 11, word "," 12, name "D" 13, word "=" 14, number "7" 15, word "," 16,
    name "E" 17, word "," 18, word "\x7d" 19]
where
  word (s : String) (next : Nat) : Token := { str := some (.text s), next := some next }
  name (s : String) (next : Nat) : Token := { word s next with isName := some (.bool true) }
  number (s : String) (next : Nat) : Token := { word s next with isNumber := some (.bool true) }

/-- Its enumerators. -/
def nestedEnumerators : List Enumerator :=
  [⟨1, some ⟨2, 3, [4, 5, 6, 7, 8]⟩⟩, ⟨10, none⟩, ⟨12, some ⟨13, 14, []⟩⟩, ⟨16, none⟩]

theorem encloses_nested : Encloses nested 0 18 nestedEnumerators
    [1, 2, 3, 4, 5, 6, 7, 8, 9, 10, 11, 12, 13, 14, 15, 16, 17] := by
  have hcall : Balanced nested (3 :: 4 :: ([5, 6, 7] ++ 8 :: [])) := by
    refine .plain rfl rfl ?_ (.group rfl rfl rfl .nil)
    show Datum.text "f" ≠ .text ","
    simp
  have hseven : Balanced nested [14] := by
    refine .plain rfl rfl ?_ .nil
    show Datum.text "7" ≠ .text ","
    simp
  have hA : Enumerator.IsWellFormed nested ⟨1, some ⟨2, 3, [4, 5, 6, 7, 8]⟩⟩ :=
    ⟨⟨_, rfl, rfl⟩, by rintro i ⟨⟩; exact ⟨_, rfl, rfl⟩, by rintro i ⟨⟩; exact hcall⟩
  have hC : Enumerator.IsWellFormed nested ⟨10, none⟩ := ⟨⟨_, rfl, rfl⟩, nofun, nofun⟩
  have hD : Enumerator.IsWellFormed nested ⟨12, some ⟨13, 14, []⟩⟩ :=
    ⟨⟨_, rfl, rfl⟩, by rintro i ⟨⟩; exact ⟨_, rfl, rfl⟩, by rintro i ⟨⟩; exact hseven⟩
  have hE : Enumerator.IsWellFormed nested ⟨16, none⟩ := ⟨⟨_, rfl, rfl⟩, nofun, nofun⟩
  have hcomma : ∀ k ∈ [9, 11, 15, 17], nested.Reads k "," := by
    simp only [List.forall_mem_cons]
    exact ⟨⟨_, rfl, rfl⟩, ⟨_, rfl, rfl⟩, ⟨_, rfl, rfl⟩, ⟨_, rfl, rfl⟩, by simp⟩
  refine ⟨.listed ?_, ?_, ⟨_, rfl, rfl⟩, by decide⟩
  · exact .cons hA (hcomma 9 (by simp)) (.cons hC (hcomma 11 (by simp))
      (.cons hD (hcomma 15 (by simp)) (.cons hE (hcomma 17 (by simp)) .nil)))
  · simp [Configuration.Follows, Configuration.token?, nested, nested.word, nested.name,
      nested.number]

theorem not_refuses_nested {k : Nat} {t : Token} (h : nested.token? k = some t) (f : Fault) :
    ¬ t.Refuses f := by
  intro hrefuses
  have hk : k < 19 := (Array.getElem?_eq_some_iff.1 h).1
  have hfault := hrefuses.knownInteger_eq
  interval_cases k <;> obtain rfl := Option.some.inj h <;> cases hfault

theorem not_fails_nested : ∀ e ∈ nestedEnumerators, ∀ f, ¬ Fails nested e f := by
  rintro e - f ⟨t, hasks, hrefuses⟩
  cases hasks with
  | name hname => exact not_refuses_nested hname f hrefuses
  | expression _ _ _ _ hroot =>
    obtain ⟨k, -, hk⟩ := Option.bind_eq_some_iff.1 hroot
    exact not_refuses_nested hk f hrefuses
  | single _ _ _ _ _ hfirst => exact not_refuses_nested hfirst f hrefuses

/-- The tokens `{ A , B }`, with facts about `B`. -/
def twoNames (facts : List Fact) : Configuration where
  tokens := #[nested.word "\x7b" 1, nested.name "A" 2, nested.word "," 3,
    { nested.name "B" 4 with facts := facts }, nested.word "\x7d" 5]

/-- The value of `B` is infinite. -/
def overflowing : Configuration :=
  twoNames [{ value := some (.real (.infinite false)), kind := some (.text "known") }]

theorem encloses_overflowing : Encloses overflowing 0 4 [⟨1, none⟩, ⟨3, none⟩] [1, 2, 3] := by
  have hname : ∀ k ∈ [1, 3], Enumerator.IsWellFormed overflowing ⟨k, none⟩ := by
    simp only [List.forall_mem_cons]
    exact ⟨⟨⟨_, rfl, rfl⟩, nofun, nofun⟩, ⟨⟨_, rfl, rfl⟩, nofun, nofun⟩, by simp⟩
  refine ⟨.listed ?_, ?_, ⟨_, rfl, rfl⟩, by decide⟩
  · exact .cons (hname 1 (by simp)) ⟨_, rfl, rfl⟩ (.last (hname 3 (by simp)))
  · simp [Configuration.Follows, Configuration.token?, overflowing, twoNames, nested.word,
      nested.name]

theorem fails_overflowing : Fails overflowing ⟨3, none⟩ .infiniteInteger :=
  ⟨_, .name rfl, Token.knownInteger_eq_error_iff.1 rfl⟩

theorem not_fails_overflowing (f : Fault) : ¬ Fails overflowing ⟨1, none⟩ f := by
  rintro ⟨t, hasks, hrefuses⟩
  cases hasks with
  | name hname =>
    obtain rfl := Option.some.inj hname
    cases hrefuses.knownInteger_eq
  | expression _ _ hi => cases hi
  | single _ _ hi => cases hi

end EnumBody

/-- An expression without a value, a constant that counts on from it, a number, and a constant that
counts on from the number; the names and the comma in the brackets declare nothing.  In the other
body the second name refuses. -/
theorem Scope.constants_of_encloses_nested :
    let s : Scope := { bodyStart := some 0, bodyEnd := some 18 }
    let s' : Scope := { bodyStart := some 0, bodyEnd := some 4 }
    EnumBody.Encloses EnumBody.nested 0 18 EnumBody.nestedEnumerators
        [1, 2, 3, 4, 5, 6, 7, 8, 9, 10, 11, 12, 13, 14, 15, 16, 17] ∧
      (∀ e ∈ EnumBody.nestedEnumerators, ∀ f, ¬ EnumBody.Fails EnumBody.nested e f) ∧
      s.constants EnumBody.nested = .ok [none, none, some 7, some 8] ∧
      EnumBody.Takes EnumBody.nested (some 7) ⟨16, none⟩ (some 8) ∧
      EnumBody.Encloses EnumBody.overflowing 0 4 [⟨1, none⟩, ⟨3, none⟩] [1, 2, 3] ∧
      EnumBody.Fails EnumBody.overflowing ⟨3, none⟩ .infiniteInteger ∧
      s'.constants EnumBody.overflowing = .error .infiniteInteger := by
  intro s s'
  have hvalues : s.constants EnumBody.nested = .ok [none, none, some 7, some 8] := rfl
  obtain ⟨hconstants, -⟩ := Scope.constants_of_encloses (s := s) rfl rfl EnumBody.encloses_nested
  obtain ⟨values, heq, -, htakes⟩ := hconstants EnumBody.not_fails_nested
  obtain rfl := Except.ok.inj (heq.symm.trans hvalues)
  obtain ⟨v, hv, hlast⟩ := htakes 3 ⟨16, none⟩ rfl
  obtain rfl := Option.some.inj hv
  obtain ⟨-, hfault⟩ :=
    Scope.constants_of_encloses (s := s') rfl rfl EnumBody.encloses_overflowing
  refine ⟨EnumBody.encloses_nested, EnumBody.not_fails_nested, hvalues, hlast,
    EnumBody.encloses_overflowing, EnumBody.fails_overflowing, ?_⟩
  exact hfault [⟨1, none⟩] _ [] _ rfl (by simpa using EnumBody.not_fails_overflowing)
    EnumBody.fails_overflowing

/-- **An infinite value is not passed over.**  The second name of the body has no known integer, so
by the rules of C it is one more than the first, and without its only fact it is.  But the infinity
is a fault, and no constant is declared. -/
theorem Scope.constants_overflowing :
    let s : Scope := { bodyStart := some 0, bodyEnd := some 4 }
    EnumBody.Encloses EnumBody.overflowing 0 4 [⟨1, none⟩, ⟨3, none⟩] [1, 2, 3] ∧
      (∀ t, EnumBody.overflowing.token? 3 = some t → ∀ n, ¬ t.Knows (some n)) ∧
      s.constants EnumBody.overflowing = .error .infiniteInteger ∧
      s.constants (EnumBody.twoNames []) = .ok [some 0, some 1] := by
  intro s
  refine ⟨EnumBody.encloses_overflowing, ?_, rfl, rfl⟩
  rintro t ht n hknows
  obtain rfl := Option.some.inj ht
  cases hknows.knownInteger_eq

end DeadCast
