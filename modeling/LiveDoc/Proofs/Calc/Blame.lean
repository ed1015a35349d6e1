import LiveDoc.Proofs.Calc.Shifting

namespace LiveDoc.Calc

-- A reader of tokens: what it makes of them and the tokens that it leaves.
abbrev Reading (α : Type) := List Located → Except SyntaxError (α × List Located)

-- A reading that fails at a token with nothing behind it.
def FailsAt {α : Type} (place : Place) (t : Located) (result : Except SyntaxError α) : Prop :=
  ∃ fault, result = .error (place.error [t] fault)

-- What a reader makes of its tokens depends on those that it takes and on the next one, which is the
-- one at fault if it fails. A single `=` is a token that no expression takes: put behind what has been
-- taken, it is left or it is at fault.
inductive Peeks {α : Type} (place : Place) (read : Reading α) (input : List Located) : Prop
  | takes (taken rest : List Located) (a : α) : input = taken ++ rest →
      (∀ other, other.head? = rest.head? → read (taken ++ other) = .ok (a, other)) →
      (∀ t, isAssign t = true → read (taken ++ [t]) = .ok (a, [t]) ∨
        FailsAt place t (read (taken ++ [t]))) →
      Peeks place read input
  | fails (taken rest : List Located) (fault : Fault) : input = taken ++ rest →
      (∀ other, other.head? = rest.head? →
        read (taken ++ other) = .error (place.error other fault)) →
      (∀ t, isAssign t = true → FailsAt place t (read (taken ++ [t]))) →
      Peeks place read input

section Peeks

variable {α β : Type} {place : Place} {input : List Located} {read : Reading α}

theorem head?_append_congr {other rest : List Located} (taken : List Located)
    (h : other.head? = rest.head?) : (taken ++ other).head? = (taken ++ rest).head? := by
  rw [List.head?_append, List.head?_append, h]

theorem FailsAt.bind {t : Located} {result : Except SyntaxError α} (h : FailsAt place t result)
    (g : α → Except SyntaxError β) : FailsAt place t (result >>= g) := by
  obtain ⟨fault, rfl⟩ := h
  exact ⟨fault, rfl⟩

theorem peeks_ok (a : α) (h : ∀ other, other.head? = input.head? → read other = .ok (a, other))
    (hassign : ∀ t, isAssign t = true → read [t] = .ok (a, [t]) ∨ FailsAt place t (read [t])) :
    Peeks place read input := .takes [] input a rfl h hassign

theorem peeks_error (fault : Fault)
    (h : ∀ other, other.head? = input.head? → read other = .error (place.error other fault))
    (hassign : ∀ t, isAssign t = true → FailsAt place t (read [t])) :
    Peeks place read input := .fails [] input fault rfl h hassign

-- A reader may be exchanged for one that does the same where the first token is the same, and where it
-- is a `=`.
theorem Peeks.congr {other : Reading α} (h : Peeks place other input)
    (hsame : ∀ x, x.head? = input.head? → read x = other x)
    (hassign : ∀ t, isAssign t = true → read [t] = other [t]) : Peeks place read input := by
  have hlast : ∀ taken rest : List Located, input = taken ++ rest → ∀ t, isAssign t = true →
      read (taken ++ [t]) = other (taken ++ [t]) := by
    rintro (- | ⟨first, taken⟩) rest rfl t ht
    · exact hassign t ht
    · exact hsame _ rfl
  cases h with
  | takes taken rest a hinput hrest hstop =>
      refine .takes taken rest a hinput (fun x hx => ?_) fun t ht => ?_
      · rw [hsame _ (hinput ▸ head?_append_congr taken hx), hrest x hx]
      · rw [hlast taken rest hinput t ht]
        exact hstop t ht
  | fails taken rest fault hinput hrest hstop =>
      refine .fails taken rest fault hinput (fun x hx => ?_) fun t ht => ?_
      · rw [hsame _ (hinput ▸ head?_append_congr taken hx), hrest x hx]
      · rw [hlast taken rest hinput t ht]
        exact hstop t ht

-- A token that a reader takes without looking further.
theorem Peeks.cons {t : Located} {more : List Located} {g : Reading α}
    (h : Peeks place g more) (hg : ∀ x, read (t :: x) = g x) :
    Peeks place read (t :: more) := by
  cases h with
  | takes taken rest a hinput hrest hstop =>
      refine .takes (t :: taken) rest a (congrArg (t :: ·) hinput) (fun x hx => ?_) fun own ht => ?_
      · exact (hg _).trans (hrest x hx)
      · rw [List.cons_append, hg]
        exact hstop own ht
  | fails taken rest fault hinput hrest hstop =>
      refine .fails (t :: taken) rest fault (congrArg (t :: ·) hinput) (fun x hx => ?_)
        fun own ht => ?_
      · exact (hg _).trans (hrest x hx)
      · rw [List.cons_append, hg]
        exact hstop own ht

theorem Peeks.bind {g : α → Reading β} (h : Peeks place read input)
    (hg : ∀ a rest, read input = .ok (a, rest) → Peeks place (g a) rest) :
    Peeks place (fun x => read x >>= fun p => g p.1 p.2) input := by
  cases h with
  | fails taken rest fault hinput hrest hstop =>
      refine .fails taken rest fault hinput (fun x hx => ?_) fun t ht => (hstop t ht).bind _
      rw [hrest x hx]
      rfl
  | takes taken rest a hinput hrest hstop =>
      have hlater := hg a rest (by rw [hinput, hrest rest rfl])
      -- What the second reader takes starts as what the first one leaves.
      have hpassed : ∀ more back : List Located, rest = more ++ back → ∀ x,
          x.head? = back.head? → read (taken ++ (more ++ x)) = .ok (a, more ++ x) :=
        fun more back hmore x hx => hrest _ (hmore ▸ head?_append_congr more hx)
      have hended : ∀ more back : List Located, rest = more ++ back → ∀ t, isAssign t = true →
          read (taken ++ (more ++ [t])) = .ok (a, more ++ [t]) ∨
            FailsAt place t (read (taken ++ (more ++ [t]))) := by
        rintro (- | ⟨first, more⟩) back rfl t ht
        · exact hstop t ht
        · exact .inl (hrest _ rfl)
      cases hlater with
      | takes more back b hmore hback hlast =>
          refine .takes (taken ++ more) back b (by rw [hinput, hmore, List.append_assoc])
            (fun x hx => ?_) fun t ht => ?_
          · rw [List.append_assoc, hpassed more back hmore x hx]
            exact hback x hx
          · rw [List.append_assoc]
            rcases hended more back hmore t ht with hok | hfailed
            · rw [hok]
              exact hlast t ht
            · exact .inr (hfailed.bind _)
      | fails more back fault hmore hback hlast =>
          refine .fails (taken ++ more) back fault (by rw [hinput, hmore, List.append_assoc])
            (fun x hx => ?_) fun t ht => ?_
          · rw [List.append_assoc, hpassed more back hmore x hx]
            exact hback x hx
          · rw [List.append_assoc]
            rcases hended more back hmore t ht with hok | hfailed
            · rw [hok]
              exact hlast t ht
            · exact hfailed.bind _

theorem Peeks.map (f : α → β) (h : Peeks place read input) :
    Peeks place (fun x => read x >>= fun p => .ok (f p.1, p.2)) input :=
  h.bind (g := fun a rest => .ok (f a, rest)) fun a _ _ =>
    peeks_ok (f a) (fun _ _ => rfl) fun _ _ => .inl rfl

end Peeks

-- A reading without the proof that it has taken a token.
def Parsed.outcome {α : Type} {input : List Located} (result : Result α input) :
    Except SyntaxError (α × List Located) := result.map fun p => (p.tree, p.rest)

def ReaderPeeks (place : Place) (reader : ExprParser) : Prop :=
  ∀ input, Peeks place (fun x => Parsed.outcome (reader x)) input

section Readers

variable {α β : Type} {place : Place} {input : List Located}

theorem length_lt_of_outcome {result : Result α input} {a : α} {rest : List Located}
    (h : Parsed.outcome result = .ok (a, rest)) : rest.length < input.length := by
  cases result with
  | error error => cases h
  | ok parsed =>
      cases h
      exact parsed.shorter

-- A `=` that stands last is no operator, no sign, no literal, no name and no parenthesis.
theorem eq_of_isAssign {t : Located} (h : isAssign t = true) : t.token = .symbol .assign := by
  obtain ⟨token, range⟩ := t
  cases token with
  | symbol symbol => cases symbol <;> first | rfl | exact nomatch (show false = true from h)
  | _ => cases h

theorem peeks_chain {operand : Nat → ExprParser} (hoperand : ∀ level, ReaderPeeks place (operand level))
    (level : Nat) (left : Expr) (input : List Located) :
    Peeks place (fun x => (chain operand level left x).map fun p => (p.1, p.2.1)) input := by
  have hstay : ∀ t, isAssign t = true →
      (chain operand level left [t]).map (fun p => (p.1, p.2.1)) = .ok (left, [t]) := by
    intro t ht
    obtain ⟨token, range⟩ := t
    cases eq_of_isAssign ht
    rw [chain]
    rfl
  cases hinput : input with
  | nil =>
      refine peeks_ok left (fun other hother => ?_) fun t ht => .inl (hstay t ht)
      rw [List.head?_nil, List.head?_eq_none_iff] at hother
      rw [hother, chain]
      rfl
  | cons t more =>
      by_cases hgo : ∃ symbol op own, t.token = .symbol symbol ∧
          symbol.binary? = some (op, own) ∧ level ≤ own
      · obtain ⟨symbol, op, own, htoken, hbinary, hlevel⟩ := hgo
        refine Peeks.cons (g := fun x => Parsed.outcome (operand (own + 1) x) >>= fun p =>
          (chain operand level (.binary op left p.1) p.2).map fun p => (p.1, p.2.1)) ?_ fun x => ?_
        · refine Peeks.bind (g := fun right rest =>
            (chain operand level (.binary op left right) rest).map fun p => (p.1, p.2.1))
            (hoperand (own + 1) more) fun right rest hright => ?_
          have := length_lt_of_outcome hright
          exact peeks_chain hoperand level (.binary op left right) rest
        · rw [chain]
          simp only [htoken, hbinary, Nat.not_lt.mpr hlevel, if_false]
          cases operand (own + 1) x with
          | error error => rfl
          | ok right =>
              simp only [Parsed.outcome, bind, Except.bind, Except.map]
              cases chain operand level (.binary op left right.tree) right.rest <;> rfl
      · refine peeks_ok left (fun other hother => ?_) fun t ht => .inl (hstay t ht)
        obtain ⟨rest, rfl⟩ : ∃ rest, other = t :: rest := by
          cases other with
          | nil => cases hother
          | cons u rest =>
              cases hother
              exact ⟨rest, rfl⟩
        rw [chain]
        split
        · rename_i symbol htoken
          split
          · rfl
          · rename_i op own hbinary
            rw [if_pos (Nat.not_le.mp fun hle => hgo ⟨symbol, op, own, htoken, hbinary, hle⟩)]
            rfl
        · rfl
termination_by input.length

-- Whether a symbol comes next is told by the next token.
theorem ne_cons_of_head? {symbol : Symbol} {other : List Located} (h : other.head? = input.head?)
    (hinput : ∀ r rest, input ≠ ⟨.symbol symbol, r⟩ :: rest) (r : ByteRange) (rest : List Located) :
    other ≠ ⟨.symbol symbol, r⟩ :: rest := by
  rintro rfl
  cases input with
  | nil => cases h
  | cons t more =>
      cases h
      exact hinput _ _ rfl

theorem ne_cons_of_isAssign {symbol : Symbol} (hne : symbol ≠ .assign) {t : Located}
    (ht : isAssign t = true) (r : ByteRange) (rest : List Located) :
    [t] ≠ ⟨.symbol symbol, r⟩ :: rest := by
  intro h
  obtain ⟨rfl, -⟩ := List.cons.inj h
  cases eq_of_isAssign ht
  exact hne rfl

variable {inner : ExprParser}

-- What follows an argument of a call.
def afterArgument (place : Place) (inner : ExprParser) (first : Expr) : Reading (List Expr)
  | ⟨.symbol .comma, _⟩ :: more =>
      Parsed.outcome (arguments place inner more) >>= fun p => .ok (first :: p.1, p.2)
  | ⟨.symbol .close, _⟩ :: more => .ok ([first], more)
  | rest => .error (place.error rest .badArguments)

theorem outcome_arguments (place : Place) (inner : ExprParser) (input : List Located) :
    Parsed.outcome (arguments place inner input) =
      Parsed.outcome (inner input) >>= fun p => afterArgument place inner p.1 p.2 := by
  rw [arguments.eq_def]
  cases inner input with
  | error error => rfl
  | ok first =>
      obtain ⟨tree, rest, hshorter⟩ := first
      cases rest with
      | nil => rfl
      | cons t more =>
          obtain ⟨token, range⟩ := t
          cases token with
          | number _ | text _ | bool _ | name _ => rfl
          | symbol symbol =>
              cases symbol with
              | comma =>
                  simp only [Parsed.outcome, bind, Except.bind, Except.map, afterArgument]
                  cases arguments place inner more <;> rfl
              | _ => rfl

theorem peeks_arguments (hinner : ReaderPeeks place inner) (input : List Located) :
    Peeks place (fun x => Parsed.outcome (arguments place inner x)) input := by
  simp only [outcome_arguments]
  refine (hinner input).bind fun first rest hfirst => ?_
  have hshorter := length_lt_of_outcome hfirst
  rcases starts_or_not .comma rest with ⟨r, more, rfl⟩ | hcomma
  · have : more.length < input.length := by
      simp only [List.length_cons] at hshorter
      omega
    exact Peeks.cons ((peeks_arguments hinner more).map (first :: ·)) fun _ => rfl
  rcases starts_or_not .close rest with ⟨r, more, rfl⟩ | hclose
  · exact Peeks.cons (g := fun x => .ok ([first], x))
      (peeks_ok _ (fun _ _ => rfl) fun _ _ => .inl rfl) fun _ => rfl
  have herror : ∀ x, (∀ r more, x ≠ ⟨.symbol .comma, r⟩ :: more) →
      (∀ r more, x ≠ ⟨.symbol .close, r⟩ :: more) →
      afterArgument place inner first x = .error (place.error x .badArguments) := by
    intro x hcomma hclose
    unfold afterArgument
    split
    · exact (hcomma _ _ rfl).elim
    · exact (hclose _ _ rfl).elim
    · rfl
  refine peeks_error .badArguments (fun x hx => ?_) fun t ht => ⟨.badArguments, ?_⟩
  · exact herror x (ne_cons_of_head? hx hcomma) (ne_cons_of_head? hx hclose)
  · exact herror [t] (ne_cons_of_isAssign (by decide) ht) (ne_cons_of_isAssign (by decide) ht)
termination_by input.length

-- What follows the expression of a group.
def afterGroup (place : Place) (body : Expr) : Reading Expr
  | ⟨.symbol .close, _⟩ :: more => .ok (body, more)
  | rest => .error (place.error rest .missingClose)

theorem peeks_afterGroup (body : Expr) (rest : List Located) :
    Peeks place (afterGroup place body) rest := by
  rcases starts_or_not .close rest with ⟨r, more, rfl⟩ | hclose
  · exact Peeks.cons (g := fun x => .ok (body, x))
      (peeks_ok _ (fun _ _ => rfl) fun _ _ => .inl rfl) fun _ => rfl
  have herror : ∀ x, (∀ r more, x ≠ ⟨.symbol .close, r⟩ :: more) →
      afterGroup place body x = .error (place.error x .missingClose) := by
    intro x hclose
    unfold afterGroup
    split
    · exact (hclose _ _ rfl).elim
    · rfl
  exact peeks_error .missingClose (fun x hx => herror x (ne_cons_of_head? hx hclose))
    fun t ht => ⟨.missingClose, herror [t] (ne_cons_of_isAssign (by decide) ht)⟩

theorem peeks_group (hinner : ReaderPeeks place inner) (range : ByteRange) (more : List Located) :
    Peeks place (fun x => Parsed.outcome (primary place inner (⟨.symbol .open, range⟩ :: x))) more := by
  rcases starts_or_not .close more with ⟨r, rest, rfl⟩ | hclose
  · exact Peeks.cons (g := fun x => .ok (.unit, x))
      (peeks_ok _ (fun _ _ => rfl) fun _ _ => .inl rfl) fun _ => rfl
  have hown : ∀ x, (∀ r rest, x ≠ ⟨.symbol .close, r⟩ :: rest) →
      Parsed.outcome (primary place inner (⟨.symbol .open, range⟩ :: x)) =
        Parsed.outcome (inner x) >>= fun p => afterGroup place p.1 p.2 := by
    intro x hx
    obtain ⟨hshorter, hprimary⟩ := primary_group place inner range hx
    rw [hprimary]
    cases inner x with
    | error error => rfl
    | ok body =>
        obtain ⟨tree, rest, hbody⟩ := body
        cases rest with
        | nil => rfl
        | cons t rest =>
            obtain ⟨token, own⟩ := t
            cases token with
            | number _ | text _ | bool _ | name _ => rfl
            | symbol symbol => cases symbol <;> rfl
  exact Peeks.congr ((hinner more).bind fun body rest _ => peeks_afterGroup body rest)
    (fun x hx => hown x (ne_cons_of_head? hx hclose))
    fun t ht => hown [t] (ne_cons_of_isAssign (by decide) ht)

theorem peeks_name (hinner : ReaderPeeks place inner) (name : String) (range : ByteRange)
    (more : List Located) :
    Peeks place (fun x => Parsed.outcome (primary place inner (⟨.name name, range⟩ :: x))) more := by
  rcases starts_or_not .open more with ⟨r, rest, rfl⟩ | hopen
  · refine Peeks.cons (g := fun x => Parsed.outcome
      (primary place inner (⟨.name name, range⟩ :: ⟨.symbol .open, r⟩ :: x))) ?_ fun _ => rfl
    rcases starts_or_not .close rest with ⟨r', rest, rfl⟩ | hclose
    · exact Peeks.cons (g := fun x => .ok (.call name range [], x))
        (peeks_ok _ (fun _ _ => rfl) fun _ _ => .inl rfl) fun _ => rfl
    have hown : ∀ x, (∀ r rest, x ≠ ⟨.symbol .close, r⟩ :: rest) →
        Parsed.outcome (primary place inner (⟨.name name, range⟩ :: ⟨.symbol .open, r⟩ :: x)) =
          Parsed.outcome (arguments place inner x) >>= fun p => .ok (.call name range p.1, p.2) := by
      intro x hx
      obtain ⟨hshorter, hprimary⟩ := primary_call place inner name range r hx
      rw [hprimary]
      cases arguments place inner x <;> rfl
    exact Peeks.congr ((peeks_arguments hinner rest).map (.call name range))
      (fun x hx => hown x (ne_cons_of_head? hx hclose))
      fun t ht => hown [t] (ne_cons_of_isAssign (by decide) ht)
  · have hown : ∀ x, (∀ r rest, x ≠ ⟨.symbol .open, r⟩ :: rest) →
        Parsed.outcome (primary place inner (⟨.name name, range⟩ :: x)) =
          .ok (.var name range, x) := by
      intro x hx
      obtain ⟨hshorter, hprimary⟩ := primary_var place inner name range hx
      rw [hprimary]
      rfl
    exact peeks_ok (.var name range) (fun x hx => hown x (ne_cons_of_head? hx hopen))
      fun t ht => .inl (hown [t] (ne_cons_of_isAssign (by decide) ht))

theorem failsAt_primary {t : Located} (ht : isAssign t = true) :
    FailsAt place t (Parsed.outcome (primary place inner [t])) := by
  obtain ⟨token, range⟩ := t
  cases eq_of_isAssign ht
  exact ⟨.unexpectedSymbol .assign, rfl⟩

-- The tokens that start with a given one.
theorem exists_cons_of_head? {t : Located} {x more : List Located}
    (h : x.head? = (t :: more).head?) : ∃ rest, x = t :: rest := by
  cases x with
  | nil => cases h
  | cons u rest =>
      cases h
      exact ⟨rest, rfl⟩

theorem peeks_primary (hinner : ReaderPeeks place inner) :
    ReaderPeeks place (primary place inner) := by
  intro input
  match input with
  | [] =>
      refine peeks_error .unexpectedEnd (fun x hx => ?_) fun t ht => failsAt_primary ht
      cases x with
      | nil => rfl
      | cons u rest => cases hx
  | ⟨.number value, range⟩ :: more =>
      exact Peeks.cons (g := fun x => .ok (.number value, x))
        (peeks_ok _ (fun _ _ => rfl) fun _ _ => .inl rfl) fun _ => rfl
  | ⟨.text value, range⟩ :: more =>
      exact Peeks.cons (g := fun x => .ok (.text value, x))
        (peeks_ok _ (fun _ _ => rfl) fun _ _ => .inl rfl) fun _ => rfl
  | ⟨.bool value, range⟩ :: more =>
      exact Peeks.cons (g := fun x => .ok (.bool value, x))
        (peeks_ok _ (fun _ _ => rfl) fun _ _ => .inl rfl) fun _ => rfl
  | ⟨.name name, range⟩ :: more => exact Peeks.cons (peeks_name hinner name range more) fun _ => rfl
  | ⟨.symbol symbol, range⟩ :: more =>
      by_cases hopen : symbol = .open
      · subst hopen
        exact Peeks.cons (peeks_group hinner range more) fun _ => rfl
      · refine peeks_error (.unexpectedSymbol symbol) (fun x hx => ?_) fun t ht => failsAt_primary ht
        obtain ⟨rest, rfl⟩ := exists_cons_of_head? hx
        cases symbol <;> first | rfl | exact (hopen rfl).elim

variable {below : Readers}

theorem peeks_operand (hoperand : ReaderPeeks place below.operand)
    (hexpression : ReaderPeeks place (below.expression 0)) :
    ReaderPeeks place (operand place below) := by
  intro input
  by_cases hsign : ∃ symbol op range more, input = ⟨.symbol symbol, range⟩ :: more ∧
      symbol.unary? = some op
  · obtain ⟨symbol, op, range, more, rfl, hop⟩ := hsign
    refine Peeks.cons ((hoperand more).map (.unary op)) fun x => ?_
    simp only [operand, hop, Parsed.outcome, bind, Except.bind, Except.map]
    cases below.operand x <;> rfl
  · have hown : ∀ x, (∀ symbol op range more, x = ⟨.symbol symbol, range⟩ :: more →
        symbol.unary? ≠ some op) →
        operand place below x = primary place (below.expression 0) x := by
      intro x hx
      unfold operand
      split
      · rfl
      · rename_i t more
        split
        · rename_i symbol htoken
          split
          · rename_i op hop
            obtain ⟨token, range⟩ := t
            cases htoken
            exact (hx symbol op range more rfl hop).elim
          · rfl
        · rfl
    refine Peeks.congr (peeks_primary hexpression input) (fun x hx => ?_) fun t ht => ?_
    · refine congrArg Parsed.outcome (hown x fun symbol op range more hstart hop => ?_)
      subst hstart
      obtain ⟨rest, hinput⟩ := exists_cons_of_head? hx.symm
      exact hsign ⟨symbol, op, range, rest, hinput, hop⟩
    · refine congrArg Parsed.outcome (hown [t] fun symbol op range more hstart hop => ?_)
      obtain ⟨rfl, -⟩ := List.cons.inj hstart
      cases eq_of_isAssign ht
      cases hop

-- An expression ends where no `=` follows.
def afterExpression (place : Place) (tree : Expr) (rest : List Located) :
    Except SyntaxError (Expr × List Located) :=
  if rest.head?.any isAssign then .error (place.error rest .misplacedAssign) else .ok (tree, rest)

theorem peeks_afterExpression (tree : Expr) (rest : List Located) :
    Peeks place (afterExpression place tree) rest := by
  have hassign : ∀ t, isAssign t = true →
      FailsAt place t (afterExpression place tree [t]) := fun t ht => ⟨.misplacedAssign, if_pos ht⟩
  by_cases h : rest.head?.any isAssign = true
  · refine peeks_error .misplacedAssign (fun x hx => ?_) hassign
    rw [afterExpression, if_pos (hx ▸ h)]
  · refine peeks_ok tree (fun x hx => ?_) fun t ht => .inr (hassign t ht)
    rw [afterExpression, if_neg (hx ▸ h)]

theorem peeks_expression (hoperand : ReaderPeeks place below.operand)
    (hexpression : ∀ level, ReaderPeeks place (below.expression level)) (level : Nat) :
    ReaderPeeks place (expression place below level) := by
  intro input
  have hown : ∀ x, Parsed.outcome (expression place below level x) =
      Parsed.outcome (operand place below x) >>= fun p =>
        (chain below.expression level p.1 p.2).map (fun q => (q.1, q.2.1)) >>= fun q =>
          afterExpression place q.1 q.2 := by
    intro x
    unfold expression
    cases operand place below x with
    | error error => rfl
    | ok first =>
        simp only [Parsed.outcome, bind, Except.bind, Except.map, afterExpression]
        cases chain below.expression level first.tree first.rest with
        | error error => rfl
        | ok pair => by_cases hassign : pair.2.1.head?.any isAssign = true <;> simp [hassign]
  simp only [hown]
  refine Peeks.bind (g := fun tree rest => (chain below.expression level tree rest).map
    (fun q => (q.1, q.2.1)) >>= fun q => afterExpression place q.1 q.2)
    (peeks_operand hoperand (hexpression 0) input) fun first rest _ => ?_
  exact (peeks_chain hexpression level first rest).bind fun tree rest _ =>
    peeks_afterExpression tree rest

theorem peeks_readers (place : Place) (budget : Nat) :
    ReaderPeeks place (readers place budget).operand ∧
      ∀ level, ReaderPeeks place ((readers place budget).expression level) := by
  induction budget with
  | zero =>
      have hdeep : ReaderPeeks place (Readers.tooDeep place).operand := fun input =>
        peeks_error .tooDeep (fun _ _ => rfl) fun _ _ => ⟨.tooDeep, rfl⟩
      exact ⟨hdeep, fun _ => hdeep⟩
  | succ budget ih => exact ⟨peeks_operand ih.1 (ih.2 0), peeks_expression ih.1 ih.2⟩

end Readers

-- The tokens before the place of an error are not to blame, since a `=` behind them would be, and
-- neither are those behind the next one, since with others the error is the same. The error is at this
-- next token, and at the whole text if there is none.
structure Blames (place : Place) (read : List Located → Except SyntaxError Expr)
    (taken rest : List Located) (error : SyntaxError) : Prop where
  line : error.line = place.line
  range : error.range = (rest.head?.map (·.range)).getD place.whole
  next : ∀ other, other.head? = rest.head? → read (taken ++ other) = .error error
  before : ∀ t, isAssign t = true →
    ∃ fault, read (taken ++ [t]) = .error ⟨fault, t.range, place.line⟩

section Whole

variable {place : Place} {trailing : Fault} {input : List Located} {error : SyntaxError}

theorem place_error_eq (rest : List Located) (fault : Fault) :
    place.error rest fault = ⟨fault, (rest.head?.map (·.range)).getD place.whole, place.line⟩ := by
  cases rest <;> rfl

theorem peeks_whole (place : Place) (trailing : Fault) (input : List Located) :
    Peeks place (fun x => (whole place trailing x).map fun tree => (tree, [])) input := by
  have hown : ∀ x, (whole place trailing x).map (fun tree => (tree, [])) =
      Parsed.outcome ((readers place maxNesting).expression 0 x) >>= fun p =>
        if p.2 = [] then .ok (p.1, p.2) else .error (place.error p.2 trailing) := by
    intro x
    unfold whole
    cases (readers place maxNesting).expression 0 x with
    | error error => rfl
    | ok parsed =>
        simp only [Parsed.outcome, bind, Except.bind, Except.map]
        by_cases hrest : parsed.rest = [] <;> simp [hrest]
  simp only [hown]
  refine ((peeks_readers place maxNesting).2 0 input).bind
    (g := fun tree rest => if rest = [] then .ok (tree, rest) else .error (place.error rest trailing))
    fun tree rest _ => ?_
  have hassign : ∀ t : Located, isAssign t = true → FailsAt place t
      (if [t] = [] then .ok (tree, [t]) else .error (place.error [t] trailing)) :=
    fun t _ => ⟨trailing, if_neg (List.cons_ne_nil t [])⟩
  cases rest with
  | nil =>
      refine peeks_ok tree (fun x hx => ?_) fun t ht => .inr (hassign t ht)
      rw [List.head?_eq_none_iff.mp hx, if_pos rfl]
  | cons t more =>
      refine peeks_error trailing (fun x hx => ?_) hassign
      obtain ⟨rest, rfl⟩ := exists_cons_of_head? hx
      exact if_neg (List.cons_ne_nil t rest)

-- A reading of all tokens fails at the first one that is to blame, or at the end.
theorem exists_blames (h : whole place trailing input = .error error) :
    ∃ taken rest, input = taken ++ rest ∧ Blames place (whole place trailing) taken rest error := by
  have hread : ∀ {x : List Located} {own : SyntaxError},
      (whole place trailing x).map (fun tree => (tree, ([] : List Located))) = .error own →
        whole place trailing x = .error own := by
    intro x own hx
    cases hwhole : whole place trailing x with
    | ok tree =>
        rw [hwhole] at hx
        cases hx
    | error other =>
        rw [hwhole] at hx
        cases hx
        rfl
  cases peeks_whole place trailing input with
  | takes taken rest a hinput hrest hstop =>
      have hown := hrest rest rfl
      rw [← hinput, h] at hown
      cases hown
  | fails taken rest fault hinput hrest hstop =>
      have hown := hrest rest rfl
      rw [← hinput, h] at hown
      obtain rfl : error = place.error rest fault := by
        cases hown
        rfl
      refine ⟨taken, rest, hinput, ?_, ?_, fun other hother => ?_, fun t ht => ?_⟩
      · rw [place_error_eq]
      · rw [place_error_eq]
      · rw [hread (hrest other hother), place_error_eq, place_error_eq, hother]
      · obtain ⟨own, hfailed⟩ := hstop t ht
        exact ⟨own, hread hfailed⟩

end Whole

end LiveDoc.Calc
