import LiveDoc.Proofs.Calc.Blame
import LiveDoc.Proofs.Calc.Lookup
import LiveDoc.Proofs.Calc.Unambiguous
import LiveDoc.Proofs.Source.Validity

namespace LiveDoc.Calc

open Text

-- A token stands in a text that starts at `offset`. A name is what stands at its place.
def Located.In (t : Located) (offset : Nat) (text : List Char) : Prop :=
  ∃ inside, t.range.Holds offset text inside ∧ ∀ name, t.token = .name name → inside = name.toList

section Tokens

variable {line offset count : Nat} {text front rest : List Char} {c : Char} {token : Token}

theorem Located.In.behind {t : Located} (front : List Char)
    (h : t.In (offset + byteCount front) text) : t.In offset (front ++ text) := by
  obtain ⟨inside, hrange, hname⟩ := h
  exact ⟨inside, hrange.behind front, hname⟩

theorem eitherSymbol_ne_error {second : Char} {long short : Symbol} {misread : Misread} :
    eitherSymbol second long short rest ≠ .error misread := by
  unfold eitherSymbol
  split <;> exact fun h => by cases h

-- A character that starts no symbol is misread alone.
theorem width_of_symbolLexeme {misread : Misread} (h : symbolLexeme c rest = .error misread) :
    misread.width = c.utf8Size := by
  have hdoubled : ∀ {d : Char} {symbol : Symbol}, d.utf8Size = 1 →
      doubledSymbol d symbol rest = .error misread → misread.width = d.utf8Size := by
    intro d symbol hsize hdoubled
    unfold doubledSymbol at hdoubled
    split at hdoubled
    · cases hdoubled
    · cases hdoubled
      exact hsize.symm
  unfold symbolLexeme at h
  split at h
  · exact (eitherSymbol_ne_error h).elim
  · exact (eitherSymbol_ne_error h).elim
  · exact (eitherSymbol_ne_error h).elim
  · exact (eitherSymbol_ne_error h).elim
  · exact hdoubled (by decide) h
  · exact hdoubled (by decide) h
  all_goals cases h
  rfl

-- A misread text covers whole characters.
theorem exists_of_lexeme_eq_error {misread : Misread} (h : lexeme c rest = .error misread) :
    ∃ inside after, c :: rest = inside ++ after ∧ misread.width = byteCount inside := by
  unfold lexeme at h
  split at h
  · split at h
    · cases h
    · cases h
      exact ⟨c :: rest, [], by simp, rfl⟩
  · split at h
    · dsimp only at h
      split at h
      · cases h
      · cases h
        exact ⟨c :: rest.takeWhile isNumberChar, rest.dropWhile isNumberChar,
          by rw [List.cons_append, List.takeWhile_append_dropWhile], rfl⟩
    · split at h
      · cases h
      · exact ⟨[c], rest, rfl, width_of_symbolLexeme h⟩

theorem symbolLexeme_ne_name {name : String} : symbolLexeme c rest ≠ .ok (.name name, count) := by
  unfold symbolLexeme eitherSymbol doubledSymbol
  intro h
  split at h <;> first | cases h | (split at h <;> cases h)

-- A name is spelled as it stands in the text.
theorem toList_of_lexeme {name : String} (h : lexeme c rest = .ok (.name name, count)) :
    c :: rest.take count = name.toList := by
  unfold lexeme at h
  split at h
  · split at h <;> cases h
  · split at h
    · dsimp only at h
      split at h <;> cases h
    · split at h
      · have hword : wordToken (c :: rest.takeWhile isNameChar) = .name name ∧
            (rest.takeWhile isNameChar).length = count := by
          simpa using h
        obtain ⟨hname, rfl⟩ := hword
        unfold wordToken at hname
        split at hname
        · cases hname
        · split at hname
          · cases hname
          · cases hname
            rw [String.toList_ofList, ← List.prefix_iff_eq_take.mp (List.takeWhile_prefix _)]
      · exact (symbolLexeme_ne_name h).elim

theorem tokens_in {located : List Located} (h : tokens line offset text = .ok located) :
    ∀ t ∈ located, t.In offset text := by
  fun_induction tokens line offset text generalizing located with
  | case1 offset =>
      cases h
      exact List.forall_mem_nil _
  | case2 offset c rest hblank ih =>
      exact fun t ht => (ih h t ht).behind [c]
  | case3 offset rest hblank =>
      cases h
      exact List.forall_mem_nil _
  | case4 offset c rest hblank hmark misread herror => cases h
  | case5 offset c rest hblank hmark token count hlexeme stop =>
      rename_i ih
      cases hmore : tokens line stop (rest.drop count) with
      | error error =>
          rw [hmore] at h
          cases h
      | ok more =>
          rw [hmore] at h
          cases h
          have hsplit : c :: rest = (c :: rest.take count) ++ rest.drop count := by
            rw [List.cons_append, List.take_append_drop]
          refine List.forall_mem_cons.mpr ⟨⟨c :: rest.take count, ?_, ?_⟩, fun t ht => ?_⟩
          · rw [hsplit]
            exact (holds_whole offset _).within _
          · rintro name rfl
            exact toList_of_lexeme hlexeme
          · rw [hsplit]
            exact (ih hmore t ht).behind _

theorem holds_of_tokens_eq_error {error : SyntaxError} (h : tokens line offset text = .error error) :
    ∃ inside, error.range.Holds offset text inside := by
  fun_induction tokens line offset text with
  | case1 offset => cases h
  | case2 offset c rest hblank ih =>
      obtain ⟨inside, hinside⟩ := ih h
      exact ⟨inside, hinside.behind [c]⟩
  | case3 offset rest hblank => cases h
  | case4 offset c rest hblank hmark misread hlexeme =>
      cases h
      obtain ⟨inside, after, hsplit, hwidth⟩ := exists_of_lexeme_eq_error hlexeme
      refine ⟨inside, ?_⟩
      rw [hsplit, hwidth]
      exact (holds_whole offset inside).within after
  | case5 offset c rest hblank hmark token count hlexeme stop ih =>
      cases hmore : tokens line stop (rest.drop count) with
      | ok more =>
          rw [hmore] at h
          cases h
      | error later =>
          rw [hmore] at h
          cases h
          obtain ⟨inside, hinside⟩ := ih hmore
          have hsplit : c :: rest = (c :: rest.take count) ++ rest.drop count := by
            rw [List.cons_append, List.take_append_drop]
          rw [hsplit]
          exact ⟨inside, hinside.behind _⟩

end Tokens

mutual

-- Every place where a variable is read.
def Expr.variables : Expr → List (String × ByteRange)
  | .var name place => [(name, place)]
  | .call _ _ arguments => Expr.variablesOf arguments
  | .unary _ operand => operand.variables
  | .binary _ left right => left.variables ++ right.variables
  | _ => []

def Expr.variablesOf : List Expr → List (String × ByteRange)
  | [] => []
  | e :: rest => e.variables ++ Expr.variablesOf rest

end

mutual

-- Every name in a tree with its place, in order: that of a variable or of a call.
def Expr.names : Expr → List (String × ByteRange)
  | .var name place => [(name, place)]
  | .call function place arguments => (function, place) :: Expr.namesOf arguments
  | .unary _ operand => operand.names
  | .binary _ left right => left.names ++ right.names
  | _ => []

def Expr.namesOf : List Expr → List (String × ByteRange)
  | [] => []
  | e :: rest => e.names ++ Expr.namesOf rest

end

mutual

-- The names of a tree, in order, are tokens that the tree is made of.
theorem Derives.names_sublist {level : Nat} {ts : List Located} {ds : List Nat} {e : Expr}
    (h : Derives level ts ds e) :
    (e.names.map fun own => ⟨.name own.1, own.2⟩ : List Located).Sublist ts := by
  match h with
  | .tighter _ h => exact h.names_sublist
  | .binary r _ hleft hright =>
      rw [Expr.names, List.map_append]
      exact hleft.names_sublist.append (hright.names_sublist.cons _)
  | .sign r _ h => exact h.names_sublist.cons _
  | .number _ _ | .text _ _ | .bool _ _ | .unit _ _ => exact List.nil_sublist _
  | .var name r => exact List.Sublist.refl _
  | .group r r' h => exact (h.names_sublist.trans (List.sublist_append_left _ _)).cons _
  | .call0 name r r' r'' => exact (List.nil_sublist _).cons_cons _
  | .call name r r' r'' h =>
      exact ((h.names_sublist.trans (List.sublist_append_left _ _)).cons _).cons_cons _

theorem DerivesList.names_sublist {ts : List Located} {ds : List Nat} {es : List Expr}
    (h : DerivesList ts ds es) :
    ((Expr.namesOf es).map fun own => ⟨.name own.1, own.2⟩ : List Located).Sublist ts := by
  match h with
  | .last h =>
      rw [Expr.namesOf, Expr.namesOf, List.append_nil]
      exact h.names_sublist
  | .more r h hmore =>
      rw [Expr.namesOf, List.map_append]
      exact h.names_sublist.append (hmore.names_sublist.cons _)

end

theorem Derives.name_mem {level : Nat} {ts : List Located} {ds : List Nat} {e : Expr}
    (h : Derives level ts ds e) {own : String × ByteRange} (hown : own ∈ e.names) :
    ⟨.name own.1, own.2⟩ ∈ ts :=
  h.names_sublist.subset (List.mem_map_of_mem hown)

mutual

theorem variables_sublist_names (e : Expr) : e.variables.Sublist e.names := by
  match e with
  | .var _ _ => exact List.Sublist.refl _
  | .call _ _ arguments => exact (variablesOf_sublist_namesOf arguments).cons _
  | .unary _ operand => exact variables_sublist_names operand
  | .binary _ left right =>
      exact (variables_sublist_names left).append (variables_sublist_names right)
  | .text _ | .number _ | .bool _ | .unit => exact List.nil_sublist _

theorem variablesOf_sublist_namesOf (es : List Expr) :
    (Expr.variablesOf es).Sublist (Expr.namesOf es) := by
  match es with
  | [] => exact List.nil_sublist _
  | e :: rest => exact (variables_sublist_names e).append (variablesOf_sublist_namesOf rest)

end

theorem mem_names_of_firstCall? {e : Expr} {own : String × ByteRange}
    (h : e.firstCall? = some own) : own ∈ e.names := by
  match e with
  | .call _ _ _ =>
      cases h
      exact List.mem_cons_self ..
  | .unary _ operand => exact mem_names_of_firstCall? (e := operand) h
  | .binary _ left right =>
      rcases Option.or_eq_some_iff.mp h with h | ⟨-, h⟩
      · exact List.mem_append_left _ (mem_names_of_firstCall? h)
      · exact List.mem_append_right _ (mem_names_of_firstCall? h)
  | .text _ | .number _ | .bool _ | .unit | .var _ _ => cases h

mutual

theorem mem_variables_of_firstRead? {name : String} {place : ByteRange} {e : Expr}
    (h : e.firstRead? name = some place) : (name, place) ∈ e.variables := by
  match e with
  | .var other own =>
      rw [Expr.firstRead?] at h
      split at h
      · subst other
        cases h
        exact List.mem_singleton_self _
      · cases h
  | .call _ _ arguments => exact mem_variablesOf_of_firstReadIn? h
  | .unary _ operand => exact mem_variables_of_firstRead? (e := operand) h
  | .binary _ left right =>
      rcases Option.or_eq_some_iff.mp h with h | ⟨-, h⟩
      · exact List.mem_append_left _ (mem_variables_of_firstRead? h)
      · exact List.mem_append_right _ (mem_variables_of_firstRead? h)
  | .text _ | .number _ | .bool _ | .unit => cases h

theorem mem_variablesOf_of_firstReadIn? {name : String} {place : ByteRange} {es : List Expr}
    (h : Expr.firstReadIn? name es = some place) : (name, place) ∈ Expr.variablesOf es := by
  match es with
  | [] => cases h
  | e :: rest =>
      rcases Option.or_eq_some_iff.mp h with h | ⟨-, h⟩
      · exact List.mem_append_left _ (mem_variables_of_firstRead? h)
      · exact List.mem_append_right _ (mem_variablesOf_of_firstReadIn? h)

end

section Unbound

variable {σ : Type} {calls : Calls σ} {session : Session} {name : String}

theorem never_atDepth {α : Type} {depth : Nat} {error : ScriptError} {m : Eval σ α}
    (herror : error ≠ .tooDeep) (hm : Never error m) : Never error (atDepth depth m) := by
  unfold atDepth
  split
  · intro s h
    cases h
    exact herror rfl
  · exact hm

mutual

-- A name that an expression does not read is none that its evaluation misses.
theorem never_evalAt
    (hcalls : ∀ function values, Never (.undefinedVariable name) (calls function values))
    (chained : Bool) (depth : Nat) {e : Expr} (h : e.firstRead? name = none) :
    Never (.undefinedVariable name) (evalAt calls session chained depth e) := by
  match e with
  | .binary op left right =>
      obtain ⟨hl, hr⟩ := Option.or_eq_none_iff.mp h
      have hvalue : Never (.undefinedVariable name) (do
          let l ← evalAt calls session true depth left
          match op.decided? l with
          | some v => pure v
          | none =>
              let r ← evalAt calls session false (depth + 1) right
              op.apply l r : Eval σ Value) := by
        apply never_bind (never_evalAt hcalls true depth hl)
        intro l
        split
        · exact never_pure _
        · exact never_bind (never_evalAt hcalls false (depth + 1) hr)
            fun r => never_lift ofValues_of_binary_apply
      unfold evalAt
      dsimp only
      split
      · exact hvalue
      · exact never_atDepth nofun hvalue
  | .unary op operand =>
      unfold evalAt
      exact never_atDepth nofun (never_bind (never_evalAt hcalls false _ h)
        fun v => never_lift ofValues_of_unary_apply)
  | .call function _ arguments =>
      unfold evalAt
      exact never_atDepth nofun (never_bind (never_evalList hcalls _ h)
        fun values => hcalls function values)
  | .number _ | .text _ | .bool _ | .unit =>
      unfold evalAt
      exact never_atDepth nofun (never_pure _)
  | .var other _ =>
      unfold evalAt
      refine never_atDepth nofun ?_
      split
      · exact never_pure _
      · intro s hs
        cases hs
        simp [Expr.firstRead?] at h

theorem never_evalList
    (hcalls : ∀ function values, Never (.undefinedVariable name) (calls function values))
    (depth : Nat) {es : List Expr} (h : Expr.firstReadIn? name es = none) :
    Never (.undefinedVariable name) (evalList calls session depth es) := by
  match es with
  | [] => exact never_pure []
  | e :: rest =>
      obtain ⟨he, hrest⟩ := Option.or_eq_none_iff.mp h
      unfold evalList
      exact never_bind (never_evalAt hcalls false depth he) fun value =>
        never_bind (never_evalList hcalls depth hrest) fun values => never_pure _

end

-- The name that a guard misses is one that it reads.
theorem exists_firstRead_of_evaluate {e : Expr}
    (h : ((evaluate noCalls session e).run ()).1 = .error (.undefinedVariable name)) :
    ∃ place, e.firstRead? name = some place := by
  refine Option.ne_none_iff_exists'.mp fun hnone => ?_
  have hcalls : ∀ function values, Never (.undefinedVariable name) (noCalls function values) :=
    fun function values s hs => by cases hs
  exact never_evalAt hcalls false 0 hnone () h

end Unbound

section Guards

variable {offset : Nat} {text : List Char} {e : Expr} {error : SyntaxError} {guard : Guard}

-- A reader fails on its line, at one of its tokens or at its end.
theorem place_of_whole_eq_error {place : Place} {trailing : Fault} {input : List Located}
    (h : whole place trailing input = .error error) :
    error.line = place.line ∧ (error.range = place.whole ∨ ∃ t ∈ input, error.range = t.range) := by
  obtain ⟨taken, rest, rfl, hblames⟩ := exists_blames h
  refine ⟨hblames.line, ?_⟩
  cases rest with
  | nil => exact .inl hblames.range
  | cons t more =>
      exact .inr ⟨t, List.mem_append_right _ (List.mem_cons_self ..), hblames.range⟩

theorem holds_of_parseExpr_eq_error (h : parseExpr text offset = .error error) :
    ∃ inside, error.range.Holds offset text inside := by
  unfold parseExpr at h
  cases hlocated : tokens 1 offset text with
  | error first =>
      rw [hlocated] at h
      cases h
      exact holds_of_tokens_eq_error hlocated
  | ok located =>
      rw [hlocated] at h
      obtain ⟨-, hrange | ⟨t, ht, hrange⟩⟩ := place_of_whole_eq_error h
      · exact ⟨text, hrange ▸ holds_whole offset text⟩
      · obtain ⟨inside, hinside, -⟩ := tokens_in hlocated t ht
        exact ⟨inside, hrange ▸ hinside⟩

-- The range of an error in a guard is cut out of the guard's text on whole characters.
theorem holds_of_parseGuard_eq_error (h : parseGuard text offset = .error error) :
    ∃ inside, error.range.Holds offset text inside := by
  unfold parseGuard at h
  cases he : parseExpr text offset with
  | error first =>
      rw [he] at h
      cases h
      exact holds_of_parseExpr_eq_error he
  | ok e =>
      rw [he] at h
      dsimp only [bind, Except.bind] at h
      split at h
      · cases h
      · rename_i function range hcall
        cases h
        obtain ⟨located, ds, hlocated, hderives, -⟩ := derives_of_parseExpr he
        obtain ⟨inside, hinside, -⟩ := tokens_in hlocated _
          (hderives.name_mem (mem_names_of_firstCall? hcall))
        exact ⟨inside, hinside⟩

-- A variable's range is where its name stands in the guard's text.
theorem holds_of_mem_variables (h : parseGuard text offset = .ok guard) :
    ∀ own ∈ guard.expr.variables, own.2.Holds offset text own.1.toList := by
  intro own hown
  obtain ⟨located, ds, hlocated, hderives, -⟩ := derives_of_parseExpr (parseGuard_eq_ok_iff.mp h)
  obtain ⟨inside, hinside, hname⟩ := tokens_in hlocated _
    (hderives.name_mem ((variables_sublist_names _).subset hown))
  exact hname own.1 rfl ▸ hinside

end Guards

end LiveDoc.Calc
