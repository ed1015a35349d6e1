import LiveDoc.Proofs.Calc.Reads

namespace LiveDoc.Calc

open Grammar

-- The tokens up to `rest` are an expression of a level, none of them nested deeper than `bound`.
def Covers (bound level : Nat) (input : List Located) (e : Expr) (rest : List Located) : Prop :=
  ∃ ts ds, input = ts ++ rest ∧ Derives level ts ds e ∧ ∀ d ∈ ds, d ≤ bound

theorem forall_map_succ_le {ds : List Nat} {bound : Nat} :
    (∀ d ∈ ds.map (· + 1), d ≤ bound + 1) ↔ ∀ d ∈ ds, d ≤ bound := by
  simp

-- What the readers of one nesting level give, as far as the next level relies on it.
structure ReadersCover (bound : Nat) (readers : Readers) : Prop where
  operand : ∀ input e rest, Reads (readers.operand input) e rest → Covers bound 7 input e rest
  expression : ∀ level ≤ 7, ∀ input e rest, Reads (readers.expression level input) e rest →
    Covers bound level input e rest ∧ joint rest < max level 1

-- The operators of a chain get looser from left to right: the right operand before each one has
-- stopped at it. So all that has been read stays a left operand of the next one.
theorem covers_of_chains {bound : Nat} {below : Readers} (hb : ReadersCover bound below)
    {level k : Nat} {left tree : Expr} {input rest ts : List Located} {ds : List Nat}
    (hc : Chains below.expression level left input tree rest) (hl : Derives k ts ds left)
    (hd : ∀ d ∈ ds, d ≤ bound + 1) (hj : joint input ≤ k) (hlk : level ≤ k) (hk : k ≤ 8) :
    ∃ us es, input = us ++ rest ∧ Derives level (ts ++ us) es tree ∧
      (∀ d ∈ es, d ≤ bound + 1) ∧ joint rest < max level 1 := by
  by_cases hstop : joint input < max level 1
  · obtain ⟨rfl, rfl⟩ := (chains_of_joint_lt hstop tree rest).mp hc
    exact ⟨[], ds, rfl, by simpa using hl.mono hk hlk, hd, hstop⟩
  · have hpos : 0 < joint input := by omega
    obtain ⟨s, op, r, more, hi, hmem⟩ := exists_of_joint_pos hpos
    have hown := level_of_mem_binaryOps hmem
    rw [hi] at hc
    obtain ⟨right, middle, hr, hc'⟩ := (chains_cons_iff hmem (by omega) r more tree rest).mp hc
    obtain ⟨⟨us, es, hm, hder, hes⟩, hjm⟩ :=
      hb.expression (joint input + 1) (by omega) more right middle hr
    have hleft := Derives.binary r hmem (hl.mono hk hj) hder
    have hbound : ∀ d ∈ ds ++ 1 :: es.map (· + 1), d ≤ bound + 1 := by
      simpa [or_imp, forall_and] using ⟨hd, hes⟩
    have : middle.length < input.length := by
      simp only [hi, hm, List.length_cons, List.length_append]
      omega
    obtain ⟨vs, fs, rfl, hder, hfs, hjr⟩ :=
      covers_of_chains hb hc' hleft hbound (by omega) (by omega) (by omega)
    exact ⟨⟨.symbol s, r⟩ :: (us ++ vs), fs, by simp [hi, hm], by simpa using hder, hfs, hjr⟩
termination_by input.length

-- Arguments are nested one level further in than their call.
theorem covers_arguments {bound : Nat} {place : Place} {inner : ExprParser}
    (hin : ∀ input e rest, Reads (inner input) e rest → Covers bound 0 input e rest)
    {input rest : List Located} {trees : List Expr}
    (h : Reads (arguments place inner input) trees rest) :
    ∃ ts ds r, input = ts ++ ⟨.symbol .close, r⟩ :: rest ∧ DerivesList ts ds trees ∧
      ∀ d ∈ ds, d ≤ bound + 1 := by
  obtain ⟨first, middle, hf, h⟩ := (reads_arguments_iff place inner input trees rest).mp h
  obtain ⟨ts, ds, hts, hder, hds⟩ := hin input first middle hf
  rcases h with ⟨r, rfl, rfl⟩ | ⟨r, more, others, hm, ho, rfl⟩
  · exact ⟨ts, ds.map (· + 1), r, hts, .last hder, forall_map_succ_le.mpr hds⟩
  · have : more.length < input.length := by
      simp only [hts, hm, List.length_cons, List.length_append]
      omega
    obtain ⟨us, es, r', hus, hders, hes⟩ := covers_arguments hin ho
    refine ⟨ts ++ ⟨.symbol .comma, r⟩ :: us, ds.map (· + 1) ++ 1 :: es, r', ?_,
      .more r hder hders, ?_⟩
    · simp [hts, hm, hus]
    · simpa [or_imp, forall_and] using ⟨hds, hes⟩
termination_by input.length

theorem covers_primary {bound : Nat} {place : Place} {inner : ExprParser}
    (hin : ∀ input e rest, Reads (inner input) e rest → Covers bound 0 input e rest)
    {input rest : List Located} {e : Expr} (h : Reads (primary place inner input) e rest) :
    Covers (bound + 1) 8 input e rest := by
  cases readsAlone_of_reads h with
  | number value r => exact ⟨_, _, rfl, .number value r, by simp⟩
  | text value r => exact ⟨_, _, rfl, .text value r, by simp⟩
  | bool value r => exact ⟨_, _, rfl, .bool value r, by simp⟩
  | unit r r' => exact ⟨_, _, rfl, .unit r r', by simp⟩
  | var name r => exact ⟨_, _, rfl, .var name r, by simp⟩
  | call0 name r r' r'' => exact ⟨_, _, rfl, .call0 name r r' r'', by simp⟩
  | group r r' _ hi =>
      obtain ⟨ts, ds, hts, hder, hds⟩ := hin _ _ _ hi
      refine ⟨_, _, ?_, .group r r' hder, ?_⟩
      · simp [hts]
      · simpa [or_imp, forall_and] using hds
  | call name r r' _ ha =>
      obtain ⟨ts, ds, r'', hts, hders, hds⟩ := covers_arguments hin ha
      refine ⟨_, _, ?_, .call name r r' r'' hders, ?_⟩
      · simp [hts]
      · simpa [or_imp, forall_and] using hds

-- One nesting level of the parser adds one to the nesting of what it takes.
theorem readersCover (place : Place) (bound : Nat) : ReadersCover bound (readers place bound) := by
  induction bound with
  | zero =>
      constructor
      · intro input e rest h
        exact (not_reads_error _ e rest h).elim
      · intro level _ input e rest h
        exact (not_reads_error _ e rest h).elim
  | succ bound ih =>
      have hin : ∀ input e rest, Reads ((readers place bound).expression 0 input) e rest →
          Covers bound 0 input e rest := fun input e rest h => (ih.expression 0 (by omega) input e rest h).1
      have hoperand : ∀ input e rest, Reads (operand place (readers place bound) input) e rest →
          Covers (bound + 1) 7 input e rest := by
        intro input e rest h
        by_cases hsign : StartsWithSign input
        · obtain ⟨s, op, r, more, hs, rfl⟩ := hsign
          obtain ⟨inner, hi, rfl⟩ := (reads_sign_iff hs place _ r more e rest).mp h
          obtain ⟨ts, ds, rfl, hder, hds⟩ := ih.operand more inner rest hi
          exact ⟨_, _, rfl, .sign r hs hder, by simpa using hds⟩
        · rw [operand_eq_primary hsign] at h
          obtain ⟨ts, ds, rfl, hder, hds⟩ := covers_primary hin h
          exact ⟨ts, ds, rfl, .tighter (by omega) hder, hds⟩
      constructor
      · exact hoperand
      · intro level hlevel input e rest h
        obtain ⟨⟨first, middle, hf, hc⟩, -⟩ :=
          (reads_expression_iff place _ level input e rest).mp h
        obtain ⟨ts, ds, rfl, hder, hds⟩ := hoperand input first middle hf
        have hj := joint_le middle
        obtain ⟨us, es, rfl, hder, hes, hjr⟩ :=
          covers_of_chains ih hc hder hds (by omega) hlevel (by omega)
        exact ⟨⟨ts ++ us, es, by simp, hder, hes⟩, hjr⟩

end LiveDoc.Calc
