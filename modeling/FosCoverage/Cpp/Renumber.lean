import FosCoverage.Cpp.Definitions

/-!
# Numbers of lines

What happens to the analysis of a file when one line without tokens is put in.  Every line behind
it gets a new number (`shiftBehind`), and nothing else changes
(`Renumbered`, `renumbered_analyzeLines`): functions keep their identity and body, every line keeps
its contexts and calls, every definition its tokens.

The stages of the analysis work on lists of numbered entries, so each of them is treated the same
way: it commutes with a change of the numbers, it goes over the pieces of an appended list one after
the other, and the new entry does nothing.

A line can be put in where the lexer has nothing open and the line before does not end in a splice
(`Boundary`).  It is a `BlankLine` when the lexer reads no token from it and leaves nothing open.
-/

set_option autoImplicit false

namespace FosCoverage

open Text CppLexer CppSourceAnalyzer

/-! ## Lists of numbered entries -/

/-- The lines behind the first `k` move by one. -/
def shiftBehind (k n : Nat) : Nat := if n ≤ k then n else n + 1

theorem shiftBehind_strictMono (k : Nat) : StrictMono (shiftBehind k) := by
  intro m n h
  unfold shiftBehind
  split <;> split <;> omega

theorem shiftBehind_ne (k n : Nat) : shiftBehind k n ≠ k + 1 := by
  unfold shiftBehind
  split <;> omega

/-- The entries under other numbers. -/
def renumber {α : Type} (φ : Nat → Nat) (l : List (Nat × α)) : List (Nat × α) :=
  l.map (Prod.map φ id)

section Entries

variable {α β : Type} {φ : Nat → Nat}

theorem renumber_append (l l' : List (Nat × α)) :
    renumber φ (l ++ l') = renumber φ l ++ renumber φ l' := List.map_append

theorem enumerate_append (n : Nat) (a b : List α) :
    enumerate n (a ++ b) = enumerate n a ++ enumerate (n + a.length) b := by
  induction a generalizing n with
  | nil => rfl
  | cons x a ih =>
    rw [List.cons_append, enumerate, ih, enumerate, List.length_cons, List.cons_append,
      Nat.add_right_comm, Nat.add_assoc]

theorem renumber_enumerate_before {k n : Nat} {a : List α} (h : n + a.length ≤ k + 1) :
    renumber (shiftBehind k) (enumerate n a) = enumerate n a := by
  induction a generalizing n with
  | nil => rfl
  | cons x a ih =>
    rw [List.length_cons] at h
    have hx : shiftBehind k n = n := if_pos (by omega)
    have ha := ih (n := n + 1) (by omega)
    unfold renumber at ha ⊢
    rw [enumerate, List.map_cons, ha, Prod.map_apply, hx, id]

theorem renumber_enumerate_behind {k n : Nat} (h : k < n) (b : List α) :
    renumber (shiftBehind k) (enumerate n b) = enumerate (n + 1) b := by
  induction b generalizing n with
  | nil => rfl
  | cons x b ih =>
    have hx : shiftBehind k n = n + 1 := if_neg (by omega)
    have hb := ih (n := n + 1) (by omega)
    unfold renumber at hb ⊢
    rw [enumerate, List.map_cons, hb, Prod.map_apply, hx, id, enumerate]

/-- **One more entry**: the others get their new numbers. -/
theorem enumerate_insert (a b : List α) (x : α) :
    enumerate 1 (a ++ x :: b) =
      renumber (shiftBehind a.length) (enumerate 1 a) ++
        (a.length + 1, x) :: renumber (shiftBehind a.length) (enumerate (1 + a.length) b) := by
  rw [enumerate_append, renumber_enumerate_before (by omega), enumerate,
    renumber_enumerate_behind (by omega), Nat.add_comm 1 a.length]

theorem lookup_renumber (hφ : Function.Injective φ) (l : List (Nat × α)) (n : Nat) :
    (renumber φ l).lookup (φ n) = l.lookup n := by
  induction l with
  | nil => rfl
  | cons e l ih =>
    unfold renumber at ih ⊢
    rw [List.map_cons, Prod.map_apply, List.lookup_cons, List.lookup_cons, ih]
    by_cases h : n = e.1
    · rw [h, beq_self_eq_true, beq_self_eq_true]
      rfl
    · rw [beq_eq_false_iff_ne.2 h, beq_eq_false_iff_ne.2 fun heq => h (hφ heq)]

theorem lookup_insert {n p : Nat} (h : n ≠ p) (x : α) (a b : List (Nat × α)) :
    (a ++ (p, x) :: b).lookup n = (a ++ b).lookup n := by
  rw [List.lookup_append, List.lookup_append, List.lookup_cons, beq_eq_false_iff_ne.2 h]

/-- An entry is found under its new number. -/
theorem lookup_renumber_insert (k n : Nat) (x : α) (a b : List (Nat × α)) :
    (renumber (shiftBehind k) a ++ (k + 1, x) :: renumber (shiftBehind k) b).lookup
      (shiftBehind k n) = (a ++ b).lookup n := by
  rw [lookup_insert (shiftBehind_ne k n), ← renumber_append,
    lookup_renumber (shiftBehind_strictMono k).injective]

end Entries

/-! ## Blank lines -/

/-- A blank line, or one with nothing but whole comments. -/
structure BlankLine (line : List Char) : Prop where
  /-- It is not continued on the next line. -/
  unspliced : hasLineSplice line = false
  /-- There are no tokens. -/
  tokens : (lexLine .code line).tokens = []
  /-- No comment is left open. -/
  state : (lexLine .code line).state = .code

/-- What is open behind the lines. -/
def stateAfter (st : LexState) (lines : List (List Char)) : LexState :=
  lines.foldl (fun st line => (lexLine st line).state) st

/-- Nothing is open behind the lines: no comment, no literal, no splice. -/
structure Boundary (lines : List (List Char)) : Prop where
  /-- No comment and no literal. -/
  state : stateAfter .code lines = .code
  /-- No splice. -/
  unspliced : ∀ line ∈ lines.getLast?, hasLineSplice line = false

/-- A literal that is closed on the line is a token of it. -/
theorem tokens_ne_nil_of_closed (spliced : Bool) (fuel : Nat) (st : LexState) (cs : List Char)
    (hst : st ≠ .code) (hcomment : st ≠ .blockComment)
    (h : (lexWithin spliced fuel st cs).state = .code) :
    (lexWithin spliced fuel st cs).tokens ≠ [] := by
  induction fuel generalizing st cs with
  | zero => exact absurd h hst
  | succ fuel ih =>
    cases cs with
    | nil => exact absurd h hst
    | cons c cs =>
      have hstep : (lineStep spliced c cs st).token ≠ none ∨
          (lineStep spliced c cs st).state ≠ .code ∧
            (lineStep spliced c cs st).state ≠ .blockComment := by
        cases st with
        | code => exact absurd rfl hst
        | blockComment => exact absurd rfl hcomment
        | raw delimiter read =>
          unfold lineStep
          dsimp only
          split <;> simp
        | quote mark read =>
          unfold lineStep quoteStep
          dsimp only
          split
          · split
            · simp
            · split <;> simp
          · split <;> simp
      rw [lexWithin] at h ⊢
      dsimp only at h ⊢
      rcases hstep with htoken | ⟨h₁, h₂⟩
      · obtain ⟨token, htoken⟩ := Option.ne_none_iff_exists'.1 htoken
        simp [htoken]
      · exact List.append_ne_nil_of_right_ne_nil _ (ih _ _ h₁ h₂ h)

/-- A step in code that is on no space and no comment and yields no token opens a literal. -/
theorem codeStep_opens {c : Char} {cs : List Char} (hspace : ¬ isSpace c = true)
    (hslash : c ≠ '/') (htoken : (codeStep false c cs).token = none) :
    (codeStep false c cs).state ≠ .code ∧ (codeStep false c cs).state ≠ .blockComment := by
  unfold codeStep at htoken ⊢
  rw [if_neg hspace, if_neg (by simp [Ne.symm hslash]), if_neg (by simp [Ne.symm hslash])]
    at htoken ⊢
  split
  · simp
  · rename_i hraw
    rw [hraw] at htoken
    dsimp only at htoken
    by_cases hquote : c = '"' ∨ c = '\''
    · rw [if_pos hquote]
      simp
    · rw [if_neg hquote] at htoken
      split at htoken
      · cases htoken
      · rw [if_neg (by simp)] at htoken
        cases htoken

/-- The first character of a line that yields nothing is that of a comment. -/
theorem blank_head (fuel : Nat) (line : List Char) (hfuel : line.length ≤ fuel)
    (htokens : (lexWithin false fuel .code line).tokens = [])
    (hstate : (lexWithin false fuel .code line).state = .code) :
    line.dropWhile isSpace = [] ∨ ∃ cs, line.dropWhile isSpace = '/' :: cs := by
  induction line generalizing fuel with
  | nil => exact .inl rfl
  | cons c cs ih =>
    obtain ⟨fuel, rfl⟩ : ∃ n, fuel = n + 1 := by
      rw [List.length_cons] at hfuel
      exact ⟨fuel - 1, by omega⟩
    rw [lexWithin] at htokens hstate
    dsimp only at htokens hstate
    obtain ⟨htoken, hrest⟩ := List.append_eq_nil_iff.1 htokens
    have htoken : (lineStep false c cs .code).token = none := by
      simpa [Option.toList_eq_nil_iff] using htoken
    by_cases hspace : isSpace c = true
    · rw [List.dropWhile_cons_of_pos hspace]
      have hstep : lineStep false c cs .code = ⟨none, .code, cs, false⟩ := by
        simp [lineStep, codeStep, hspace]
      rw [hstep] at hrest hstate
      rw [List.length_cons] at hfuel
      exact ih fuel (by omega) hrest hstate
    · rw [List.dropWhile_cons_of_neg hspace]
      by_cases hslash : c = '/'
      · exact .inr ⟨cs, by rw [hslash]⟩
      · -- anything else starts a literal or is a token
        exfalso
        obtain ⟨h₁, h₂⟩ := codeStep_opens hspace hslash htoken
        exact tokens_ne_nil_of_closed _ _ _ _ h₁ h₂ hstate hrest

theorem BlankLine.head {line : List Char} (h : BlankLine line) :
    line.dropWhile isSpace = [] ∨ ∃ cs, line.dropWhile isSpace = '/' :: cs := by
  have htokens := h.tokens
  have hstate := h.state
  unfold lexLine at htokens hstate
  rw [h.unspliced] at htokens hstate
  exact blank_head _ line le_rfl htokens hstate

/-- Nothing is defined on a blank line. -/
theorem BlankLine.recognise {line : List Char} (h : BlankLine line) (u : WordTable)
    (kind : DefinitionKind) : kind.recognise u line = none := by
  cases kind with
  | macros =>
    change macroOf u line = none
    unfold macroOf
    rcases h.head with hnil | ⟨cs, hcs⟩
    · rw [hnil]
      rfl
    · rw [hcs]
      rfl
  | constants =>
    change constantOf u line = none
    unfold constantOf
    rcases h.head with hnil | ⟨cs, hcs⟩
    · rw [hnil]
      rfl
    · rw [hcs]
      rfl

/-- A blank line is no directive. -/
theorem BlankLine.directive {line : List Char} (h : BlankLine line) (u : WordTable) :
    directive u line = none := by
  have hstrip : ∀ s : List Char, strip line ≠ '#' :: s := by
    intro s hs
    unfold strip rstrip at hs
    rcases h.head with hnil | ⟨cs, hcs⟩
    · rw [hnil] at hs
      cases hs
    · rw [hcs] at hs
      have hprefix := List.dropWhile_suffix isSpace (l := ('/' :: cs).reverse)
      rw [← List.reverse_prefix, List.reverse_reverse, hs] at hprefix
      obtain ⟨t, ht⟩ := hprefix
      cases ht
  unfold CppSourceAnalyzer.directive
  split
  · rename_i s hs
    exact absurd hs (hstrip s)
  · rfl

theorem lexWithin_unspliced (fuel : Nat) (st : LexState) (cs : List Char) :
    (lexWithin false fuel st cs).spliced = false := by
  induction fuel generalizing st cs with
  | zero => rfl
  | succ fuel ih =>
    cases cs with
    | nil => rfl
    | cons c cs =>
      have hstep : (lineStep false c cs st).spliced = false := by
        unfold lineStep
        split
        · split <;> rfl
        · split <;> rfl
        · unfold quoteStep
          split
          · split <;> rfl
          · split <;> rfl
        · unfold codeStep
          repeat' split
          all_goals first | rfl | simp_all
      rw [lexWithin]
      dsimp only
      rw [hstep, ih, Bool.or_false]

/-- A line without a splice is in no group with the next one. -/
theorem lexLine_unspliced (st : LexState) {line : List Char} (h : hasLineSplice line = false) :
    (lexLine st line).spliced = false := by
  unfold lexLine
  rw [h]
  exact lexWithin_unspliced _ _ _

theorem BlankLine.lexLine_eq {line : List Char} (h : BlankLine line) :
    lexLine .code line = ⟨[], .code, false⟩ := by
  have hspliced := lexLine_unspliced .code h.unspliced
  have htokens := h.tokens
  have hstate := h.state
  cases hline : lexLine .code line with
  | mk tokens state spliced =>
    rw [hline] at htokens hstate hspliced
    dsimp only at htokens hstate hspliced
    rw [htokens, hstate, hspliced]

/-! ## Functions -/

/-- A function at other lines. -/
def FunctionRange.renumber (φ : Nat → Nat) (f : FunctionRange) : FunctionRange :=
  { f with startLine := φ f.startLine, endLine := φ f.endLine }

/-- A brace on another line. -/
def CppSourceAnalyzer.OpenBrace.renumber (φ : Nat → Nat) (b : OpenBrace) : OpenBrace :=
  { b with start := φ b.start }

/-- The state of the scan with other line numbers. -/
def CppSourceAnalyzer.HeaderState.renumber (φ : Nat → Nat) (st : HeaderState) : HeaderState :=
  { st with
    functions := st.functions.map (FunctionRange.renumber φ)
    opened := st.opened.map (OpenBrace.renumber φ) }

/-- The same file under other line numbers. -/
structure SameTokens (φ : Nat → Nat) (file file' : FileTokens) : Prop where
  /-- The path. -/
  path : file'.path = file.path
  /-- What the lexer was sure of. -/
  uncertain : file'.uncertain = file.uncertain
  /-- The tokens between two lines. -/
  body : ∀ m n, file'.body (φ m) (φ n) = file.body m n

section Functions

variable {φ : Nat → Nat} {file file' : FileTokens}

theorem closeBrace_renumber (h : SameTokens φ file file') (st : HeaderState) (n : Nat) :
    (st.renumber φ).closeBrace file' (φ n) = (st.closeBrace file n).renumber φ := by
  unfold HeaderState.closeBrace
  cases ho : st.opened with
  | nil => simp [HeaderState.renumber, ho]
  | cons brace opened =>
    have hbrace : (file'.functionOf (φ n) st.scopeStack (brace.renumber φ)) =
        (file.functionOf n st.scopeStack brace).map (FunctionRange.renumber φ) := by
      unfold FileTokens.functionOf OpenBrace.renumber
      rw [Option.map_map, h.path, h.uncertain]
      refine congrArg (Option.map · _) (funext fun identity => ?_)
      simp only [Function.comp, FunctionRange.renumber, h.body]
    simp only [HeaderState.renumber, ho, List.map_cons, hbrace, List.map_append]
    cases file.functionOf n st.scopeStack brace <;> rfl

theorem functionToken_renumber (h : SameTokens φ file file') (n : Nat) (st : HeaderState)
    (before : List String) (token : String) :
    functionToken file' (φ n) (st.renumber φ) before token =
      (functionToken file n st before token).renumber φ := by
  unfold functionToken
  split
  · rfl
  · split
    · exact closeBrace_renumber h st n
    · split <;> rfl

theorem functionTokens_renumber (h : SameTokens φ file file') (n : Nat) (st : HeaderState)
    (before tokens : List String) :
    functionTokens file' (φ n) (st.renumber φ) before tokens =
      (functionTokens file n st before tokens).renumber φ := by
  induction tokens generalizing st before with
  | nil => rfl
  | cons token tokens ih =>
    rw [functionTokens, functionToken_renumber h, ih]
    rfl

theorem functionLine_renumber (h : SameTokens φ file file') (st : HeaderState)
    (line : Nat × List String) :
    functionLine file' (st.renumber φ) (φ line.1, line.2) =
      (functionLine file st line).renumber φ := by
  unfold functionLine
  split
  · have htokens := functionTokens_renumber h line.1 { st with pending := [] } [] line.2
    exact congrArg (fun s : HeaderState => { s with pending := [] }) htokens
  · exact functionTokens_renumber h line.1 st [] line.2

theorem foldl_functionLine_renumber (h : SameTokens φ file file')
    (lines : List (Nat × List String)) (st : HeaderState) :
    (renumber φ lines).foldl (functionLine file') (st.renumber φ) =
      (lines.foldl (functionLine file) st).renumber φ := by
  unfold renumber
  induction lines generalizing st with
  | nil => rfl
  | cons line lines ih =>
    rw [List.map_cons, List.foldl_cons, List.foldl_cons, ← ih, ← functionLine_renumber h]
    rfl

theorem unique_renumber (hφ : Function.Injective φ) (fs : List FunctionRange) :
    unique (fs.map (FunctionRange.renumber φ)) = (unique fs).map (FunctionRange.renumber φ) := by
  have hsame : ∀ f g : FunctionRange, (f.renumber φ).same (g.renumber φ) = f.same g := by
    intro f g
    simp [FunctionRange.same, FunctionRange.renumber, hφ.eq_iff]
  induction fs with
  | nil => rfl
  | cons f fs ih =>
    rw [List.map_cons, unique, ih, unique, List.map_cons, List.filter_map]
    refine congrArg (List.cons _) (congrArg _ (List.filter_congr fun g _ => ?_))
    rw [Function.comp, hsame]

theorem insertionSort_renumber (hφ : StrictMono φ) (fs : List FunctionRange) :
    (fs.map (FunctionRange.renumber φ)).insertionSort FunctionRange.le =
      (fs.insertionSort FunctionRange.le).map (FunctionRange.renumber φ) := by
  refine (List.map_insertionSort _ _ _ _ fun f _ g _ => ?_).symm
  simp only [FunctionRange.le, FunctionRange.renumber, hφ.lt_iff_lt, hφ.injective.eq_iff]

/-- **The functions of a file with one more line without tokens.** -/
theorem functions_renumber (hφ : StrictMono φ) (h : SameTokens φ file file')
    {a b : List (Nat × List String)} {p : Nat} (hlines : file.lines = a ++ b)
    (hlines' : file'.lines = renumber φ a ++ (p, []) :: renumber φ b) :
    functions file' = (functions file).map (FunctionRange.renumber φ) := by
  have hblank : ∀ st : HeaderState, functionLine file' st (p, []) = st := fun st => by
    simp [functionLine, functionTokens]
  have hstate : file'.lines.foldl (functionLine file') ⟨[], [], [], []⟩ =
      (file.lines.foldl (functionLine file) ⟨[], [], [], []⟩).renumber φ := by
    rw [hlines, hlines', List.foldl_append, List.foldl_cons, hblank, ← List.foldl_append,
      ← renumber_append, ← foldl_functionLine_renumber h]
    rfl
  unfold functions
  rw [hstate]
  change unique ((List.map (FunctionRange.renumber φ) _).insertionSort _) = _
  rw [insertionSort_renumber hφ, unique_renumber hφ.injective]

end Functions

/-! ## Contexts -/

section Contexts

variable {φ : Nat → Nat}

/-- A group of lines under other numbers. -/
def CppSourceAnalyzer.LineGroup.renumber (φ : Nat → Nat) (g : LineGroup) : LineGroup :=
  { g with lines := g.lines.map φ }

theorem groupFrom_renumber (current : LineGroup) (spliced : Bool) (lines : List (Nat × LexedLine)) :
    groupFrom (current.renumber φ) spliced (renumber φ lines) =
      (groupFrom current spliced lines).map (LineGroup.renumber φ) := by
  unfold renumber
  induction lines generalizing current spliced with
  | nil => rfl
  | cons line lines ih =>
    obtain ⟨n, line⟩ := line
    rw [List.map_cons, Prod.map_apply, id, groupFrom, groupFrom]
    split
    · rw [← ih]
      simp [LineGroup.renumber]
    · rw [List.map_cons, ← ih]
      rfl

theorem lineGroups_renumber (lines : List (Nat × LexedLine)) :
    lineGroups (renumber φ lines) = (lineGroups lines).map (LineGroup.renumber φ) := by
  cases lines with
  | nil => rfl
  | cons line lines => exact groupFrom_renumber ⟨[line.1], line.2.tokens⟩ line.2.spliced lines

theorem groupFrom_append (current : LineGroup) (spliced : Bool) (a b : List (Nat × LexedLine))
    (h : ((a.getLast?.map fun l => l.2.spliced).getD spliced) = false) :
    groupFrom current spliced (a ++ b) = groupFrom current spliced a ++ lineGroups b := by
  induction a generalizing current spliced with
  | nil =>
    obtain rfl : spliced = false := h
    cases b with
    | nil => rfl
    | cons line b => rfl
  | cons line a ih =>
    obtain ⟨n, line⟩ := line
    have hlast : ((a.getLast?.map fun l => l.2.spliced).getD line.spliced) = false := by
      rw [List.getLast?_cons] at h
      cases hl : a.getLast? with
      | none => simpa [hl] using h
      | some l => simpa [hl] using h
    rw [List.cons_append, groupFrom, groupFrom]
    split
    · rw [ih _ _ hlast]
    · rw [ih _ _ hlast, List.cons_append]

theorem lineGroups_append {a : List (Nat × LexedLine)} (b : List (Nat × LexedLine))
    (h : ∀ l ∈ a.getLast?, l.2.spliced = false) :
    lineGroups (a ++ b) = lineGroups a ++ lineGroups b := by
  cases a with
  | nil => rfl
  | cons line a =>
    refine groupFrom_append _ _ a b ?_
    rw [List.getLast?_cons] at h
    cases hl : a.getLast? with
    | none => simpa [hl] using h
    | some l => simpa [hl] using h

theorem controlGroups_renumber (blocks : ControlState) (groups : List LineGroup) :
    controlGroups blocks (groups.map (LineGroup.renumber φ)) =
      renumber φ (controlGroups blocks groups) := by
  induction groups generalizing blocks with
  | nil => rfl
  | cons g groups ih =>
    rw [List.map_cons, controlGroups, controlGroups, renumber_append]
    refine congrArg₂ _ ?_ (ih _)
    simp [LineGroup.renumber, renumber, controlGroup]

theorem controlGroups_append (blocks : ControlState) (g h : List LineGroup) :
    controlGroups blocks (g ++ h) = controlGroups blocks g ++
      controlGroups (g.foldl (fun blocks g => (controlGroup blocks g).blocks) blocks) h := by
  induction g generalizing blocks with
  | nil => rfl
  | cons x g ih =>
    rw [List.cons_append, controlGroups, ih, controlGroups, List.append_assoc, List.foldl_cons]

/-- **A line without tokens changes no control context.** -/
theorem lookup_controlContext {k n : Nat} {a b : List (Nat × LexedLine)}
    (ha : ∀ l ∈ a.getLast?, l.2.spliced = false) :
    (controlContext (renumber (shiftBehind k) a ++
      (k + 1, ⟨[], .code, false⟩) :: renumber (shiftBehind k) b)).lookup (shiftBehind k n) =
      (controlContext (a ++ b)).lookup n := by
  have ha' : ∀ l ∈ (renumber (shiftBehind k) a).getLast?, l.2.spliced = false := by
    intro l hl
    unfold renumber at hl
    rw [List.getLast?_map, Option.mem_def, Option.map_eq_some_iff] at hl
    obtain ⟨l, hl, rfl⟩ := hl
    exact ha l hl
  have hblank : lineGroups ((k + 1, (⟨[], .code, false⟩ : LexedLine)) ::
      renumber (shiftBehind k) b) = ⟨[k + 1], []⟩ :: lineGroups (renumber (shiftBehind k) b) := by
    exact lineGroups_append (a := [(k + 1, ⟨[], .code, false⟩)]) _ (by simp)
  unfold controlContext
  rw [lineGroups_append _ ha', lineGroups_append _ ha, hblank, lineGroups_renumber,
    lineGroups_renumber, controlGroups_append, controlGroups_append, controlGroups,
    controlGroups_renumber, controlGroups_renumber]
  have hfold : ∀ groups : List LineGroup, ∀ blocks,
      (groups.map (LineGroup.renumber (shiftBehind k))).foldl
        (fun blocks g => (controlGroup blocks g).blocks) blocks =
      groups.foldl (fun blocks g => (controlGroup blocks g).blocks) blocks := by
    intro groups blocks
    rw [List.foldl_map]
    rfl
  rw [hfold]
  exact lookup_renumber_insert k n _ _ _

/-! ## Logical lines -/

/-- A logical line under other numbers. -/
def CppLexer.LogicalLine.renumber (φ : Nat → Nat) (l : LogicalLine) : LogicalLine :=
  { l with lines := l.lines.map φ }

/-- Whether a joined line is continued depends on its last physical line: what is left of the
backslashes before is an even number. -/
theorem hasLineSplice_join {s line : List Char} (h : hasLineSplice s = true) :
    hasLineSplice (s.dropLast ++ line) = hasLineSplice line := by
  unfold hasLineSplice at h ⊢
  rw [decide_eq_true_eq] at h
  rw [List.reverse_append, List.takeWhile_append, decide_eq_decide]
  split
  · rename_i hall
    -- the whole line is backslashes
    have hs : (s.dropLast.reverse.takeWhile fun c => decide (c = '\\')).length % 2 = 0 := by
      rcases List.eq_nil_or_concat s with rfl | ⟨front, c, rfl⟩
      · rfl
      · rw [List.concat_eq_append, List.reverse_append, List.reverse_singleton,
          List.singleton_append] at h
        rw [List.concat_eq_append, List.dropLast_concat]
        by_cases hc : c = '\\'
        · rw [List.takeWhile_cons_of_pos (by simpa using hc), List.length_cons] at h
          omega
        · rw [List.takeWhile_cons_of_neg (by simpa using hc)] at h
          cases h
    rw [List.length_append, hall]
    omega
  · rfl

theorem logicalFrom_renumber (current : LogicalLine) (lines : List (Nat × List Char)) :
    logicalFrom (current.renumber φ) (renumber φ lines) =
      (logicalFrom current lines).map (LogicalLine.renumber φ) := by
  unfold renumber
  induction lines generalizing current with
  | nil => rfl
  | cons line lines ih =>
    obtain ⟨n, line⟩ := line
    rw [List.map_cons, Prod.map_apply, id, logicalFrom, logicalFrom]
    change (if hasLineSplice current.text = true then _ else _) = _
    split
    · rw [← ih]
      simp [LogicalLine.renumber]
    · rw [List.map_cons, ← ih]
      rfl

theorem logicalLines_renumber (lines : List (Nat × List Char)) :
    logicalLines (renumber φ lines) = (logicalLines lines).map (LogicalLine.renumber φ) := by
  cases lines with
  | nil => rfl
  | cons line lines => exact logicalFrom_renumber ⟨[line.1], line.2⟩ lines

theorem logicalFrom_append (current : LogicalLine) (a b : List (Nat × List Char))
    (h : ((a.getLast?.map fun l => hasLineSplice l.2).getD (hasLineSplice current.text)) = false) :
    logicalFrom current (a ++ b) = logicalFrom current a ++ logicalLines b := by
  induction a generalizing current with
  | nil =>
    have hcurrent : ¬ hasLineSplice current.text = true := Bool.eq_false_iff.1 h
    cases b with
    | nil => rfl
    | cons line b =>
      obtain ⟨n, line⟩ := line
      rw [List.nil_append, logicalFrom, logicalFrom, if_neg hcurrent]
      rfl
  | cons line a ih =>
    obtain ⟨n, line⟩ := line
    have hlast : ((a.getLast?.map fun l => hasLineSplice l.2).getD (hasLineSplice line)) =
        false := by
      rw [List.getLast?_cons] at h
      cases hl : a.getLast? with
      | none => simpa [hl] using h
      | some l => simpa [hl] using h
    rw [List.cons_append, logicalFrom, logicalFrom]
    split
    · rename_i hsplice
      refine ih _ ?_
      rwa [hasLineSplice_join hsplice]
    · rw [ih _ hlast, List.cons_append]

theorem logicalLines_append {a : List (Nat × List Char)} (b : List (Nat × List Char))
    (h : ∀ l ∈ a.getLast?, hasLineSplice l.2 = false) :
    logicalLines (a ++ b) = logicalLines a ++ logicalLines b := by
  cases a with
  | nil => rfl
  | cons line a =>
    refine logicalFrom_append _ a b ?_
    rw [List.getLast?_cons] at h
    cases hl : a.getLast? with
    | none => simpa [hl] using h
    | some l => simpa [hl] using h

/-- The logical lines of a file with one more line. -/
theorem logicalLines_insert {k : Nat} {a b : List (Nat × List Char)} {line : List Char}
    (ha : ∀ l ∈ a.getLast?, hasLineSplice l.2 = false) (hline : hasLineSplice line = false) :
    logicalLines (renumber (shiftBehind k) a ++ (k + 1, line) :: renumber (shiftBehind k) b) =
      (logicalLines a).map (LogicalLine.renumber (shiftBehind k)) ++
        ⟨[k + 1], line⟩ :: (logicalLines b).map (LogicalLine.renumber (shiftBehind k)) := by
  have ha' : ∀ l ∈ (renumber (shiftBehind k) a).getLast?, hasLineSplice l.2 = false := by
    intro l hl
    unfold renumber at hl
    rw [List.getLast?_map, Option.mem_def, Option.map_eq_some_iff] at hl
    obtain ⟨l, hl, rfl⟩ := hl
    exact ha l hl
  have hone : logicalLines ((k + 1, line) :: renumber (shiftBehind k) b) =
      ⟨[k + 1], line⟩ :: logicalLines (renumber (shiftBehind k) b) :=
    logicalLines_append (a := [(k + 1, line)]) _ (by simpa using hline)
  rw [logicalLines_append _ ha', hone, logicalLines_renumber, logicalLines_renumber]

section Preprocessor

variable {u : WordTable}

theorem preprocessorFrom_renumber (stack : List String) (lines : List LogicalLine) :
    preprocessorFrom u stack (lines.map (LogicalLine.renumber φ)) =
      renumber φ (preprocessorFrom u stack lines) := by
  induction lines generalizing stack with
  | nil => rfl
  | cons line lines ih =>
    rw [List.map_cons, preprocessorFrom, preprocessorFrom, renumber_append]
    refine congrArg₂ _ ?_ (ih _)
    simp [LogicalLine.renumber, renumber]

theorem preprocessorFrom_append (stack : List String) (l l' : List LogicalLine) :
    preprocessorFrom u stack (l ++ l') = preprocessorFrom u stack l ++
      preprocessorFrom u (l.foldl (fun stack line => preprocessorStep u stack line.text) stack)
        l' := by
  induction l generalizing stack with
  | nil => rfl
  | cons x l ih =>
    rw [List.cons_append, preprocessorFrom, ih, preprocessorFrom, List.append_assoc,
      List.foldl_cons]

/-- **A blank line changes no preprocessor context.** -/
theorem lookup_preprocessorContext {k n : Nat} {a b : List (Nat × List Char)} {line : List Char}
    (ha : ∀ l ∈ a.getLast?, hasLineSplice l.2 = false) (hline : BlankLine line) :
    (preprocessorContext u (renumber (shiftBehind k) a ++
      (k + 1, line) :: renumber (shiftBehind k) b)).lookup (shiftBehind k n) =
      (preprocessorContext u (a ++ b)).lookup n := by
  unfold preprocessorContext
  rw [logicalLines_insert ha hline.unspliced, logicalLines_append _ ha, preprocessorFrom_append,
    preprocessorFrom_append, preprocessorFrom, preprocessorFrom_renumber,
    preprocessorFrom_renumber, List.foldl_map]
  have hstep : ∀ stack, preprocessorStep u stack line = stack := by
    intro stack
    unfold preprocessorStep
    rw [hline.directive]
  rw [hstep]
  exact lookup_renumber_insert k n _ _ _

end Preprocessor

end Contexts

/-! ## Definitions -/

/-- A definition on another line. -/
def Definition.renumber (φ : Nat → Nat) (d : Definition) : Definition := { d with line := φ d.line }

section Definitions

variable {u : WordTable} {kind : DefinitionKind} {φ : Nat → Nat}

theorem definitionAt_renumber (hφ : φ 0 = 0) (name : String) (l : LogicalLine) :
    definitionAt u kind name (l.renumber φ) =
      (definitionAt u kind name l).map (Definition.renumber φ) := by
  have hstart : (l.renumber φ).startLine = φ l.startLine := by
    unfold LogicalLine.startLine LogicalLine.renumber
    cases l.lines with
    | nil => exact hφ.symm
    | cons n ns => rfl
  unfold definitionAt
  rw [hstart]
  have htext : (l.renumber φ).text = l.text := rfl
  rw [htext]
  cases kind.recognise u l.text with
  | none => rfl
  | some d =>
    dsimp only
    split <;> rfl

/-- **The definitions of a file with one more blank line.** -/
theorem lookup_definitions_insert (u : WordTable) (kind : DefinitionKind) {k : Nat} {a b : List (Nat × List Char)} {line : List Char}
    (ha : ∀ l ∈ a.getLast?, hasLineSplice l.2 = false) (hline : BlankLine line) (name : String) :
    (definitions (kind.recognise u) (logicalLines (renumber (shiftBehind k) a ++
      (k + 1, line) :: renumber (shiftBehind k) b))).lookup name =
      ((definitions (kind.recognise u) (logicalLines (a ++ b))).lookup name).map
        (Definition.renumber (shiftBehind k)) := by
  have hzero : shiftBehind k 0 = 0 := if_pos (Nat.zero_le k)
  have hmap : ∀ lines : List LogicalLine,
      (lines.map (LogicalLine.renumber (shiftBehind k))).filterMap (definitionAt u kind name) =
        (lines.filterMap (definitionAt u kind name)).map
          (Definition.renumber (shiftBehind k)) := by
    intro lines
    rw [List.filterMap_map, List.map_filterMap]
    exact List.filterMap_congr fun l _ => definitionAt_renumber hzero name l
  have hblank : definitionAt u kind name ⟨[k + 1], line⟩ = none := by
    unfold definitionAt
    rw [hline.recognise]
  rw [lookup_definitions, lookup_definitions, logicalLines_insert ha hline.unspliced,
    logicalLines_append _ ha, List.filterMap_append, List.filterMap_append, List.filterMap_cons,
    hblank, hmap, hmap, ← List.map_append, List.getLast?_map]

end Definitions

/-! ## The whole analysis -/

/-- The analysis of a file whose lines have got other numbers. -/
structure Renumbered (φ : Nat → Nat) (a a' : SourceAnalysis) : Prop where
  /-- The functions are at their new lines. -/
  functions : a'.functions = a.functions.map (FunctionRange.renumber φ)
  /-- Every line has its control context. -/
  controls : ∀ n, a'.controls.lookup (φ n) = a.controls.lookup n
  /-- Every line has its preprocessor context. -/
  preprocessor : ∀ n, a'.preprocessor.lookup (φ n) = a.preprocessor.lookup n
  /-- Every line has its calls. -/
  calls : ∀ n, a'.calls.lookup (φ n) = a.calls.lookup n
  /-- The definitions are at their new lines. -/
  definitions : ∀ kind name, (a'.definitions kind).lookup name =
    ((a.definitions kind).lookup name).map (Definition.renumber φ)
  /-- The path. -/
  path : a'.path = a.path

theorem Renumbered.refl (a : SourceAnalysis) : Renumbered id a a where
  functions := (List.map_id' _).symm
  controls := fun _ => rfl
  preprocessor := fun _ => rfl
  calls := fun _ => rfl
  definitions := fun _ _ => (Option.map_id' ..).symm
  path := rfl

theorem Renumbered.trans {φ ψ : Nat → Nat} {a a' a'' : SourceAnalysis} (h : Renumbered φ a a')
    (h' : Renumbered ψ a' a'') : Renumbered (ψ ∘ φ) a a'' where
  functions := by
    rw [h'.functions, h.functions, List.map_map]
    rfl
  controls := fun n => (h'.controls _).trans (h.controls n)
  preprocessor := fun n => (h'.preprocessor _).trans (h.preprocessor n)
  calls := fun n => (h'.calls _).trans (h.calls n)
  definitions := fun kind name => by
    rw [h'.definitions, h.definitions, Option.map_map]
    rfl
  path := h'.path.trans h.path

section Insert

variable {before after : List (List Char)} {line : List Char}

theorem lexLines_append (st : LexState) (a b : List (List Char)) :
    lexLines st (a ++ b) = lexLines st a ++ lexLines (stateAfter st a) b := by
  induction a generalizing st with
  | nil => rfl
  | cons x a ih =>
    rw [List.cons_append, lexLines, ih, lexLines, List.cons_append]
    rfl

theorem length_lexLines (st : LexState) (lines : List (List Char)) :
    (lexLines st lines).length = lines.length := by
  induction lines generalizing st with
  | nil => rfl
  | cons x lines ih => rw [lexLines, List.length_cons, ih, List.length_cons]

theorem getLast?_lexLines (st : LexState) (lines : List (List Char)) :
    (lexLines st lines).getLast? =
      lines.getLast?.map fun line => lexLine (stateAfter st lines.dropLast) line := by
  rcases List.eq_nil_or_concat lines with rfl | ⟨front, x, rfl⟩
  · rfl
  · rw [List.concat_eq_append, lexLines_append, List.dropLast_concat, lexLines, lexLines]
    simp

/-- Something is open at the end exactly when the last state says so. -/
theorem uncertain_tokenizeLines (lines : List (List Char)) :
    uncertain (tokenizeLines lines) = decide (stateAfter .code lines ≠ .code) := by
  unfold uncertain tokenizeLines
  rw [getLast?_lexLines]
  rcases List.eq_nil_or_concat lines with rfl | ⟨front, x, rfl⟩
  · rfl
  · rw [List.concat_eq_append, List.dropLast_concat, List.getLast?_concat, stateAfter, stateAfter,
      List.foldl_append]
    rfl

theorem getLast?_of_enumerate {α : Type} {n : Nat} {l : List α} {e : Nat × α}
    (h : e ∈ (enumerate n l).getLast?) : e.2 ∈ l.getLast? := by
  have hmap : ∀ (l : List α) (n : Nat), l = (enumerate n l).map Prod.snd := by
    intro l
    induction l with
    | nil => exact fun _ => rfl
    | cons x l ih =>
      intro n
      rw [enumerate, List.map_cons, ← ih]
  rw [hmap l n, List.getLast?_map, Option.mem_def, h]
  rfl

theorem Boundary.lexed (h : Boundary before) (hline : BlankLine line) :
    tokenizeLines (before ++ line :: after) =
      tokenizeLines before ++ ⟨[], .code, false⟩ :: lexLines .code after := by
  unfold tokenizeLines
  rw [lexLines_append, h.state, lexLines, hline.lexLine_eq]

theorem Boundary.unspliced_lexed (h : Boundary before) (n : Nat) :
    ∀ l ∈ (enumerate n (tokenizeLines before)).getLast?, l.2.spliced = false := by
  intro l hl
  have hlast := getLast?_of_enumerate hl
  unfold tokenizeLines at hlast
  rw [getLast?_lexLines, Option.mem_def, Option.map_eq_some_iff] at hlast
  obtain ⟨x, hx, hlex⟩ := hlast
  rw [← hlex]
  exact lexLine_unspliced _ (h.unspliced x hx)

theorem Boundary.unspliced_lines (h : Boundary before) (n : Nat) :
    ∀ l ∈ (enumerate n before).getLast?, hasLineSplice l.2 = false :=
  fun l hl => h.unspliced l.2 (getLast?_of_enumerate hl)

theorem stateAfter_insert (h : Boundary before) (hline : BlankLine line) :
    stateAfter .code (before ++ line :: after) = stateAfter .code (before ++ after) := by
  have hstate := h.state
  unfold stateAfter at hstate ⊢
  rw [List.foldl_append, List.foldl_append, hstate, List.foldl_cons, hline.state]

/-- The tokens of a file with one more line without tokens. -/
theorem sameTokens_insert {path : String} {uncertain : Bool} {k : Nat}
    {a b : List (Nat × List String)} :
    SameTokens (shiftBehind k) ⟨path, a ++ b, uncertain⟩
      ⟨path, renumber (shiftBehind k) a ++ (k + 1, []) :: renumber (shiftBehind k) b,
        uncertain⟩ where
  path := rfl
  uncertain := rfl
  body := fun m n => by
    have hpiece : ∀ l : List (Nat × List String),
        ((renumber (shiftBehind k) l).filter fun e =>
          decide (shiftBehind k m < e.1 ∧ e.1 ≤ shiftBehind k n)).flatMap Prod.snd =
        (l.filter fun e => decide (m < e.1 ∧ e.1 ≤ n)).flatMap Prod.snd := by
      intro l
      unfold renumber
      rw [List.filter_map, List.flatMap_map]
      have hmono := shiftBehind_strictMono k
      refine congrArg _ (List.filter_congr fun e _ => ?_)
      simp only [Function.comp, Prod.map_fst, hmono.lt_iff_lt, hmono.le_iff_le]
    unfold FileTokens.body
    dsimp only
    rw [List.filter_append, List.filter_append, List.flatMap_append, List.flatMap_append,
      List.filter_cons, hpiece]
    refine congrArg _ ?_
    split
    · rw [List.flatMap_cons, List.nil_append, hpiece]
    · rw [hpiece]

/-- **A blank line changes nothing but the numbers of the lines behind it.** -/
theorem renumbered_analyzeLines (u : WordTable) (path : String) (h : Boundary before)
    (hline : BlankLine line) :
    Renumbered (shiftBehind before.length) (analyzeLines u path (before ++ after))
      (analyzeLines u path (before ++ line :: after)) := by
  have hlexed : tokenizeLines (before ++ line :: after) =
      tokenizeLines before ++ ⟨[], .code, false⟩ :: lexLines .code after := h.lexed hline
  have hlexed' : tokenizeLines (before ++ after) =
      tokenizeLines before ++ lexLines .code after := by
    unfold tokenizeLines
    rw [lexLines_append, h.state]
  have hlength : (tokenizeLines before).length = before.length := length_lexLines _ _
  have huncertain : uncertain (tokenizeLines (before ++ line :: after)) =
      uncertain (tokenizeLines (before ++ after)) := by
    rw [uncertain_tokenizeLines, uncertain_tokenizeLines, stateAfter_insert h hline]
  -- the three numbered lists: the lines, what the lexer made of them, and their tokens
  have hnumbered := enumerate_insert before after line
  have hnumbered' := enumerate_append 1 before after
  have hlex := enumerate_insert (tokenizeLines before) (lexLines .code after)
    (⟨[], .code, false⟩ : LexedLine)
  have hlex' := enumerate_append 1 (tokenizeLines before) (lexLines .code after)
  rw [hlength] at hlex hlex'
  have htokens := enumerate_insert ((tokenizeLines before).map LexedLine.tokens)
    ((lexLines .code after).map LexedLine.tokens) []
  have htokens' := enumerate_append 1 ((tokenizeLines before).map LexedLine.tokens)
    ((lexLines .code after).map LexedLine.tokens)
  rw [List.length_map, hlength] at htokens htokens'
  constructor
  · unfold analyzeLines
    dsimp only
    rw [huncertain, hlexed, hlexed', List.map_append, List.map_append, List.map_cons, htokens,
      htokens']
    exact functions_renumber (shiftBehind_strictMono _) sameTokens_insert rfl rfl
  · intro n
    unfold analyzeLines
    dsimp only
    rw [hlexed, hlexed', hlex, hlex']
    exact lookup_controlContext (h.unspliced_lexed 1)
  · intro n
    unfold analyzeLines
    dsimp only
    rw [hnumbered, hnumbered']
    exact lookup_preprocessorContext (h.unspliced_lines 1) hline
  · intro n
    unfold analyzeLines
    dsimp only
    rw [hlexed, hlexed', List.map_append, List.map_append, List.map_cons, htokens, htokens']
    have hmap : ∀ l : List (Nat × List String),
        (renumber (shiftBehind before.length) l).map (fun l => (l.1, callsOf u l.2)) =
          renumber (shiftBehind before.length) (l.map fun l => (l.1, callsOf u l.2)) := by
      intro l
      simp [renumber]
    rw [List.map_append, List.map_append, List.map_cons, hmap, hmap]
    exact lookup_renumber_insert _ n _ _ _
  · intro kind name
    have hlookup := lookup_definitions_insert u kind (k := before.length)
      (b := enumerate (1 + before.length) after) (h.unspliced_lines 1) hline name
    rw [← hnumbered, ← hnumbered'] at hlookup
    cases kind <;> exact hlookup
  · rfl

end Insert

end FosCoverage
