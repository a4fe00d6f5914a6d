import FosCoverage.Cpp.Dependencies

/-!
# What the scan for functions finds

The scan of `_functions` goes line by line, but what it does at a token depends on little of the
line.  Here a file is one list of tokens, each with its place (`Located`), and the scan is one fold
over it (`foldl_functionLine`).

* Inside a balanced piece of text the open braces and scopes are as before it (`Balanced.scan`).
* Hence a plain definition, wherever its line breaks are, is found (`PlainDefinition.found`): with
  its name, the lines of its braces, and the tokens of the lines behind the first one as its body.
-/

set_option autoImplicit false

namespace FosCoverage

open Text CppLexer

namespace CppSourceAnalyzer

/-! ## Tokens and their places -/

/-- A token with its place. -/
structure Located where
  /-- The number of its line. -/
  line : Nat
  /-- The token. -/
  token : String
  /-- The tokens before it on the line. -/
  before : List String
  /-- The line has a directive. -/
  inDirective : Bool
  /-- It is the last token of its line. -/
  last : Bool
  deriving DecidableEq, Repr

/-- The tokens of the rest of a line. -/
def locateFrom (line : Nat) (inDirective : Bool) (before : List String) :
    List String → List Located
  | [] => []
  | token :: tokens => ⟨line, token, before, inDirective, tokens = []⟩ ::
      locateFrom line inDirective (before ++ [token]) tokens

/-- The tokens of a file. -/
def located (lines : List (Nat × List String)) : List Located :=
  lines.flatMap fun l => locateFrom l.1 ("#" ∈ l.2) [] l.2

/-- One step of the scan: a directive is no part of a header. -/
def scanToken (file : FileTokens) (st : HeaderState) (x : Located) : HeaderState :=
  let st := if x.inDirective ∧ x.before = [] then { st with pending := [] } else st
  let st := functionToken file x.line st x.before x.token
  if x.inDirective ∧ x.last then { st with pending := [] } else st

theorem foldl_locateFrom (file : FileTokens) (line : Nat) (st : HeaderState)
    (before tokens : List String) :
    (locateFrom line false before tokens).foldl (scanToken file) st =
      functionTokens file line st before tokens := by
  induction tokens generalizing st before with
  | nil => rfl
  | cons token tokens ih =>
    rw [locateFrom, List.foldl_cons, ih]
    rfl

/-- A directive: the header before it is forgotten, and so is what it leaves. -/
theorem foldl_locateFrom_directive (file : FileTokens) (line : Nat) (st : HeaderState)
    (before tokens : List String) (hne : tokens ≠ []) :
    (locateFrom line true before tokens).foldl (scanToken file) st =
      { functionTokens file line (if before = [] then { st with pending := [] } else st) before
          tokens with pending := [] } := by
  induction tokens generalizing st before with
  | nil => exact absurd rfl hne
  | cons token tokens ih =>
    rw [locateFrom, List.foldl_cons]
    cases tokens with
    | nil => simp [locateFrom, scanToken, functionTokens]
    | cons t ts =>
      rw [ih _ _ (by simp)]
      simp [scanToken, functionTokens]

/-- **The scan is one fold over the tokens of the file.** -/
theorem foldl_functionLine (file : FileTokens) (lines : List (Nat × List String))
    (st : HeaderState) :
    lines.foldl (functionLine file) st = (located lines).foldl (scanToken file) st := by
  induction lines generalizing st with
  | nil => rfl
  | cons l lines ih =>
    have hsplit : located (l :: lines) = locateFrom l.1 ("#" ∈ l.2) [] l.2 ++ located lines := rfl
    rw [List.foldl_cons, ih, hsplit, List.foldl_append]
    congr 1
    unfold functionLine
    by_cases hd : "#" ∈ l.2
    · rw [if_pos hd, decide_eq_true hd,
        foldl_locateFrom_directive file l.1 st [] l.2 (List.ne_nil_of_mem hd), if_pos rfl]
    · rw [if_neg hd, decide_eq_false hd, foldl_locateFrom]

/-! ## Balanced pieces -/

/-- Every brace that is opened is closed, and none other is closed. -/
inductive Balanced : List Located → Prop
  /-- Nothing. -/
  | nil : Balanced []
  /-- A token that is no brace. -/
  | token {x : Located} {xs : List Located} (h₁ : x.token ≠ "\x7b") (h₂ : x.token ≠ "\x7d")
      (rest : Balanced xs) : Balanced (x :: xs)
  /-- A block. -/
  | block {x y : Located} {xs ys : List Located} (hx : x.token = "\x7b") (hy : y.token = "\x7d")
      (inner : Balanced xs) (rest : Balanced ys) : Balanced (x :: (xs ++ y :: ys))

theorem Balanced.of_no_braces {xs : List Located}
    (h : ∀ x ∈ xs, x.token ≠ "\x7b" ∧ x.token ≠ "\x7d") : Balanced xs := by
  induction xs with
  | nil => exact .nil
  | cons x xs ih =>
    obtain ⟨h₁, h₂⟩ := h x List.mem_cons_self
    exact .token h₁ h₂ (ih fun y hy => h y (List.mem_cons_of_mem _ hy))

section Scan

variable (file : FileTokens) {st : HeaderState}

/-- What a step may change: the pending tokens, and it may find functions. -/
structure Keeps (st st' : HeaderState) : Prop where
  /-- The open braces. -/
  opened : st'.opened = st.opened
  /-- The scopes. -/
  scopeStack : st'.scopeStack = st.scopeStack
  /-- Functions are never lost. -/
  functions : ∀ f ∈ st.functions, f ∈ st'.functions

theorem Keeps.refl (st : HeaderState) : Keeps st st := ⟨rfl, rfl, fun _ hf => hf⟩

theorem Keeps.trans {st st' st'' : HeaderState} (h : Keeps st st') (h' : Keeps st' st'') :
    Keeps st st'' :=
  ⟨h'.opened.trans h.opened, h'.scopeStack.trans h.scopeStack,
    fun f hf => h'.functions f (h.functions f hf)⟩

/-- A step without the resets of a directive, up to the pending tokens. -/
theorem scanToken_eq (file : FileTokens) (st : HeaderState) (x : Located) :
    ∃ pending pending', scanToken file st x =
      { functionToken file x.line { st with pending := pending } x.before x.token with
        pending := pending' } := by
  unfold scanToken
  dsimp only
  by_cases hfirst : x.inDirective = true ∧ x.before = []
  · rw [if_pos hfirst]
    refine ⟨[], ?_⟩
    split
    · exact ⟨[], rfl⟩
    · exact ⟨_, rfl⟩
  · rw [if_neg hfirst]
    refine ⟨st.pending, ?_⟩
    split
    · exact ⟨[], rfl⟩
    · exact ⟨_, rfl⟩

theorem scan_token {x : Located} (h₁ : x.token ≠ "\x7b") (h₂ : x.token ≠ "\x7d") :
    Keeps st (scanToken file st x) := by
  obtain ⟨pending, pending', heq⟩ := scanToken_eq file st x
  rw [heq]
  unfold functionToken
  rw [if_neg h₁, if_neg h₂]
  split <;> exact ⟨rfl, rfl, fun _ hf => hf⟩

/-- An opening brace pushes its header and its scope. -/
theorem scan_open (st : HeaderState) {x : Located} (hx : x.token = "\x7b") :
    ∃ header, (scanToken file st x).opened = ⟨x.line, header, scopeName header⟩ :: st.opened ∧
      (scanToken file st x).scopeStack = st.scopeStack ++ (scopeName header).toList ∧
      ∀ f ∈ st.functions, f ∈ (scanToken file st x).functions := by
  obtain ⟨pending, pending', heq⟩ := scanToken_eq file st x
  rw [heq]
  unfold functionToken
  rw [if_pos hx]
  exact ⟨if pending = [] then x.before else pending, rfl, rfl, fun _ hf => hf⟩

/-- A closing brace pops them and yields the function they belong to. -/
theorem scan_close {x : Located} (hx : x.token = "\x7d") {brace : OpenBrace}
    {opened : List OpenBrace} {scopeStack : List String} (ho : st.opened = brace :: opened)
    (hs : st.scopeStack = scopeStack ++ brace.scope.toList) :
    (scanToken file st x).opened = opened ∧ (scanToken file st x).scopeStack = scopeStack ∧
      (∀ f ∈ st.functions, f ∈ (scanToken file st x).functions) ∧
      ∀ f ∈ file.functionOf x.line st.scopeStack brace, f ∈ (scanToken file st x).functions := by
  obtain ⟨pending, pending', heq⟩ := scanToken_eq file st x
  rw [heq]
  have hne : "\x7d" ≠ "\x7b" := by decide
  unfold functionToken
  rw [hx, if_neg hne, if_pos rfl]
  unfold HeaderState.closeBrace
  dsimp only
  rw [ho]
  dsimp only
  refine ⟨rfl, ?_, fun f hf => List.mem_append_left _ hf, fun f hf => List.mem_append_right _ ?_⟩
  · rw [hs]
    cases brace.scope with
    | none => simp
    | some name => simp
  · rw [Option.mem_toList]
    exact hf

/-- **A balanced piece leaves the open braces and the scopes as they were.** -/
theorem Balanced.scan {xs : List Located} (h : Balanced xs) :
    ∀ st, Keeps st (xs.foldl (scanToken file) st) := by
  induction h with
  | nil => exact Keeps.refl
  | token h₁ h₂ _ ih => exact fun st => (scan_token file h₁ h₂).trans (ih _)
  | @block x y xs ys hx hy _ _ ihx ihy =>
    intro st
    rw [List.foldl_cons, List.foldl_append, List.foldl_cons]
    obtain ⟨header, ho, hs, hf⟩ := scan_open file st hx
    have hin := ihx (scanToken file st x)
    obtain ⟨ho', hs', hf', _⟩ := scan_close file hy (hin.opened.trans ho)
      (hin.scopeStack.trans hs)
    exact Keeps.trans ⟨ho', hs', fun f hmem => hf' f (hin.functions f (hf f hmem))⟩ (ihy _)

theorem functions_mono (file : FileTokens) (xs : List Located) (st : HeaderState) :
    ∀ f ∈ st.functions, f ∈ (xs.foldl (scanToken file) st).functions := by
  induction xs generalizing st with
  | nil => exact fun f hf => hf
  | cons x xs ih =>
    intro f hf
    refine ih _ f ?_
    obtain ⟨pending, pending', heq⟩ := scanToken_eq file st x
    rw [heq]
    unfold functionToken
    split
    · exact hf
    · split
      · unfold HeaderState.closeBrace
        dsimp only
        split
        · exact hf
        · exact List.mem_append_left _ hf
      · split <;> exact hf

end Scan

/-! ## Plain definitions -/

/-- Nothing is pending behind these tokens: they end in a semicolon, a brace or a directive. -/
def Complete (pre : List Located) : Prop :=
  ∀ x ∈ pre.getLast?, x.token ∈ [";", "\x7b", "\x7d"] ∨ (x.inDirective = true ∧ x.last = true)

/-- A definition `type name(params) { body }` in the lines of a file, with the lines of its braces and
the tokens of its body.  The parameters have no parentheses of their own, and the name is one the
analyser takes for a function. -/
inductive PlainDefinition (lines : List (Nat × List String)) :
    String → Nat → Nat → List String → Prop
  /-- The pieces of the file. -/
  | mk {pre header inner post : List Located} {o c : Located} {types params : List String}
      {name : String}
      (split : located lines = pre ++ (header ++ o :: (inner ++ c :: post)))
      (pre_complete : Complete pre)
      (header_tokens : header.map Located.token = types ++ name :: "(" :: (params ++ [")"]))
      (header_plain : ∀ x ∈ header, x.token ∉ ["\x7b", "\x7d", ";"] ∧ x.inDirective = false)
      (params_plain : "(" ∉ params) (types_plain : "[" ∉ types ∧ "#" ∉ types)
      (name_plain : name ∉ controlWords ∧
        name ∉ ["function", "sizeof", "return", "*", "&", "&&", "::", "[", "#"])
      (opens : o.token = "\x7b" ∧ o.inDirective = false) (balanced : Balanced inner)
      (closes : c.token = "\x7d") :
    PlainDefinition lines name o.line c.line (inner.map Located.token)

theorem splitLast_append {front rest : List String} (h : "(" ∉ rest) :
    splitLast "(" (front ++ "(" :: rest) = some (front, rest) := by
  have hdrop : ∀ t ∈ rest.reverse, (decide (t ≠ "(")) = true := by
    intro t ht
    rw [decide_eq_true_eq]
    rintro rfl
    exact h (List.mem_reverse.1 ht)
  unfold splitLast
  rw [List.reverse_append, List.reverse_cons, List.append_assoc,
    List.dropWhile_append_of_pos hdrop, List.takeWhile_append_of_pos hdrop]
  simp

/-- The header of a plain definition is that of a function of its name. -/
theorem identityFromTokens_plain {types params : List String} {name : String} (path : String)
    (scopes : List String) (hp : "(" ∉ params) (ht : "[" ∉ types ∧ "#" ∉ types)
    (hn : name ∉ controlWords ∧
      name ∉ ["function", "sizeof", "return", "*", "&", "&&", "::", "[", "#"]) :
    ∃ identity, identityFromTokens (types ++ name :: "(" :: (params ++ [")"])) path scopes =
      some identity ∧ identity.name = name := by
  have hsplit : splitLast "(" (types ++ name :: "(" :: (params ++ [")"])) =
      some (types ++ [name], params ++ [")"]) := by
    rw [show types ++ name :: "(" :: (params ++ [")"]) =
      (types ++ [name]) ++ "(" :: (params ++ [")"]) by simp]
    refine splitLast_append fun hmem => ?_
    rcases List.mem_append.1 hmem with hmem | hmem
    · exact hp hmem
    · exact absurd (List.mem_singleton.1 hmem) (by decide)
  obtain ⟨hcontrol, hother⟩ := hn
  simp only [List.mem_cons, List.not_mem_nil, or_false, not_or] at hother
  obtain ⟨h₁, h₂, h₃, h₄, h₅, h₆, h₇, h₈, h₉⟩ := hother
  have hnamed : ((types ++ [name]).reverse.dropWhile
      fun t => decide (t ∈ ["*", "&", "&&", "::"])).reverse = types ++ [name] := by
    rw [List.reverse_append, List.reverse_singleton, List.singleton_append,
      List.dropWhile_cons_of_neg (by simp [h₄, h₅, h₆, h₇])]
    simp
  unfold identityFromTokens
  simp only [hsplit, Option.bind_eq_bind, Option.bind_some, hnamed]
  simp [hcontrol, h₁, h₂, h₃, Ne.symm h₈, Ne.symm h₉, ht.1, ht.2]

section Found

variable {file : FileTokens}

theorem pending_of_complete {pre : List Located} (h : Complete pre) :
    (pre.foldl (scanToken file) ⟨[], [], [], []⟩).pending = [] := by
  rcases List.eq_nil_or_concat pre with rfl | ⟨front, x, rfl⟩
  · rfl
  · rw [List.concat_eq_append] at h ⊢
    rw [List.foldl_append, List.foldl_cons, List.foldl_nil]
    generalize front.foldl (scanToken file) ⟨[], [], [], []⟩ = st
    have hx := h x (by simp)
    unfold scanToken
    dsimp only
    split
    · rfl
    · rename_i hlast
      rcases hx with hx | hx
      · unfold functionToken
        simp only [List.mem_cons, List.not_mem_nil, or_false] at hx
        rcases hx with hx | hx | hx
        · simp [hx]
        · simp [hx, HeaderState.openBrace]
        · rw [hx, if_neg (by decide), if_pos rfl]
          unfold HeaderState.closeBrace
          split <;> rfl
      · exact absurd hx hlast

/-- The tokens of a header are collected. -/
theorem scan_header (file : FileTokens) {header : List Located}
    (h : ∀ x ∈ header, x.token ∉ ["\x7b", "\x7d", ";"] ∧ x.inDirective = false) (st : HeaderState) :
    header.foldl (scanToken file) st =
      { st with pending := st.pending ++ header.map Located.token } := by
  induction header generalizing st with
  | nil => simp
  | cons x header ih =>
    obtain ⟨hx, hd⟩ := h x List.mem_cons_self
    simp only [List.mem_cons, List.not_mem_nil, or_false, not_or] at hx
    have hstep : scanToken file st x = { st with pending := st.pending ++ [x.token] } := by
      unfold scanToken functionToken
      simp [hd, hx.1, hx.2.1, hx.2.2]
    rw [List.foldl_cons, hstep, ih fun y hy => h y (List.mem_cons_of_mem _ hy)]
    simp

/-- A property of every function a closing brace completes is one of every function the scan
finds. -/
theorem scan_functions_forall {file : FileTokens} {P : FunctionRange → Prop}
    (h : ∀ index scopeStack brace f, file.functionOf index scopeStack brace = some f → P f)
    (xs : List Located) (st : HeaderState) (hst : ∀ f ∈ st.functions, P f) :
    ∀ f ∈ (xs.foldl (scanToken file) st).functions, P f := by
  induction xs generalizing st with
  | nil => exact hst
  | cons x xs ih =>
    refine ih _ ?_
    obtain ⟨pending, pending', heq⟩ := scanToken_eq file st x
    rw [heq]
    unfold functionToken
    split
    · exact hst
    · split
      · unfold HeaderState.closeBrace
        dsimp only
        split
        · exact hst
        · intro f hf
          rcases List.mem_append.1 hf with hf | hf
          · exact hst f hf
          · exact h _ _ _ f (Option.mem_toList.1 hf)
      · split <;> exact hst

/-- Every function that is found has the tokens behind its first line as its body. -/
theorem functions_body (file : FileTokens) (xs : List Located) (st : HeaderState)
    (h : ∀ f ∈ st.functions, f.bodyTokens = file.body f.startLine f.endLine) :
    ∀ f ∈ (xs.foldl (scanToken file) st).functions,
      f.bodyTokens = file.body f.startLine f.endLine := by
  refine scan_functions_forall (fun index scopeStack brace f hf => ?_) xs st h
  rw [FileTokens.functionOf, Option.map_eq_some_iff] at hf
  obtain ⟨identity, _, rfl⟩ := hf
  rfl

theorem mem_unique {fs : List FunctionRange} {f : FunctionRange} (hf : f ∈ fs) :
    ∃ g ∈ unique fs, g.identity = f.identity ∧ g.startLine = f.startLine ∧
      g.endLine = f.endLine := by
  induction fs with
  | nil => cases hf
  | cons a fs ih =>
    by_cases hsame : a.same f = true
    · simp only [FunctionRange.same, decide_eq_true_eq] at hsame
      exact ⟨a, List.mem_cons_self, hsame⟩
    · rcases List.mem_cons.1 hf with rfl | hf
      · simp [FunctionRange.same] at hsame
      · obtain ⟨g, hg, h₁, h₂, h₃⟩ := ih hf
        refine ⟨g, List.mem_cons_of_mem _ (List.mem_filter.2 ⟨hg, ?_⟩), h₁, h₂, h₃⟩
        simp only [FunctionRange.same, decide_eq_true_eq] at hsame
        simp only [FunctionRange.same, h₁, h₂, h₃, Bool.not_eq_true', decide_eq_false_iff_not]
        exact hsame

theorem mem_of_mem_unique {fs : List FunctionRange} {f : FunctionRange} (hf : f ∈ unique fs) :
    f ∈ fs := by
  induction fs with
  | nil => exact hf
  | cons a fs ih =>
    rcases List.mem_cons.1 hf with rfl | hf
    · exact List.mem_cons_self
    · exact List.mem_cons_of_mem _ (ih (List.mem_filter.1 hf).1)

/-- **A plain definition is found**, with the tokens behind the line of its opening brace as its
body. -/
theorem PlainDefinition.found (file : FileTokens) {name : String} {start stop : Nat}
    {body : List String} (h : PlainDefinition file.lines name start stop body) :
    ∃ f ∈ functions file, f.identity.name = name ∧ f.startLine = start ∧ f.endLine = stop ∧
      f.bodyTokens = file.body start stop := by
  obtain ⟨hsplit, hpre, htokens, hplain, hparams, htypes, hname, hopens, hbal, hcloses⟩ := h
  rename_i pre header inner post o c types params
  -- up to the opening brace
  generalize hst : pre.foldl (scanToken file) ⟨[], [], [], []⟩ = st
  have hpending : st.pending = [] := by rw [← hst]; exact pending_of_complete hpre
  have hheader := scan_header file hplain st
  rw [hpending, List.nil_append, htokens] at hheader
  have hne : types ++ name :: "(" :: (params ++ [")"]) ≠ [] := by simp
  have hopen : scanToken file (header.foldl (scanToken file) st) o =
      ⟨st.functions, ⟨o.line, types ++ name :: "(" :: (params ++ [")"]),
        scopeName (types ++ name :: "(" :: (params ++ [")"]))⟩ :: st.opened,
        st.scopeStack ++ (scopeName (types ++ name :: "(" :: (params ++ [")"]))).toList, []⟩ := by
    rw [hheader]
    unfold scanToken functionToken
    simp [hopens.1, hopens.2, HeaderState.openBrace]
  -- the body, and the closing brace
  have hinner := hbal.scan file (scanToken file (header.foldl (scanToken file) st) o)
  have hclose := scan_close file hcloses (hinner.opened.trans (by rw [hopen]))
    (hinner.scopeStack.trans (by rw [hopen]))
  obtain ⟨identity, hidentity, hidname⟩ := identityFromTokens_plain file.path
    (inner.foldl (scanToken file)
      (scanToken file (header.foldl (scanToken file) st) o)).scopeStack hparams htypes hname
  have hmem := hclose.2.2.2 ⟨identity, o.line, c.line, file.body o.line c.line, _⟩ (by
    rw [FileTokens.functionOf, Option.mem_def, hidentity, Option.map_some])
  have hfinal := functions_mono file post _ _ hmem
  have hall : (file.lines.foldl (functionLine file) ⟨[], [], [], []⟩).functions =
      (post.foldl (scanToken file) (scanToken file (inner.foldl (scanToken file)
        (scanToken file (header.foldl (scanToken file) st) o)) c)).functions := by
    rw [foldl_functionLine, hsplit, List.foldl_append, hst, List.foldl_append, List.foldl_cons,
      List.foldl_append, List.foldl_cons]
  rw [← hall] at hfinal
  obtain ⟨g, hg, h₁, h₂, h₃⟩ := mem_unique ((List.mem_insertionSort FunctionRange.le).2 hfinal)
  refine ⟨g, hg, by rw [h₁, hidname], h₂, h₃, ?_⟩
  have hbody := functions_body file (located file.lines) ⟨[], [], [], []⟩
    (fun f hf => by cases hf)
  rw [← foldl_functionLine] at hbody
  rw [hbody g ((List.mem_insertionSort FunctionRange.le).1 (mem_of_mem_unique hg)), h₂, h₃]

end Found

end CppSourceAnalyzer

end FosCoverage
