import FosCoverage.Import.ScanImport
import FosCoverage.Incremental.GitText
import Mathlib.Data.List.ReduceOption
import Mathlib.Data.List.Sort
import Mathlib.Data.List.TakeWhile

/-!
# The functions of a section

The way of a function from a record of LCOV to the lines of a file: `parse_function_records` of
`app/incremental/lcov.py` reads the record, the resolver that `_function_lookup` of
`app/inject/service.py` builds is asked for one line after the other.

* `fnLine` is the older record of a function.  A function with an end line is read back whatever
  its name is; without one, the name is cut at its first comma and the record is lost
  (`readFunctionLine_fnLine`, `parseFunctionRecords_fnLines`).
* `answers` are the answers of one resolver, and `search` is the stateless search.  The pointer of
  the resolver stands in front of the first range that ends at or behind the largest line asked so
  far (`resolve_dropWhile`).  Behind the last range it answers nothing any more, so the order of
  the queries matters exactly there (`answers_eq_search_iff`, `answers_eq_map_iff`).
-/

set_option autoImplicit false

namespace FosCoverage

open Relational

namespace Lcov

/-! ## The older record -/

/-- `FN:start,name` or `FN:start,end,name` -/
def fnLine (f : FunctionRecord) : List Char :=
  "FN:".toList ++ (Git.decimal f.startLine ++ ',' ::
    ((f.endLine.elim [] fun stop => Git.decimal stop ++ [',']) ++ f.name.toList))

variable {digits : DigitTable}

theorem comma_notMem_decimal (n : Nat) : ',' ∉ Git.decimal n :=
  fun h => absurd (Git.isDigit_decimal h) (by decide)

theorem isdigit_decimal (n : Nat) : isdigit digits (Git.decimal n) = true := by
  have hall : ∀ c ∈ Git.decimal n, digits.isDigit c = true := by
    intro c hc
    have hrange := Char.isDigit_iff_toNat.1 (Git.isDigit_decimal hc)
    rw [(digits.ascii c (lt_of_le_of_lt hrange.2 (by decide))).1, Git.isDigit_decimal hc]
  exact decide_eq_true ⟨Nat.toDigits_ne_nil, List.all_eq_true.2 hall⟩

/-- A text whose characters all have a value is read as a number. -/
theorem int_of_values {s : List Char} (h : ∀ c ∈ s, (digits.value c).isSome = true) :
    int digits s = .ok (s.foldl (fun n c => 10 * n + (digits.value c).getD 0) 0) := by
  unfold int
  generalize LcovError.invalidLiteral (String.ofList s) = failure
  generalize hstep : (fun n c => 10 * n + (digits.value c).getD 0) = step
  generalize 0 = k
  induction s generalizing k with
  | nil => rfl
  | cons c cs ih =>
    obtain ⟨d, hd⟩ := Option.isSome_iff_exists.1 (h c List.mem_cons_self)
    rw [List.foldlM_cons, List.foldl_cons]
    have hk : step k c = 10 * k + d := by simp only [← hstep, hd, Option.getD_some]
    rw [hk, hd]
    exact ih (fun c hc => h c (List.mem_cons_of_mem _ hc)) _

theorem int_decimal (n : Nat) : int digits (Git.decimal n) = .ok n := by
  have hvalue : ∀ c ∈ Git.decimal n, (digits.value c).isSome = true :=
    fun c hc => by rw [Git.value_decimal digits hc]; rfl
  rw [int_of_values hvalue, Git.foldl_decimal]

/-- The function of a record with one number, or with two. -/
theorem legacyFn_one (n : Nat) (name : List Char) :
    legacyFn digits [Git.decimal n] name = .ok (some ⟨n, none, String.ofList name⟩) := by
  simp only [legacyFn, isdigit_decimal, if_true, int_decimal, Outcome.ok_bind]
  rfl

theorem legacyFn_two (n stop : Nat) (name : List Char) :
    legacyFn digits [Git.decimal n, Git.decimal stop] name =
      .ok (some ⟨n, some stop, String.ofList name⟩) := by
  simp only [legacyFn, isdigit_decimal, Bool.and_self, if_true, int_decimal, Outcome.ok_bind]
  rfl

/-- A record with two numbers gives a function with an end line, or none. -/
theorem endLine_of_legacyFn_two {start stop name : List Char} {item : FunctionRecord}
    (h : legacyFn digits [start, stop] name = .ok (some item)) : item.endLine ≠ none := by
  simp only [legacyFn] at h
  split at h
  · simp only [Outcome.bind_eq_ok, Outcome.pure_eq_ok, Option.some.injEq] at h
    obtain ⟨_, _, _, _, rfl⟩ := h
    exact Option.some_ne_none _
  · cases Outcome.pure_eq_ok.1 h

/-- The fields of a record: the number in front of the first comma and what the rest is cut to. -/
theorem splitMax_decimal (n count : Nat) (rest : List Char) :
    splitMax ',' (count + 1) (Git.decimal n ++ ',' :: rest) =
      Git.decimal n :: splitMax ',' count rest := by
  rw [splitMax, Text.cut_char_append (comma_notMem_decimal n)]

/-- The record is read back as it is written. -/
def Survives (f : FunctionRecord) : Prop := f.endLine = none → ',' ∉ f.name.toList

instance (f : FunctionRecord) : Decidable (Survives f) :=
  inferInstanceAs (Decidable (_ → _))

/-- **One record**: it adds at most one function, and this is the one it was written for exactly
when that one survives. -/
theorem readFunctionLine_fnLine {s s' : FunctionState} {f : FunctionRecord}
    (h : readFunctionLine digits s (fnLine f) = .ok s') :
    ∃ item : Option FunctionRecord, s' = { s with legacy := s.legacy ++ item.toList } ∧
      (item = some f ↔ Survives f) := by
  obtain ⟨start, stop, name⟩ := f
  have hfn : readFunctionLine digits s (fnLine ⟨start, stop, name⟩) =
      readFn digits s (Git.decimal start ++ ',' ::
        ((stop.elim [] fun stop => Git.decimal stop ++ [',']) ++ name.toList)) := rfl
  rw [hfn, readFn, splitMax_decimal] at h
  cases stop with
  | some stop =>
    rw [Option.elim_some, List.append_assoc, List.singleton_append, splitMax_decimal] at h
    simp only [splitMax, legacyFn_two, Outcome.ok_bind, Outcome.pure_eq_ok] at h
    subst h
    refine ⟨_, rfl, iff_of_true ?_ (fun h => absurd h (Option.some_ne_none stop))⟩
    rw [String.ofList_toList]
  | none =>
    rw [Option.elim_none, List.nil_append, splitMax] at h
    by_cases hcomma : ',' ∈ name.toList
    · obtain ⟨before, behind, hname, hbefore⟩ := List.eq_append_cons_of_mem hcomma
      rw [hname, Text.cut_char_append hbefore] at h
      simp only [splitMax, Outcome.bind_eq_ok, Outcome.pure_eq_ok] at h
      obtain ⟨item, hitem, rfl⟩ := h
      refine ⟨item, rfl, iff_of_false ?_ fun h => h rfl hcomma⟩
      rintro rfl
      exact endLine_of_legacyFn_two hitem rfl
    · rw [Text.cut_char_of_notMem hcomma] at h
      simp only [legacyFn_one, Outcome.ok_bind, Outcome.pure_eq_ok] at h
      subst h
      refine ⟨_, rfl, iff_of_true ?_ (fun _ => hcomma)⟩
      rw [String.ofList_toList]

/-- A record that survives is read. -/
theorem readFunctionLine_ok {f : FunctionRecord} (h : Survives f) (s : FunctionState) :
    readFunctionLine digits s (fnLine f) = .ok { s with legacy := s.legacy ++ [f] } := by
  obtain ⟨start, stop, name⟩ := f
  have hfn : readFunctionLine digits s (fnLine ⟨start, stop, name⟩) =
      readFn digits s (Git.decimal start ++ ',' ::
        ((stop.elim [] fun stop => Git.decimal stop ++ [',']) ++ name.toList)) := rfl
  rw [hfn, readFn, splitMax_decimal]
  cases stop with
  | some stop =>
    rw [Option.elim_some, List.append_assoc, List.singleton_append, splitMax_decimal]
    simp only [splitMax, legacyFn_two, Outcome.ok_bind, String.ofList_toList]
    rfl
  | none =>
    rw [Option.elim_none, List.nil_append, splitMax, Text.cut_char_of_notMem (h rfl)]
    simp only [legacyFn_one, Outcome.ok_bind, String.ofList_toList]
    rfl

/-- The functions that are read are at most the records, and all of them only when each record
adds the function it was written for. -/
theorem foldlM_fnLine_ok {fs : List FunctionRecord} {s s' : FunctionState}
    (h : (fs.map fnLine).foldlM (readFunctionLine digits) s = .ok s') :
    ∃ items : List (Option FunctionRecord), items.length = fs.length ∧
      s' = { s with legacy := s.legacy ++ items.reduceOption } ∧
      (items = fs.map some → ∀ f ∈ fs, Survives f) := by
  induction fs generalizing s with
  | nil =>
    obtain rfl := Outcome.pure_eq_ok.1 h
    exact ⟨[], rfl, by rw [List.reduceOption_nil, List.append_nil],
      fun _ => List.forall_mem_nil _⟩
  | cons f fs ih =>
    rw [List.map_cons, List.foldlM_cons] at h
    obtain ⟨mid, hmid, hrest⟩ := Outcome.bind_eq_ok.1 h
    obtain ⟨item, rfl, hitem⟩ := readFunctionLine_fnLine hmid
    obtain ⟨items, hlength, rfl, hitems⟩ := ih hrest
    refine ⟨item :: items, congrArg (· + 1) hlength, ?_, fun h => ?_⟩
    · rw [← List.singleton_append, List.reduceOption_append, List.reduceOption_singleton,
        List.append_assoc]
    · obtain ⟨hhead, htail⟩ := List.cons.inj h
      exact List.forall_mem_cons.2 ⟨hitem.1 hhead, hitems htail⟩

theorem map_some_reduceOption {α : Type} {items : List (Option α)}
    (h : items.reduceOption.length = items.length) : items.reduceOption.map some = items := by
  rw [List.reduceOption_length_eq_iff] at h
  induction items with
  | nil => rfl
  | cons item items ih =>
    rw [List.forall_mem_cons] at h
    obtain ⟨a, rfl⟩ := Option.isSome_iff_exists.1 h.1
    rw [List.reduceOption_cons_of_some, List.map_cons, ih h.2]

/-- **The older records are read back exactly when no function without an end line has a comma in
its name.** -/
theorem parseFunctionRecords_fnLines (digits : DigitTable) (fs : List FunctionRecord) :
    parseFunctionRecords digits (fs.map fnLine) = .ok (fs, false) ↔
      ∀ f ∈ fs, f.endLine = none → ',' ∉ f.name.toList := by
  constructor
  · intro h
    obtain ⟨s, hs, hresult⟩ := Outcome.bind_eq_ok.1 h
    obtain ⟨items, hlength, rfl, hitems⟩ := foldlM_fnLine_ok hs
    have hread : items.reduceOption = fs := (Prod.mk.inj (Outcome.pure_eq_ok.1 hresult)).1
    -- as many functions as records, so no record is lost
    refine hitems (hread ▸ (map_some_reduceOption ?_).symm)
    rw [hread, hlength]
  · intro h
    have hread : ∀ s : FunctionState, (fs.map fnLine).foldlM (readFunctionLine digits) s =
        .ok { s with legacy := s.legacy ++ fs } := by
      induction fs with
      | nil => exact fun s => congrArg Except.ok (by simp only [List.append_nil])
      | cons f fs ih =>
        intro s
        rw [List.forall_mem_cons] at h
        rw [List.map_cons, List.foldlM_cons, readFunctionLine_ok h.1, Outcome.ok_bind, ih h.2]
        simp only [List.append_assoc, List.singleton_append]
    rw [parseFunctionRecords, hread]
    rfl

/-- The record of a function with a template argument in its name gives no function. -/
theorem parseFunctionRecords_template :
    parseFunctionRecords DigitTable.asciiOnly ["FN:12,map<int,long>".toList] = .ok ([], false) ∧
      ¬ ∀ fs : List FunctionRecord,
        (∀ f ∈ fs, 1 ≤ f.startLine ∧ Text.NoBreak f.name.toList ∧
          (f.name.toList.dropWhile Char.isDigit).head? ≠ some ',') →
        parseFunctionRecords DigitTable.asciiOnly (fs.map fnLine) = .ok (fs, false) := by
  refine ⟨by decide +kernel, fun h => ?_⟩
  have hread := h [⟨12, none, "map<int,long>"⟩] (by decide +kernel)
  have hlost : parseFunctionRecords DigitTable.asciiOnly
      ([⟨12, none, "map<int,long>"⟩].map fnLine) = .ok ([], false) := by decide +kernel
  rw [hlost] at hread
  cases hread

end Lcov

namespace ScanImportService

open Lcov

/-! ## One resolver, many lines -/

/-- The answers to some lines, one after the other; the pointer stays where a line leaves it. -/
def answersFrom (all : List LookupRange) : List LookupRange → List Nat →
    List (Option LookupRange)
  | _, [] => []
  | ahead, line :: lines =>
    (resolve all ahead line).1 :: answersFrom all (resolve all ahead line).2 lines

/-- The answers of the resolver of some ranges. -/
def answers (ranges : List FunctionRecord) (lines : List Nat) : List (Option LookupRange) :=
  match functionLookup ranges with
  | none => lines.map fun _ => none
  | some all => answersFrom all all lines

/-- The range has lines: it starts at a line and ends there or behind. -/
def Valid (r : FunctionRecord) : Prop := 1 ≤ r.startLine ∧ ∃ stop ∈ r.endLine, r.startLine ≤ stop

/-- The line is one of the range. -/
def Contains (r : FunctionRecord) (line : Nat) : Prop :=
  r.startLine ≤ line ∧ ∃ stop ∈ r.endLine, line ≤ stop

/-- The ranges have no line in common. -/
def Apart (r r' : FunctionRecord) : Prop :=
  (∃ stop ∈ r.endLine, stop < r'.startLine) ∨ ∃ stop ∈ r'.endLine, stop < r.startLine

/-- The line is behind the end of the range. -/
def Behind (r : FunctionRecord) (line : Nat) : Prop := ∃ stop ∈ r.endLine, stop < line

instance (r : FunctionRecord) : Decidable (Valid r) := inferInstanceAs (Decidable (_ ∧ _))

instance (r : FunctionRecord) (line : Nat) : Decidable (Contains r line) :=
  inferInstanceAs (Decidable (_ ∧ _))

instance (r r' : FunctionRecord) : Decidable (Apart r r') := inferInstanceAs (Decidable (_ ∨ _))

/-- Every line belongs to at most one of the ranges. -/
structure Unambiguous (ranges : List FunctionRecord) : Prop where
  /-- The ranges have lines. -/
  valid : ∀ r ∈ ranges, Valid r
  /-- No two have one in common. -/
  apart : ranges.Pairwise Apart

instance (ranges : List FunctionRecord) : Decidable (Unambiguous ranges) :=
  decidable_of_iff ((∀ r ∈ ranges, Valid r) ∧ ranges.Pairwise Apart)
    ⟨fun h => ⟨h.1, h.2⟩, fun h => ⟨h.valid, h.apart⟩⟩

/-- The stateless search: the range that contains the line. -/
def search (ranges : List FunctionRecord) (line : Nat) : Option LookupRange :=
  if Unambiguous ranges then (ranges.find? fun r => Contains r line).bind lookupRange else none

/-! ### Ascending ranges -/

/-- What `_function_lookup` keeps: every range ends before the next one starts. -/
structure Ascending (all : List LookupRange) : Prop where
  /-- The ranges have lines. -/
  nonempty : ∀ r ∈ all, r.start ≤ r.stop
  /-- The order. -/
  before : all.Pairwise fun r r' => r.stop < r'.start

/-- The line is one of the range. -/
def LookupRange.has (r : LookupRange) (line : Nat) : Bool := r.start ≤ line && line ≤ r.stop

theorem LookupRange.has_iff {r : LookupRange} {line : Nat} :
    r.has line = true ↔ r.start ≤ line ∧ line ≤ r.stop := by
  simp only [LookupRange.has, Bool.and_eq_true, decide_eq_true_eq]

variable {all : List LookupRange} {line : Nat}

theorem Ascending.tail {r : LookupRange} (h : Ascending (r :: all)) : Ascending all :=
  ⟨fun r' hr' => h.nonempty r' (List.mem_cons_of_mem r hr'), (List.pairwise_cons.1 h.before).2⟩

/-- A range is the only one with its lines. -/
theorem Ascending.find?_eq (h : Ascending all) {r : LookupRange} (hr : r ∈ all)
    (hline : r.has line = true) : all.find? (LookupRange.has · line) = some r := by
  induction all with
  | nil => exact absurd hr List.not_mem_nil
  | cons r' all ih =>
    rcases List.mem_cons.1 hr with rfl | hr
    · exact List.find?_cons_of_pos hline
    · have hbefore := (List.pairwise_cons.1 h.before).1 r hr
      have hother : r'.has line = false := by
        rw [LookupRange.has_iff] at hline
        rw [Bool.eq_false_iff, Ne, LookupRange.has_iff]
        omega
      simp only [List.find?_cons, hother]
      exact ih h.tail hr

/-- The bisection looks at the last range that starts at the line or before it; no other one can
have the line. -/
theorem Ascending.bisect (h : Ascending all) :
    (all.takeWhile fun r => r.start ≤ line).getLast?.filter (LookupRange.has · line) =
      all.find? (LookupRange.has · line) := by
  induction all with
  | nil => rfl
  | cons r all ih =>
    by_cases hr : r.start ≤ line
    · rw [List.takeWhile_cons, if_pos (decide_eq_true hr)]
      by_cases hnext : all.takeWhile (fun r => r.start ≤ line) = []
      · -- the next range starts behind the line
        have hnone : all.find? (LookupRange.has · line) = none := by
          rw [← ih h.tail, hnext]
          rfl
        simp only [hnext, List.getLast?_singleton, List.find?_cons, hnone, Option.filter_some]
        cases r.has line <;> rfl
      · obtain ⟨r', rest, htake⟩ := List.exists_cons_of_ne_nil hnext
        have hmem : r' ∈ all.takeWhile fun r => r.start ≤ line := htake ▸ List.mem_cons_self
        have hstart : r'.start ≤ line := by simpa using List.mem_takeWhile_imp hmem
        have hbefore := (List.pairwise_cons.1 h.before).1 r' ((List.takeWhile_sublist _).mem hmem)
        have hother : r.has line = false := by
          rw [Bool.eq_false_iff, Ne, LookupRange.has_iff]
          omega
        simp only [List.find?_cons, hother]
        rw [← ih h.tail, htake, List.getLast?_cons_cons]
    · have hother : r.has line = false :=
        Bool.eq_false_iff.2 fun hline => hr (LookupRange.has_iff.1 hline).1
      have hnone : all.find? (LookupRange.has · line) = none := by
        rw [List.find?_eq_none]
        intro r' hr' hline
        have hbefore := (List.pairwise_cons.1 h.before).1 r' hr'
        have := h.nonempty r List.mem_cons_self
        rw [LookupRange.has_iff] at hline
        omega
      simp only [List.find?_cons, hother, hnone]
      rw [List.takeWhile_cons, if_neg (by simpa using hr)]
      rfl

/-! ### The pointer -/

/-- Two lines move the pointer as far as the larger of them. -/
theorem dropWhile_max (all : List LookupRange) (m line : Nat) :
    (all.dropWhile fun r => r.stop < m).dropWhile (fun r => r.stop < line) =
      all.dropWhile fun r => r.stop < max m line := by
  induction all with
  | nil => rfl
  | cons r all ih =>
    simp only [List.dropWhile_cons, decide_eq_true_eq]
    by_cases hm : r.stop < m
    · rw [if_pos hm, if_pos (by omega), ih]
    · rw [if_neg hm, List.dropWhile_cons]
      by_cases hline : r.stop < line
      · have hmax : max m line = line := by omega
        rw [hmax]
        simp only [hline, decide_true, if_true]
      · rw [if_neg (by simpa using hline), if_neg (by omega)]

/-- **One line**: the answer is the one of a search through all ranges, unless a line before it was
behind the end of every range. -/
theorem resolve_dropWhile (h : Ascending all) (m line : Nat) :
    resolve all (all.dropWhile fun r => r.stop < m) line =
      (if ∀ r ∈ all, r.stop < m then none else all.find? (LookupRange.has · line),
        all.dropWhile fun r => r.stop < max m line) := by
  have hhas : (fun r : LookupRange => decide (r.start ≤ line ∧ line ≤ r.stop)) =
      (LookupRange.has · line) := by
    funext r
    rw [LookupRange.has, Bool.decide_and]
  rw [resolve, dropWhile_max]
  cases hahead : all.dropWhile fun r => r.stop < max m line with
  | nil =>
    have hstop : ∀ r ∈ all, r.stop < max m line := by
      simpa [List.dropWhile_eq_nil_iff] using hahead
    have hanswer : (if ∀ r ∈ all, r.stop < m then none
        else all.find? (LookupRange.has · line)) = none := by
      split
      · rfl
      · next hm =>
        simp only [not_forall, not_lt] at hm
        obtain ⟨r, hr, hle⟩ := hm
        have := hstop r hr
        rw [List.find?_eq_none]
        intro r' hr' hline
        have := hstop r' hr'
        rw [LookupRange.has_iff] at hline
        omega
    rw [hanswer]
  | cons candidate rest =>
    have hmem : candidate ∈ all := (List.dropWhile_sublist _).mem (hahead ▸ List.mem_cons_self)
    have hstop : max m line ≤ candidate.stop := by
      have := List.head?_dropWhile_not (fun r : LookupRange => r.stop < max m line) all
      rw [hahead] at this
      exact not_lt.1 (of_decide_eq_false this)
    have hm : ¬ ∀ r ∈ all, r.stop < m := fun hall => by
      have := hall candidate hmem
      omega
    simp only [if_neg hm, hhas]
    split
    · next hline => rw [h.find?_eq hmem (LookupRange.has_iff.2 hline)]
    · rw [h.bisect]

/-- **All lines**: every answer is the one of the search exactly when no line of a range comes after
a line behind all of them. -/
theorem answersFrom_eq_iff (h : Ascending all) (m : Nat) (lines : List Nat) :
    answersFrom all (all.dropWhile fun r => r.stop < m) lines =
        lines.map (fun line => all.find? (LookupRange.has · line)) ↔
      ((∀ r ∈ all, r.stop < m) → ∀ line ∈ lines, all.find? (LookupRange.has · line) = none) ∧
        lines.Pairwise fun line line' =>
          (∀ r ∈ all, r.stop < line) → all.find? (LookupRange.has · line') = none := by
  induction lines generalizing m with
  | nil => simp [answersFrom]
  | cons line lines ih =>
    have hmax : (∀ r ∈ all, r.stop < max m line) ↔
        (∀ r ∈ all, r.stop < m) ∨ ∀ r ∈ all, r.stop < line := by
      constructor
      · intro hall
        rcases Nat.le_total m line with hle | hle
        · exact .inr fun r hr => by have := hall r hr; omega
        · exact .inl fun r hr => by have := hall r hr; omega
      · rintro (hall | hall) r hr
        · have := hall r hr
          omega
        · have := hall r hr
          omega
    have hhead : (if ∀ r ∈ all, r.stop < m then none
        else all.find? (LookupRange.has · line)) = all.find? (LookupRange.has · line) ↔
        ((∀ r ∈ all, r.stop < m) → all.find? (LookupRange.has · line) = none) := by
      split
      · next hm => exact ⟨fun he _ => he.symm, fun he => (he hm).symm⟩
      · next hm => exact ⟨fun _ hall => absurd hall hm, fun _ => rfl⟩
    rw [answersFrom, resolve_dropWhile h, List.map_cons, List.cons.injEq, ih, hhead, hmax,
      List.pairwise_cons, List.forall_mem_cons]
    constructor
    · rintro ⟨hline, hlines, hpairs⟩
      exact ⟨fun hm => ⟨hline hm, hlines (.inl hm)⟩, fun l hl hall => hlines (.inr hall) l hl,
        hpairs⟩
    · rintro ⟨hm, hfirst, hpairs⟩
      refine ⟨fun hall => (hm hall).1, ?_, hpairs⟩
      rintro (hall | hall) l hl
      · exact (hm hall).2 l hl
      · exact hfirst l hl hall

/-! ### The resolver of some ranges -/

variable {ranges : List FunctionRecord}

theorem lookupRange_eq_some_iff {f : FunctionRecord} {r : LookupRange} :
    lookupRange f = some r ↔ Valid f ∧ f.startLine = r.start ∧ f.endLine = some r.stop ∧
      f.name = r.name := by
  obtain ⟨start, stop, name⟩ := f
  cases stop with
  | none => simp [lookupRange, Valid]
  | some stop =>
    simp only [lookupRange, Valid, Option.ite_none_left_eq_some, Option.some.injEq]
    constructor
    · rintro ⟨hvalid, rfl⟩
      exact ⟨⟨by omega, stop, rfl, by omega⟩, rfl, rfl, rfl⟩
    · rintro ⟨⟨hstart, _, hmem, hstop⟩, rfl, rfl, rfl⟩
      obtain rfl := Option.some.inj hmem
      exact ⟨by omega, rfl⟩

theorem lookupRange_isSome_iff {f : FunctionRecord} : (lookupRange f).isSome = true ↔ Valid f := by
  constructor
  · intro h
    obtain ⟨r, hr⟩ := Option.isSome_iff_exists.1 h
    exact (lookupRange_eq_some_iff.1 hr).1
  · intro h
    obtain ⟨stop, hstop, -⟩ := h.2
    rw [lookupRange_eq_some_iff (r := ⟨f.startLine, stop, f.name⟩) |>.2 ⟨h, rfl, hstop, rfl⟩]
    rfl

theorem mapM_lookupRange (ranges : List FunctionRecord) : ranges.mapM lookupRange =
    if ∀ f ∈ ranges, Valid f then some (ranges.filterMap lookupRange) else none := by
  induction ranges with
  | nil => rfl
  | cons f ranges ih =>
    rw [List.mapM_cons, ih]
    cases hf : lookupRange f with
    | none =>
      have hvalid : ¬ Valid f := by rw [← lookupRange_isSome_iff, hf]; simp
      exact (if_neg fun h => hvalid (h f List.mem_cons_self)).symm
    | some r =>
      have hvalid : Valid f := by rw [← lookupRange_isSome_iff, hf]; rfl
      rw [List.filterMap_cons_some hf]
      simp only [List.forall_mem_cons, hvalid, true_and]
      split <;> rfl

/-- The order of the sort: by start, then by end. -/
def Precedes (r r' : LookupRange) : Prop := r.start < r'.start ∨ r.start = r'.start ∧ r.stop ≤ r'.stop

instance : DecidableRel Precedes := fun _ _ => inferInstanceAs (Decidable (_ ∨ _))

/-- The valid ranges in ascending order. -/
def normalized (ranges : List FunctionRecord) : List LookupRange :=
  (ranges.filterMap lookupRange).insertionSort Precedes

theorem mem_normalized {r : LookupRange} :
    r ∈ normalized ranges ↔ ∃ f ∈ ranges, lookupRange f = some r := by
  rw [normalized, List.mem_insertionSort, List.mem_filterMap]

theorem start_le_stop_of_mem {r : LookupRange} (h : r ∈ normalized ranges) : r.start ≤ r.stop := by
  obtain ⟨f, -, hf⟩ := mem_normalized.1 h
  obtain ⟨⟨-, stop, hstop, hle⟩, hstart, hstop', -⟩ := lookupRange_eq_some_iff.1 hf
  rw [hstop'] at hstop
  obtain rfl := Option.some.inj hstop
  omega

/-- Where neighbours do not meet, no two ranges do. -/
theorem any_meet_eq_false_iff {all : List LookupRange} (h : ∀ r ∈ all, r.start ≤ r.stop) :
    ((all.zip (all.drop 1)).any fun p => p.2.start ≤ p.1.stop) = false ↔ Ascending all := by
  induction all with
  | nil => exact iff_of_true rfl ⟨List.forall_mem_nil _, List.Pairwise.nil⟩
  | cons r all ih =>
    rw [List.forall_mem_cons] at h
    cases all with
    | nil => exact iff_of_true rfl ⟨by simpa using h.1, List.pairwise_singleton _ _⟩
    | cons r' all =>
      have hrest := ih h.2
      simp only [List.drop_one, List.tail_cons] at hrest ⊢
      rw [List.zip_cons_cons, List.any_cons, Bool.or_eq_false_iff, hrest]
      constructor
      · rintro ⟨hmeet, hall⟩
        have hlt : r.stop < r'.start := not_le.1 (of_decide_eq_false hmeet)
        refine ⟨List.forall_mem_cons.2 ⟨h.1, hall.nonempty⟩, List.pairwise_cons.2 ⟨?_, hall.before⟩⟩
        refine List.forall_mem_cons.2 ⟨hlt, fun r'' hr'' => ?_⟩
        have hnext := (List.pairwise_cons.1 hall.before).1 r'' hr''
        have := hall.nonempty r' List.mem_cons_self
        omega
      · intro hall
        have hlt := (List.pairwise_cons.1 hall.before).1 r' List.mem_cons_self
        exact ⟨decide_eq_false (not_le.2 hlt), hall.tail⟩

/-- The ranges of two functions have no line in common when one ends before the other starts. -/
theorem apart_iff {f f' : FunctionRecord} (hf : Valid f) (hf' : Valid f') :
    Apart f f' ↔ ∀ r, lookupRange f = some r → ∀ r', lookupRange f' = some r' →
      r.stop < r'.start ∨ r'.stop < r.start := by
  constructor
  · intro h r hr r' hr'
    obtain ⟨-, hstart, hstop, -⟩ := lookupRange_eq_some_iff.1 hr
    obtain ⟨-, hstart', hstop', -⟩ := lookupRange_eq_some_iff.1 hr'
    rcases h with ⟨stop, hmem, hlt⟩ | ⟨stop, hmem, hlt⟩
    · rw [hstop] at hmem
      obtain rfl := Option.some.inj hmem
      exact .inl (hstart' ▸ hlt)
    · rw [hstop'] at hmem
      obtain rfl := Option.some.inj hmem
      exact .inr (hstart ▸ hlt)
  · intro h
    obtain ⟨r, hr⟩ := Option.isSome_iff_exists.1 (lookupRange_isSome_iff.2 hf)
    obtain ⟨r', hr'⟩ := Option.isSome_iff_exists.1 (lookupRange_isSome_iff.2 hf')
    obtain ⟨-, hstart, hstop, -⟩ := lookupRange_eq_some_iff.1 hr
    obtain ⟨-, hstart', hstop', -⟩ := lookupRange_eq_some_iff.1 hr'
    rcases h r hr r' hr' with hlt | hlt
    · exact .inl ⟨r.stop, hstop, hstart'.symm ▸ hlt⟩
    · exact .inr ⟨r'.stop, hstop', hstart.symm ▸ hlt⟩

theorem normalized_sorted (ranges : List FunctionRecord) :
    (normalized ranges).Pairwise Precedes := by
  have htotal : Std.Total Precedes := ⟨fun r r' => by unfold Precedes; omega⟩
  have htrans : IsTrans LookupRange Precedes := ⟨fun r r' r'' => by unfold Precedes; omega⟩
  exact List.pairwise_insertionSort Precedes _

/-- The sorted ranges ascend exactly when no two of them have a line in common. -/
theorem ascending_normalized_iff (h : ∀ f ∈ ranges, Valid f) :
    Ascending (normalized ranges) ↔ ranges.Pairwise Apart := by
  have hapart : ranges.Pairwise Apart ↔ (normalized ranges).Pairwise fun r r' =>
      r.stop < r'.start ∨ r'.stop < r.start := by
    rw [normalized, (List.perm_insertionSort _ _).pairwise_iff (fun {_ _} h => h.symm),
      List.pairwise_filterMap]
    exact List.Pairwise.iff_of_mem fun {f f'} hf hf' => apart_iff (h f hf) (h f' hf')
  rw [hapart]
  constructor
  · exact fun hall => hall.before.imp fun hlt => .inl hlt
  · intro hall
    refine ⟨fun r hr => start_le_stop_of_mem hr, ?_⟩
    refine (hall.and (normalized_sorted ranges)).imp_of_mem fun {r r'} hr hr' hpair => ?_
    have := start_le_stop_of_mem hr
    have := start_le_stop_of_mem hr'
    obtain ⟨hlt | hlt, horder⟩ := hpair
    · exact hlt
    · unfold Precedes at horder
      omega

/-- **The resolver is built for unambiguous ranges only.** -/
theorem functionLookup_eq (ranges : List FunctionRecord) :
    functionLookup ranges = if Unambiguous ranges then some (normalized ranges) else none := by
  by_cases hvalid : ∀ f ∈ ranges, Valid f
  · have hlookup : functionLookup ranges =
        if ((normalized ranges).zip ((normalized ranges).drop 1)).any fun p =>
          p.2.start ≤ p.1.stop then none else some (normalized ranges) := by
      rw [functionLookup, mapM_lookupRange, if_pos hvalid]
      rfl
    have hmeet := any_meet_eq_false_iff fun r (hr : r ∈ normalized ranges) =>
      start_le_stop_of_mem hr
    rw [ascending_normalized_iff hvalid] at hmeet
    by_cases hapart : ranges.Pairwise Apart
    · rw [hlookup, if_pos (⟨hvalid, hapart⟩ : Unambiguous ranges), hmeet.2 hapart]
      rfl
    · have hmeets := (Bool.not_eq_false _).mp (mt hmeet.1 hapart)
      rw [hlookup, if_pos hmeets, if_neg fun h : Unambiguous ranges => hapart h.apart]
  · rw [if_neg fun h => hvalid h.valid, functionLookup, mapM_lookupRange, if_neg hvalid]
    rfl

theorem Unambiguous.ascending (h : Unambiguous ranges) : Ascending (normalized ranges) :=
  (ascending_normalized_iff h.valid).2 h.apart

/-- The search through the records and the one through their ranges agree. -/
theorem search_eq (h : Unambiguous ranges) (line : Nat) :
    search ranges line = (normalized ranges).find? (LookupRange.has · line) := by
  have hhas : ∀ {f : FunctionRecord} {r : LookupRange}, lookupRange f = some r →
      (r.has line = true ↔ Contains f line) := by
    intro f r hr
    obtain ⟨-, hstart, hstop, -⟩ := lookupRange_eq_some_iff.1 hr
    rw [LookupRange.has_iff, Contains, hstart, hstop]
    simp
  rw [search, if_pos h]
  cases hfind : ranges.find? fun f => Contains f line with
  | none =>
    refine (List.find?_eq_none.2 fun r hr hline => ?_).symm
    obtain ⟨f, hf, hlookup⟩ := mem_normalized.1 hr
    exact List.find?_eq_none.1 hfind f hf (decide_eq_true ((hhas hlookup).1 hline))
  | some f =>
    have hf := List.mem_of_find?_eq_some hfind
    obtain ⟨r, hr⟩ := Option.isSome_iff_exists.1 (lookupRange_isSome_iff.2 (h.valid f hf))
    rw [Option.bind_some, hr]
    refine (h.ascending.find?_eq (mem_normalized.2 ⟨f, hf, hr⟩) ((hhas hr).2 ?_)).symm
    simpa using List.find?_some hfind

theorem search_eq_none_iff (h : Unambiguous ranges) {line : Nat} :
    search ranges line = none ↔ ∀ f ∈ ranges, ¬ Contains f line := by
  rw [search, if_pos h]
  constructor
  · intro hnone f hf hline
    cases hfind : ranges.find? fun f => Contains f line with
    | none => exact List.find?_eq_none.1 hfind f hf (decide_eq_true hline)
    | some g =>
      have hg := lookupRange_isSome_iff.2 (h.valid g (List.mem_of_find?_eq_some hfind))
      rw [hfind, Option.bind_some] at hnone
      rw [hnone] at hg
      cases hg
  · intro hall
    rw [List.find?_eq_none.2 fun f hf hline => hall f hf (of_decide_eq_true hline)]
    rfl

theorem forall_stop_lt_iff (h : Unambiguous ranges) {line : Nat} :
    (∀ r ∈ normalized ranges, r.stop < line) ↔ ∀ f ∈ ranges, Behind f line := by
  constructor
  · intro hall f hf
    obtain ⟨r, hr⟩ := Option.isSome_iff_exists.1 (lookupRange_isSome_iff.2 (h.valid f hf))
    obtain ⟨-, -, hstop, -⟩ := lookupRange_eq_some_iff.1 hr
    exact ⟨r.stop, hstop, hall r (mem_normalized.2 ⟨f, hf, hr⟩)⟩
  · intro hall r hr
    obtain ⟨f, hf, hlookup⟩ := mem_normalized.1 hr
    obtain ⟨-, -, hstop, -⟩ := lookupRange_eq_some_iff.1 hlookup
    obtain ⟨stop, hmem, hlt⟩ := hall f hf
    rw [hstop] at hmem
    obtain rfl := Option.some.inj hmem
    exact hlt

/-- The answers are those of the stateless search exactly when, the ranges being unambiguous, no
line of a range is asked after a line behind the end of every range. -/
theorem answers_eq_map_iff (ranges : List FunctionRecord) (lines : List Nat) :
    answers ranges lines = lines.map (search ranges) ↔
      (Unambiguous ranges → lines.Pairwise fun line line' =>
        (∀ f ∈ ranges, Behind f line) → ∀ f ∈ ranges, ¬ Contains f line') := by
  by_cases h : Unambiguous ranges
  · have hzero : (normalized ranges).dropWhile (fun r => r.stop < 0) = normalized ranges := by
      cases normalized ranges <;> rfl
    have hanswers := answersFrom_eq_iff h.ascending 0 lines
    rw [hzero] at hanswers
    have hall : answers ranges lines = answersFrom (normalized ranges) (normalized ranges) lines := by
      rw [answers, functionLookup_eq, if_pos h]
    simp only [← search_eq h, search_eq_none_iff h, forall_stop_lt_iff h] at hanswers
    rw [hall, hanswers, forall_prop_of_true h]
    refine and_iff_right fun hbehind line hline f hf hcontains => ?_
    obtain ⟨stop, -, hlt⟩ := hbehind f hf
    exact absurd hlt (Nat.not_lt_zero stop)
  · have hnone : answers ranges lines = lines.map fun _ => none := by
      rw [answers, functionLookup_eq, if_neg h]
    refine iff_of_true ?_ fun h' => absurd h' h
    rw [hnone]
    exact List.map_congr_left fun line _ => (if_neg h).symm

/-- `_function_for_line`: a resolver of its own for one line. -/
def functionForLine (ranges : List FunctionRecord) (line : Nat) : Option LookupRange :=
  match functionLookup ranges with
  | none => none
  | some all => (resolve all all line).1

/-- A resolver that has not been asked yet searches. -/
theorem functionForLine_eq (ranges : List FunctionRecord) (line : Nat) :
    functionForLine ranges line = search ranges line := by
  have hanswers := (answers_eq_map_iff ranges [line]).2 fun _ => List.pairwise_singleton _ _
  have hone : answers ranges [line] = [functionForLine ranges line] := by
    rw [answers, functionForLine]
    cases functionLookup ranges <;> rfl
  rw [hone] at hanswers
  exact List.head_eq_of_cons_eq hanswers

/-- **The order of the queries matters behind the last range, and only there**; a resolver of its
own for each line always searches. -/
theorem answers_eq_search_iff (ranges : List FunctionRecord) (lines : List Nat) :
    (answers ranges lines = lines.map (search ranges) ↔
      (Unambiguous ranges → lines.Pairwise fun line line' =>
        (∀ f ∈ ranges, Behind f line) → ∀ f ∈ ranges, ¬ Contains f line')) ∧
      ∀ line, functionForLine ranges line = search ranges line :=
  ⟨answers_eq_map_iff ranges lines, functionForLine_eq ranges⟩

/-- Behind the last range the resolver forgets the first one. -/
theorem answers_behind :
    answers [⟨1, some 5, "f"⟩] [10, 3] = [none, none] ∧
      [10, 3].map (search [⟨1, some 5, "f"⟩]) = [none, some ⟨1, 5, "f"⟩] := by
  decide

/-! ### The lines of a file -/

theorem lineRecords_eq_zipWith (all ahead : List LookupRange) (lines : List (Nat × Nat)) :
    lineRecords (some all) lines ahead =
      List.zipWith (fun l function => lineRecord l.1 l.2 function) lines
        (answersFrom all ahead (lines.map Prod.fst)) := by
  induction lines generalizing ahead with
  | nil => rfl
  | cons l lines ih =>
    rw [List.map_cons, answersFrom, List.zipWith_cons_cons, ← ih]
    rfl

/-- **The importer asks for ascending lines, and gets the function of each.** -/
theorem lineRecords_ascending (ranges : List FunctionRecord) {lines : List (Nat × Nat)}
    (h : lines.Pairwise fun l l' => l.1 ≤ l'.1) :
    lineRecords (functionLookup ranges) lines ((functionLookup ranges).getD []) =
      lines.map fun l => lineRecord l.1 l.2 (search ranges l.1) := by
  by_cases hunambiguous : Unambiguous ranges
  · have hanswers := (answers_eq_map_iff ranges (lines.map Prod.fst)).2 fun _ => by
      refine List.pairwise_map.2 (h.imp fun {l l'} hle hbehind f hf hcontains => ?_)
      obtain ⟨stop, hstop, hlt⟩ := hbehind f hf
      obtain ⟨-, stop', hstop', hle'⟩ := hcontains
      obtain rfl := Option.some.inj (hstop.symm.trans hstop')
      omega
    have hlookup := functionLookup_eq ranges
    rw [if_pos hunambiguous] at hlookup
    simp only [answers, hlookup] at hanswers
    rw [hlookup, Option.getD_some, lineRecords_eq_zipWith, hanswers, List.map_map,
      List.zipWith_map_right, List.zipWith_self]
    rfl
  · have hnone : ∀ lines ahead, lineRecords none lines ahead =
        lines.map fun l => lineRecord l.1 l.2 none := by
      intro lines ahead
      induction lines with
      | nil => rfl
      | cons l lines ih => rw [lineRecords, ih, List.map_cons]
    rw [functionLookup_eq, if_neg hunambiguous, hnone]
    exact List.map_congr_left fun l _ => by rw [search, if_neg hunambiguous]

end ScanImportService

end FosCoverage
